import FlatScript.Host
import FlatScript.Token
import FlatScript.Value

/-!
# Errors of a run

The reasons for which the evaluation of a tree fails, and the words for them.
-/

namespace FlatScript

/-- The ways in which the type of a value does not fit. -/
inductive TypeMismatch where
  /-- A condition that is not a truth value. -/
  | condition (found : ValueType)
  /-- Operands that an operator does not take. -/
  | operands (op : Token.Kind) (lhs rhs : ValueType)
  /-- An operand that a sign does not take. -/
  | operand (op : Token.Kind) (arg : ValueType)
  deriving DecidableEq

/-- The words for a type that does not fit. -/
def TypeMismatch.message : TypeMismatch → String
  | .condition found => "condition must be a bool, found " ++ found.name
  | .operands op lhs rhs =>
    "unsupported operands for " ++ op.name ++ ": " ++ lhs.name ++ " and " ++ rhs.name
  | .operand op arg => "unsupported operand for unary " ++ op.name ++ ": " ++ arg.name

/-- The reasons for which an evaluation fails. -/
inductive EvalError where
  | undefinedVariable (name : String)
  | undefinedFunction (name : String)
  /-- An operator that is no operator. -/
  | invalidOperator (op : Token.Kind)
  | typeMismatch (mismatch : TypeMismatch)
  | divisionByZero
  | integerOverflow
  /-- A failure of the host. -/
  | host (error : HostError)
  deriving DecidableEq

/-- The message of an error. -/
def EvalError.message : EvalError → String
  | .undefinedVariable name => "undefined variable `" ++ name ++ "`"
  | .undefinedFunction name => "undefined function `" ++ name ++ "`"
  | .invalidOperator op => "invalid operator " ++ op.name
  | .typeMismatch mismatch => "type mismatch: " ++ mismatch.message
  | .divisionByZero => "division by zero"
  | .integerOverflow => "integer overflow"
  | .host error => "i/o error: " ++ error.message

end FlatScript
