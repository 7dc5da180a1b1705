import FlatScript.Eval.Run
import FlatScript.Node.Statement
import FlatScript.Source
import FlatScript.Token.Lexer

/-!
# Scripts

A script is a source text that is read as a program and run with the standard builtins.  Reading
cuts it into tokens and builds the tree; both can fail at a place of the source.  A run fails
without a place.
-/

namespace FlatScript

/-- Why a script was not run to its end. -/
inductive Error where
  /-- The source has a piece that is no token. -/
  | lex (error : LexError)
  /-- The tokens do not make up a program. -/
  | parse (error : SyntaxError)
  /-- The program failed. -/
  | eval (error : EvalError)
  deriving DecidableEq

namespace Error

/-- The message of an error. -/
def message : Error → String
  | .lex error => error.fault.message
  | .parse error => error.fault.message
  | .eval error => error.message

/-- The byte offset of an error, if it has a place in the source. -/
def position : Error → Option Nat
  | .lex error => some error.position
  | .parse error => some error.position
  | .eval _ => none

/-- The report of an error in the source that has it. -/
def report (error : Error) (source : Source) : String :=
  source.report error.message error.position

end Error

/-- What a finished run leaves behind. -/
structure Outcome where
  /-- The variables of the program. -/
  vars : Std.TreeMap String Value
  /-- The value of the last return statement outside of functions. -/
  returned : Value

/-- A stop of a part as a stop of the whole, which has its own type of errors. -/
def Halt.mapError {ε δ : Type} (f : ε → δ) : Halt ε → Halt δ
  | .failed error => .failed (f error)
  | .outOfFuel => .outOfFuel

namespace Script

/-- The tokens of a script. -/
def tokens (source : String) : Except Error (List Token) :=
  (tokenize source).mapError .lex

/-- The tree that tokens make up. -/
def build (tokens : List Token) : Except Error Node :=
  (Node.ofTokens tokens).mapError .parse

/-- The tree of a script. -/
def tree (source : String) : Except Error Node := do
  build (← tokens source)

variable {σ : Type} [Host σ]

/-- Runs the tree of a script with the standard builtins. -/
def runTree (fuel : Nat) (program : Node) : EStateM (Halt Error) σ Outcome := fun host =>
  match program.runFresh Builtins.standard fuel host with
  | .ok frame after => .ok ⟨frame.vars, frame.returned⟩ after
  | .error halt after => .error (halt.mapError .eval) after

/-- Reads and runs a script. -/
def run (fuel : Nat) (source : String) : EStateM (Halt Error) σ Outcome := fun host =>
  match tree source with
  | .ok program => runTree fuel program host
  | .error error => .error (.failed error) host

end Script

end FlatScript
