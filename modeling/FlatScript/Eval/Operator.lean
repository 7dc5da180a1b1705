import FlatScript.Eval.Error

/-!
# Operators

The meaning of the operators on values.  Sums, differences and products are exact, and a result that
does not fit into 64 bits with a sign is an overflow.  Division is done in 64 bits, and it rounds
towards minus infinity.  Equality compares any two values; the order compares integers by size and
strings by the code points of their characters.
-/

namespace FlatScript

/-- An exact result as a value, or an overflow. -/
def Value.ofInt (result : Int) : Except EvalError Value :=
  if Int64.minValue.toInt ≤ result ∧ result ≤ Int64.maxValue.toInt then
    .ok (.int (Int64.ofInt result))
  else .error .integerOverflow

/-- A result in 64 bits as a value, or an overflow if there is none. -/
def Value.ofInt64? : Option Int64 → Except EvalError Value
  | .some result => .ok (.int result)
  | .none => .error .integerOverflow

/-- The quotient rounded towards zero.  There is none by zero, and none where it does not fit. -/
def truncDiv? (a b : Int64) : Option Int64 :=
  if b = 0 ∨ (a = Int64.minValue ∧ b = -1) then none else some (a / b)

/-- The remainder of the quotient rounded towards zero.  Like the quotient it is missing by zero and
where the quotient does not fit. -/
def truncMod? (a b : Int64) : Option Int64 :=
  if b = 0 ∨ (a = Int64.minValue ∧ b = -1) then none else some (a % b)

/-- The quotient rounded towards minus infinity: one less than the quotient rounded towards zero, if
there is a remainder and the signs differ. -/
def floorDiv? (a b : Int64) : Option Int64 := do
  let quotient ← truncDiv? a b
  let remainder ← truncMod? a b
  if remainder ≠ 0 ∧ ¬(a < 0 ↔ b < 0) then return quotient - 1
  else return quotient

namespace Token.Kind

/-- The failure of an operator on operands that it does not take. -/
def rejects (op : Token.Kind) (lhs rhs : Value) : Except EvalError Value :=
  .error (.typeMismatch (.operands op lhs.type rhs.type))

/-- The value of an operator between two values. -/
def applyBinary (op : Token.Kind) (lhs rhs : Value) : Except EvalError Value :=
  match op with
  | .plus =>
    match lhs, rhs with
    | .int a, .int b => Value.ofInt (a.toInt + b.toInt)
    | .str a, .str b => .ok (.str (a ++ b))
    | _, _ => op.rejects lhs rhs
  | .minus =>
    match lhs, rhs with
    | .int a, .int b => Value.ofInt (a.toInt - b.toInt)
    | _, _ => op.rejects lhs rhs
  | .star =>
    match lhs, rhs with
    | .int a, .int b => Value.ofInt (a.toInt * b.toInt)
    | _, _ => op.rejects lhs rhs
  | .slash =>
    match lhs, rhs with
    | .int a, .int b =>
      if b = 0 then .error .divisionByZero else Value.ofInt64? (floorDiv? a b)
    | _, _ => op.rejects lhs rhs
  | .equal => .ok (.bool (lhs = rhs))
  | .less =>
    match lhs, rhs with
    | .int a, .int b => .ok (.bool (a.toInt < b.toInt))
    | .str a, .str b => .ok (.bool (a < b))
    | _, _ => op.rejects lhs rhs
  | .greater =>
    match lhs, rhs with
    | .int a, .int b => .ok (.bool (b.toInt < a.toInt))
    | .str a, .str b => .ok (.bool (b < a))
    | _, _ => op.rejects lhs rhs
  | _ => .error (.invalidOperator op)

/-- The value of a sign in front of a value. -/
def applyUnary (op : Token.Kind) (arg : Value) : Except EvalError Value :=
  match op with
  | .plus =>
    match arg with
    | .int a => .ok (.int a)
    | _ => .error (.typeMismatch (.operand op arg.type))
  | .minus =>
    match arg with
    | .int a => Value.ofInt (-a.toInt)
    | _ => .error (.typeMismatch (.operand op arg.type))
  | _ => .error (.invalidOperator op)

end Token.Kind

end FlatScript
