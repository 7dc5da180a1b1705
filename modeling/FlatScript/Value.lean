import FlatScript.Text.Quoted

/-!
# Values

What expressions evaluate to: 64-bit integers, strings, truth values, and the value of everything
that yields none.
-/

namespace FlatScript

/-- A value of a running program. -/
inductive Value where
  | int (value : Int64)
  | str (value : String)
  | bool (value : Bool)
  | none
  deriving DecidableEq, Inhabited

/-- The types that values have. -/
inductive ValueType where
  | integer
  | string
  | bool
  | none
  deriving DecidableEq

/-- The name of a type in messages. -/
def ValueType.name : ValueType → String
  | .integer => "integer"
  | .string => "string"
  | .bool => "bool"
  | .none => "none"

namespace Value

/-- The type of a value. -/
def type : Value → ValueType
  | .int _ => .integer
  | .str _ => .string
  | .bool _ => .bool
  | .none => .none

/-- The integer that a value is. -/
def int? : Value → Option Int64
  | .int value => some value
  | _ => Option.none

/-- The string that a value is. -/
def str? : Value → Option String
  | .str value => some value
  | _ => Option.none

/-- The truth value that a value is. -/
def bool? : Value → Option Bool
  | .bool value => some value
  | _ => Option.none

/-- The text of a value, as programs write it. -/
def text : Value → String
  | .int value => toString value.toInt
  | .str value => value
  | .bool value => if value then "true" else "false"
  | .none => "none"

/-- The text of a value together with its type, from which the value can be told. -/
def typedText : Value → String
  | .int value => "Integer(" ++ toString value.toInt ++ ")"
  | .str value => "Str(" ++ Text.quoted value ++ ")"
  | .bool value => "Bool(" ++ (if value then "true" else "false") ++ ")"
  | .none => "None"

end Value

end FlatScript
