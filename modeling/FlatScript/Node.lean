import FlatScript.Token

/-!
# Program trees

One type of tree holds expressions, statements and whole programs: what a construct may contain is
decided by the grammar that reads it, while the evaluator gives a meaning to every tree, also to one
that no source text has.  For the same reason an operator is any kind of token.
-/

namespace FlatScript

/-- A body that runs when its predicate is true. -/
structure Branch (α : Type) where
  predicate : α
  body : α

/-- A function declaration. -/
structure Declaration (α : Type) where
  name : String
  params : List String
  body : α

/-- A program tree. -/
inductive Node where
  /-- An integer literal. -/
  | integer (value : Int64)
  /-- A string literal. -/
  | string (value : String)
  /-- A truth value. -/
  | bool (value : Bool)
  /-- A body that is absent. -/
  | void
  /-- An operator between two operands. -/
  | binary (lhs : Node) (op : Token.Kind) (rhs : Node)
  /-- An operator in front of its operand. -/
  | unary (op : Token.Kind) (arg : Node)
  /-- The value of a variable. -/
  | read (name : String)
  /-- An assignment, which also introduces the variable. -/
  | assign (name : String) (value : Node)
  /-- Statements between braces. -/
  | block (body : List Node)
  /-- The statements of a whole program. -/
  | program (body : List Node)
  /-- A branch that stands alone. -/
  | guarded (branch : Branch Node)
  /-- A choice between branches: the first, then further ones in order, and the last if none of
  them is taken. -/
  | choice (first : Branch Node) (others : List (Branch Node)) (last : Branch Node)
  /-- A function declaration. -/
  | declare (declaration : Declaration Node)
  /-- A call of a function. -/
  | call (name : String) (args : List Node)
  /-- A return statement. -/
  | ret (value : Node)
  /-- A loop that runs as long as its condition is true. -/
  | loop (condition body : Node)

/-- The last branch of a choice that has none of its own: always taken, and empty. -/
def Branch.absent : Branch Node :=
  ⟨.bool true, .void⟩

end FlatScript
