import FlatScript.Node.Expression

/-!
# Reading statements and programs

Statements follow each other without separators.  Which statement it is shows at its first token,
and a token that starts none ends the list.  A return statement may stand only directly in the block
of a function: the blocks of choices and loops do not admit it.

Statements are read within a bound on their number and on how deep they nest, which is also the
bound for the expressions in them.  Each of these takes a token, so the number of tokens ahead is
bound enough.
-/

namespace FlatScript

namespace Parser

/-- An assignment. -/
def assignment (bound : Nat) : Parser Node := do
  let _ ← expect .varWord
  let name ← word
  let _ ← expect .assign
  return .assign name (← comparison bound)

/-- A return statement. -/
def returnStatement (bound : Nat) : Parser Node := do
  let _ ← expect .returnWord
  return .ret (← comparison bound)

/-- A block, given a reader of the statements inside it. -/
def blockOf (statements : Parser (List Node)) : Parser Node := do
  let _ ← expect .leftBrace
  let body ← statements
  let _ ← expect .rightBrace
  return .block body

/-- The branches of a choice behind the first, within a bound on their number.  Their predicates are
sums, not comparisons. -/
def otherBranches (block : Parser Node) : Nat → Parser (List (Branch Node))
  | 0 => return []
  | bound + 1 => do
    if (← kind) = .elseifWord then
      let _ ← take
      let predicate ← sum bound
      let body ← block
      let others ← otherBranches block bound
      return ⟨predicate, body⟩ :: others
    else
      return []

/-- The last branch of a choice, which may be absent. -/
def lastBranch (block : Parser Node) : Parser (Branch Node) := do
  if (← kind) = .elseWord then
    let _ ← take
    return ⟨.bool true, ← block⟩
  else
    return Branch.absent

/-- A choice, given a reader of its blocks. -/
def choice (bound : Nat) (block : Parser Node) : Parser Node := do
  let _ ← expect .ifWord
  let predicate ← comparison bound
  let body ← block
  let others ← otherBranches block bound
  let last ← lastBranch block
  return .choice ⟨predicate, body⟩ others last

/-- A function declaration, given a reader of its block. -/
def declaration (bound : Nat) (block : Parser Node) : Parser Node := do
  let _ ← expect .funcWord
  let name ← word
  let params ← inParens bound word
  return .declare ⟨name, params, ← block⟩

/-- A loop, given a reader of its block. -/
def loop (bound : Nat) (block : Parser Node) : Parser Node := do
  let _ ← expect .whileWord
  let condition ← comparison bound
  return .loop condition (← block)

/-- A statement, if one starts here.  `inner` reads the inside of its blocks, and takes whether a
return statement may stand there. -/
def statementOf? (bound : Nat) (inner : Bool → Parser (List Node)) (allowReturn : Bool) :
    Parser (Option Node) := do
  match ← kind with
  | .varWord => some <$> assignment bound
  | .ifWord => some <$> choice bound (blockOf (inner false))
  | .funcWord => some <$> declaration bound (blockOf (inner true))
  | .word => some <$> call bound
  | .whileWord => some <$> loop bound (blockOf (inner false))
  | .returnWord => if allowReturn then some <$> returnStatement bound else return none
  | _ => return none

/-- Statements for as long as one starts, within a bound. -/
def statements : Nat → Bool → Parser (List Node)
  | 0, _ => return []
  | bound + 1, allowReturn => do
    match ← statementOf? bound (statements bound) allowReturn with
    | some first =>
      let others ← statements bound allowReturn
      return first :: others
    | none => return []

/-- A whole program within a bound: statements up to an end token. -/
def program (bound : Nat) : Parser Node := do
  let body ← statements bound false
  let _ ← expect .eof
  return .program body

/-- Reads a whole program. -/
def readProgram : Parser Node := do
  program (← remaining)

end Parser

/-- The program that a list of tokens makes up. -/
def Node.ofTokens (tokens : List Token) : Except SyntaxError Node :=
  match Parser.readProgram (Cursor.ofTokens tokens) with
  | .ok node _ => .ok node
  | .error error _ => .error error

end FlatScript
