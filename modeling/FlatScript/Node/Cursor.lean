import FlatScript.Node

/-!
# Walking over tokens

A cursor stands on a token of a list that always ends with an end token.  The tokens in front of
that last one are kept as a list and the last one by its offset alone, so the end is never lost and
a cursor that has reached it stays there.  An end token may also stand among the tokens in front; it
is walked over like any other.

A `Parser` reads from a cursor.  If it fails, the cursor stays where the failure was found.
-/

namespace FlatScript

/-- What a parser was looking for. -/
inductive Expected where
  | token (kind : Token.Kind)
  | expression
  deriving DecidableEq

/-- The words for what was looked for. -/
def Expected.message : Expected → String
  | .token kind => kind.name
  | .expression => "an expression"

/-- What can be wrong with the order of the tokens. -/
inductive SyntaxFault where
  /-- A token that may not stand here. -/
  | unexpectedToken (found : Token.Kind) (expected : Expected)
  /-- The end of the source where an expression has to start. -/
  | emptyExpression
  deriving DecidableEq

/-- The message of a fault. -/
def SyntaxFault.message : SyntaxFault → String
  | .unexpectedToken found expected =>
    "unexpected token " ++ found.name ++ ", expected " ++ expected.message
  | .emptyExpression => "empty expression"

/-- A fault and the byte offset of the token that has it. -/
structure SyntaxError where
  fault : SyntaxFault
  position : Nat
  deriving DecidableEq

/-- A place in a list of tokens. -/
structure Cursor where
  /-- The tokens from here on, without the end token that closes the list. -/
  ahead : List Token
  /-- The offset of the end token that closes the list. -/
  finish : Nat
  deriving DecidableEq

namespace Cursor

/-- The start of a list of tokens.  If the list does not end with an end token, one is placed where
its last token ends. -/
def ofTokens (tokens : List Token) : Cursor :=
  match tokens.getLast? with
  | none => ⟨[], 0⟩
  | some last =>
    if last.kind = .eof then ⟨tokens.dropLast, last.span.start⟩ else ⟨tokens, last.span.stop⟩

/-- The token under the cursor. -/
def current (cursor : Cursor) : Token :=
  cursor.ahead.head?.getD (Token.endAt cursor.finish)

/-- The kind of the token under the cursor. -/
def kind (cursor : Cursor) : Token.Kind :=
  cursor.current.kind

/-- The kind of the token behind the one under the cursor. -/
def nextKind (cursor : Cursor) : Token.Kind :=
  match cursor.ahead with
  | _ :: token :: _ => token.kind
  | _ => .eof

/-- The next place.  The end of the list is not left. -/
def advance (cursor : Cursor) : Cursor :=
  { cursor with ahead := cursor.ahead.tail }

/-- A fault of the token under the cursor. -/
def errorHere (cursor : Cursor) (fault : SyntaxFault) : SyntaxError :=
  ⟨fault, cursor.current.span.start⟩

end Cursor

/-- A reader of tokens. -/
abbrev Parser := EStateM SyntaxError Cursor

namespace Parser

/-- The kind of the token under the cursor. -/
def kind : Parser Token.Kind := do
  return (← get).kind

/-- Takes the token under the cursor. -/
def take : Parser Token := do
  let cursor ← get
  set cursor.advance
  return cursor.current

/-- Fails at the token under the cursor. -/
def unexpected {α : Type} (expected : Expected) : Parser α := do
  let cursor ← get
  throw (cursor.errorHere (.unexpectedToken cursor.kind expected))

/-- Takes the token under the cursor if it is of the given kind, and fails there otherwise. -/
def expect (kind : Token.Kind) : Parser Token := do
  if (← get).kind = kind then take else unexpected (.token kind)

/-- Takes a word and gives its text. -/
def word : Parser String := do
  let token ← expect .word
  return token.text?.getD ""

/-- The number of tokens in front of the end.  Whatever takes a token each time it is repeated or
nested is repeated and nested no more often. -/
def remaining : Parser Nat := do
  return (← get).ahead.length

/-- Further items, each behind a comma, with a bound on their number. -/
def moreItems {α : Type} (item : Parser α) : Nat → Parser (List α)
  | 0 => return []
  | bound + 1 => do
    if (← kind) = .comma then
      let _ ← take
      let first ← item
      let others ← moreItems item bound
      return first :: others
    else
      return []

/-- Items in parentheses with commas between them, with a bound on their number. -/
def inParens {α : Type} (bound : Nat) (item : Parser α) : Parser (List α) := do
  let _ ← expect .leftParen
  let items ←
    if (← kind) = .rightParen then pure []
    else do
      let first ← item
      let others ← moreItems item bound
      pure (first :: others)
  let _ ← expect .rightParen
  return items

end Parser

end FlatScript
