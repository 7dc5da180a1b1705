import FlatScript.Text.Quoted

/-!
# Tokens

A token is a kind, a payload and the span of bytes it covers in the source.  There are twenty-six
kinds.  Each has the name that messages and listings use, and the label that trees use where a token
stands for an operator.
-/

namespace FlatScript

namespace Token

/-- The kinds of token.  The kinds of the keywords are named after the word. -/
inductive Kind where
  | integer
  | string
  | plus
  | minus
  | slash
  | star
  | leftParen
  | rightParen
  | assign
  | leftBrace
  | rightBrace
  | comma
  | word
  | varWord
  | trueWord
  | falseWord
  | equal
  | less
  | greater
  | ifWord
  | elseifWord
  | elseWord
  | whileWord
  | funcWord
  | returnWord
  | eof
  deriving DecidableEq, Inhabited

/-- All kinds, in the order of their declaration. -/
def Kind.all : List Kind :=
  [.integer, .string, .plus, .minus, .slash, .star, .leftParen, .rightParen, .assign, .leftBrace,
    .rightBrace, .comma, .word, .varWord, .trueWord, .falseWord, .equal, .less, .greater, .ifWord,
    .elseifWord, .elseWord, .whileWord, .funcWord, .returnWord, .eof]

/-- The name of a kind in listings and messages. -/
def Kind.name : Kind → String
  | .integer => "INTEGER"
  | .string => "STRING_LITERAL"
  | .plus => "PLUS"
  | .minus => "MINUS"
  | .slash => "DIV"
  | .star => "MUL"
  | .leftParen => "LPAREN"
  | .rightParen => "RPAREN"
  | .assign => "SET"
  | .leftBrace => "BLOCK_START"
  | .rightBrace => "BLOCK_END"
  | .comma => "SEP"
  | .word => "WORD"
  | .varWord => "SETVAR"
  | .trueWord => "TRUE"
  | .falseWord => "FALSE"
  | .equal => "EQUALS"
  | .less => "LTHAN"
  | .greater => "GTHAN"
  | .ifWord => "IF"
  | .elseifWord => "ELSEIF"
  | .elseWord => "ELSE"
  | .whileWord => "WHILE"
  | .funcWord => "FUNC"
  | .returnWord => "RETURN"
  | .eof => "EOF"

/-- The label of a kind where it stands for an operator in the text of a tree. -/
def Kind.label : Kind → String
  | .integer => "Integer"
  | .string => "StringLiteral"
  | .plus => "Plus"
  | .minus => "Minus"
  | .slash => "Div"
  | .star => "Mul"
  | .leftParen => "LParen"
  | .rightParen => "RParen"
  | .assign => "Set"
  | .leftBrace => "BlockStart"
  | .rightBrace => "BlockEnd"
  | .comma => "Sep"
  | .word => "Word"
  | .varWord => "SetVar"
  | .trueWord => "True"
  | .falseWord => "False"
  | .equal => "Equals"
  | .less => "LThan"
  | .greater => "GThan"
  | .ifWord => "If"
  | .elseifWord => "ElseIf"
  | .elseWord => "Else"
  | .whileWord => "While"
  | .funcWord => "Func"
  | .returnWord => "Return"
  | .eof => "Eof"

/-- The kind with a given name. -/
def Kind.ofName? (name : String) : Option Kind :=
  Kind.all.find? fun kind => kind.name == name

/-- What a token carries besides its kind. -/
inductive Payload where
  /-- The value of an integer literal. -/
  | integer (value : Int64)
  /-- The decoded text of a string literal, or the source text of any other token. -/
  | text (value : String)
  /-- Nothing, as at the end of the source. -/
  | none
  deriving DecidableEq, Inhabited

/-- A range of bytes of the source, the end not included. -/
structure Span where
  start : Nat
  stop : Nat
  deriving DecidableEq, Inhabited

end Token

/-- A token of the source. -/
structure Token where
  kind : Token.Kind
  payload : Token.Payload
  span : Token.Span
  deriving DecidableEq, Inhabited

namespace Token

/-- The token that stands for the end of the source, at the given offset. -/
def endAt (offset : Nat) : Token :=
  ⟨.eof, .none, ⟨offset, offset⟩⟩

/-- The text payload, if the token has one. -/
def text? (token : Token) : Option String :=
  match token.payload with
  | .text value => some value
  | _ => none

/-- The line that a token has in a listing, given the hidden characters: its name, and its payload
if it has one. -/
def listingBy (hidden : Char → Bool) (token : Token) : String :=
  match token.payload with
  | .integer value => token.kind.name ++ " " ++ toString value.toInt
  | .text value => token.kind.name ++ " " ++ Text.quotedBy hidden value
  | .none => token.kind.name

/-- The line that a token has in a listing. -/
def listing (token : Token) : String :=
  token.listingBy Text.isHidden

end Token

end FlatScript
