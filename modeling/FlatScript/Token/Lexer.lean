import FlatScript.Token
import FlatScript.Token.StringLiteral
import FlatScript.Text.WordChar

/-!
# Reading tokens

`Lexeme.read` says what stands at the front of a text, without regard to where the text comes from:
how far it reaches and which token or fault it is.  It always takes the longest piece, and a word
that is a keyword is that keyword.  `Lexer` walks a source with it, skips blanks, and adds the byte
offsets.  After a fault it can go on: behind the one character, or behind the whole literal.
-/

namespace FlatScript

/-- What can be wrong with a piece of the source. -/
inductive LexFault where
  /-- A character that no token starts with. -/
  | unexpectedCharacter (c : Char)
  /-- An integer literal that does not fit into 64 bits with a sign. -/
  | integerTooLarge (digits : String)
  /-- A string literal with a malformed escape sequence. -/
  | invalidEscape (sequence : String)
  deriving DecidableEq

/-- The message of a fault. -/
def LexFault.message : LexFault → String
  | .unexpectedCharacter c => "unexpected character " ++ Text.quotedChar c
  | .integerTooLarge digits => "integer literal `" ++ digits ++ "` is too large"
  | .invalidEscape sequence => "invalid escape sequence `" ++ sequence ++ "` in string literal"

/-- A fault and the byte offset of the piece that has it. -/
structure LexError where
  fault : LexFault
  position : Nat
  deriving DecidableEq

/-- What stands at the front of a nonempty text. -/
structure Lexeme where
  /-- How many characters belong to it besides the first. -/
  extra : Nat
  /-- The token it is, or what is wrong with it. -/
  reading : Except LexFault (Token.Kind × Token.Payload)

namespace Lexeme

/-- The words that have a meaning of their own. -/
def keywords : List (String × Token.Kind) :=
  [("var", .varWord), ("true", .trueWord), ("false", .falseWord), ("if", .ifWord),
    ("elseif", .elseifWord), ("else", .elseWord), ("while", .whileWord), ("func", .funcWord),
    ("return", .returnWord)]

/-- The tokens of one character that is neither a word character nor a quote. -/
def symbols : List (Char × Token.Kind) :=
  [('+', .plus), ('-', .minus), ('/', .slash), ('*', .star), ('(', .leftParen), (')', .rightParen),
    ('=', .assign), ('\x7b', .leftBrace), ('\x7d', .rightBrace), (',', .comma), ('<', .less),
    ('>', .greater)]

/-- The integer literals are those below this number, the first that 64 bits with a sign do not
hold. -/
def integerLimit : Nat :=
  0x8000000000000000

/-- A run of digits, which is an integer literal if its value is below the limit. -/
def number (c : Char) (rest : List Char) : Lexeme :=
  let more := rest.takeWhile Char.isDigit
  let digits := c :: more
  let value := Nat.ofDigitChars 10 digits 0
  ⟨more.length,
    if value < integerLimit then .ok (.integer, .integer (Int64.ofNat value))
    else .error (.integerTooLarge (String.ofList digits))⟩

/-- A run of word characters, which is a keyword or a word. -/
def word (c : Char) (rest : List Char) : Lexeme :=
  let more := rest.takeWhile Text.isWordChar
  let text := String.ofList (c :: more)
  ⟨more.length, .ok ((keywords.lookup text).getD .word, .text text)⟩

/-- A string literal, given what follows its opening quote. -/
def string (rest : List Char) : Lexeme :=
  let body := StringLiteral.scanBody rest
  ⟨body.2,
    match StringLiteral.decode body.1 with
    | .ok text => .ok (.string, .text (String.ofList text))
    | .error sequence => .error (.invalidEscape (String.ofList sequence))⟩

/-- A symbol: the double equals sign, or one of the symbols of one character. -/
def symbol (c : Char) (rest : List Char) : Lexeme :=
  if c = '=' ∧ rest.head? = some '=' then ⟨1, .ok (.equal, .text "==")⟩
  else
    match symbols.lookup c with
    | some kind => ⟨0, .ok (kind, .text (String.singleton c))⟩
    | none => ⟨0, .error (.unexpectedCharacter c)⟩

/-- What stands at the front of the text that starts with `c` and goes on with `rest`, which is not
blank. -/
def read (c : Char) (rest : List Char) : Lexeme :=
  if c.isDigit then number c rest
  else if Text.isWordStart c then word c rest
  else if c = '"' then string rest
  else symbol c rest

end Lexeme

/-- The characters that only separate tokens: the space and the newline. -/
def isBlank (c : Char) : Bool :=
  c == ' ' || c == '\n'

/-- The number of bytes of a text in UTF-8. -/
def byteLength : List Char → Nat
  | [] => 0
  | c :: cs => c.utf8Size + byteLength cs

/-- A place in a source: the text still to be read and the byte offset where it starts. -/
structure Lexer where
  rest : List Char
  offset : Nat
  deriving DecidableEq

namespace Lexer

/-- The start of a source. -/
def ofString (source : String) : Lexer :=
  ⟨source.toList, 0⟩

/-- The next place that is not blank. -/
def skipBlanks (lexer : Lexer) : Lexer :=
  ⟨lexer.rest.dropWhile isBlank, lexer.offset + byteLength (lexer.rest.takeWhile isBlank)⟩

/-- The token or error of the lexeme that starts with `c` at the given offset, and the place behind
it. -/
def readAt (offset : Nat) (c : Char) (rest : List Char) : Except LexError Token × Lexer :=
  let lexeme := Lexeme.read c rest
  let stop := offset + byteLength (c :: rest.take lexeme.extra)
  let result :=
    match lexeme.reading with
    | .ok (kind, payload) => .ok ⟨kind, payload, ⟨offset, stop⟩⟩
    | .error fault => .error ⟨fault, offset⟩
  (result, ⟨rest.drop lexeme.extra, stop⟩)

/-- The next token or error, and the place behind it.  At the end of the source this is the end
token, as often as it is asked for. -/
def next (lexer : Lexer) : Except LexError Token × Lexer :=
  match lexer.skipBlanks with
  | ⟨[], offset⟩ => (.ok (Token.endAt offset), ⟨[], offset⟩)
  | ⟨c :: rest, offset⟩ => readAt offset c rest

/-- Skipping blanks never leaves more to be read. -/
theorem skipBlanks_length_le (lexer : Lexer) :
    lexer.skipBlanks.rest.length ≤ lexer.rest.length :=
  (List.dropWhile_sublist _).length_le

/-- A step that is not at the end of the source leaves less to be read. -/
theorem next_length_lt (lexer : Lexer) {token : Token} (htoken : lexer.next.1 = .ok token)
    (hkind : token.kind ≠ .eof) : lexer.next.2.rest.length < lexer.rest.length := by
  have hskip := lexer.skipBlanks_length_le
  unfold next at htoken ⊢
  split at htoken
  · simp only [Except.ok.injEq] at htoken
    subst htoken
    exact absurd rfl hkind
  · rename_i c rest offset hstart
    simp only [hstart, List.length_cons] at hskip
    simp only [readAt, List.length_drop]
    omega

/-- All tokens from a place to the end of the source, the end token last, or the first error. -/
def tokens (lexer : Lexer) : Except LexError (List Token) :=
  match _htoken : lexer.next.1 with
  | .error error => .error error
  | .ok token =>
    if _hkind : token.kind = .eof then .ok [token]
    else do
      let more ← tokens lexer.next.2
      return token :: more
termination_by lexer.rest.length
decreasing_by exact lexer.next_length_lt (by assumption) (by assumption)

/-- The results of `count` steps, errors included. -/
def steps : Nat → Lexer → List (Except LexError Token)
  | 0, _ => []
  | count + 1, lexer =>
    let step := lexer.next
    step.1 :: steps count step.2

end Lexer

/-- The tokens of a source, the end token last, or the first error. -/
def tokenize (source : String) : Except LexError (List Token) :=
  (Lexer.ofString source).tokens

end FlatScript
