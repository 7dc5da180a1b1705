/-!
# String literals

A string literal is read in two passes.  The first finds where the body ends: at the first quote
that is not directly preceded by an unpaired backslash, or at the end of the source.  On the way a
backslash followed by a quote becomes a plain quote; every other character is kept.  The second pass
decodes the escape sequences of what the first collected.

Because the first pass pairs a backslash with a quote without regard to what stands before the
backslash, two backslashes before a quote do not end the literal.
-/

namespace FlatScript.StringLiteral

/-- Reads the body that follows an opening quote.  The result is the collected text and the number
of characters read, the closing quote included if there is one. -/
def scanBody : List Char → List Char × Nat
  | [] => ([], 0)
  | '"' :: _ => ([], 1)
  | '\\' :: '"' :: rest =>
    let body := scanBody rest
    ('"' :: body.1, body.2 + 2)
  | c :: rest =>
    let body := scanBody rest
    (c :: body.1, body.2 + 1)

/-- The value of a digit in a base up to sixteen: `none` for a character that is no digit there. -/
def digit? (base : Nat) (c : Char) : Option Nat :=
  let value :=
    if '0' ≤ c ∧ c ≤ '9' then c.toNat - '0'.toNat
    else if 'a' ≤ c ∧ c ≤ 'f' then c.toNat - 'a'.toNat + 10
    else if 'A' ≤ c ∧ c ≤ 'F' then c.toNat - 'A'.toNat + 10
    else base
  if value < base then some value else none

/-- Whether a character is a digit in the given base. -/
def isDigitIn (base : Nat) (c : Char) : Bool :=
  (digit? base c).isSome

/-- The digits at the front of a text, at most `most` of them. -/
def digitsAhead (base most : Nat) (text : List Char) : List Char :=
  (text.take most).takeWhile (isDigitIn base)

/-- The number that digits denote in the given base, the leading digit first.  It is added up in 32
bits. -/
def numeral (base : Nat) (digits : List Char) : UInt32 :=
  digits.foldl (fun value c => value * base.toUInt32 + ((digit? base c).getD 0).toUInt32) 0

/-- The character with the given code: `none` for surrogates and for numbers that are too large. -/
def character? (code : UInt32) : Option Char :=
  if h : code.isValidChar then some ⟨code, h⟩ else none

/-- What an escape sequence comes to. -/
structure Escape where
  /-- The characters that the sequence denotes. -/
  text : List Char
  /-- How many characters beyond the one after the backslash belong to the sequence. -/
  extra : Nat
  deriving DecidableEq

/-- An escape of exactly `width` hexadecimal digits.  With too few digits, or with a number that is
no character, the sequence as far as it was read is the error. -/
def Escape.hex (letter : Char) (width : Nat) (rest : List Char) : Except (List Char) Escape :=
  let digits := digitsAhead 16 width rest
  let found := if digits.length = width then character? (numeral 16 digits) else none
  match found with
  | some c => .ok ⟨[c], width⟩
  | none => .error ('\\' :: letter :: digits)

/-- An escape of one to three octal digits, the first of which is given. -/
def Escape.octal (first : Char) (rest : List Char) : Escape :=
  let more := digitsAhead 8 2 rest
  ⟨[(character? (numeral 8 (first :: more))).getD '\ufffd'], more.length⟩

/-- The escape sequence of a backslash followed by `c` and `rest`.  A backslash before a newline
joins the lines, and a sequence without a meaning stands for itself. -/
def Escape.read (c : Char) (rest : List Char) : Except (List Char) Escape :=
  match c with
  | '\\' => .ok ⟨['\\'], 0⟩
  | '\x27' => .ok ⟨['\x27'], 0⟩
  | '"' => .ok ⟨['"'], 0⟩
  | 'a' => .ok ⟨['\x07'], 0⟩
  | 'b' => .ok ⟨['\x08'], 0⟩
  | 'f' => .ok ⟨['\x0c'], 0⟩
  | 'n' => .ok ⟨['\n'], 0⟩
  | 'r' => .ok ⟨['\r'], 0⟩
  | 't' => .ok ⟨['\t'], 0⟩
  | 'v' => .ok ⟨['\x0b'], 0⟩
  | '\n' => .ok ⟨[], 0⟩
  | 'x' => Escape.hex 'x' 2 rest
  | 'u' => Escape.hex 'u' 4 rest
  | 'U' => Escape.hex 'U' 8 rest
  | _ => .ok (if isDigitIn 8 c then Escape.octal c rest else ⟨['\\', c], 0⟩)

/-- Decodes the escape sequences of a collected body, or gives the first sequence that is
malformed. -/
def decode : List Char → Except (List Char) (List Char)
  | [] => .ok []
  | ['\\'] => .error ['\\']
  | '\\' :: c :: rest => do
    let escape ← Escape.read c rest
    let text ← decode (rest.drop escape.extra)
    return escape.text ++ text
  | c :: rest => do
    let text ← decode rest
    return c :: text
termination_by body => body.length
decreasing_by all_goals simp +arith

end FlatScript.StringLiteral
