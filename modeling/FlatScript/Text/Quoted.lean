import FlatScript.Text.HiddenChar

/-!
# Quoted text

The written form of strings and characters in token listings, trees and messages: the text stands
between quotes, the quote itself and the backslash are escaped, the most common controls have short
escapes, and every other hidden character is written by its code point in hexadecimal.  The rules
are stated for any choice of hidden characters.
-/

namespace FlatScript.Text

/-- The written form of one character inside quotes of the given kind.  The hidden characters are
given as well. -/
def escapeChar (hidden : Char → Bool) (quote c : Char) : List Char :=
  if c = '\x00' then ['\\', '0']
  else if c = '\t' then ['\\', 't']
  else if c = '\r' then ['\\', 'r']
  else if c = '\n' then ['\\', 'n']
  else if c = '\\' then ['\\', '\\']
  else if c = quote then ['\\', quote]
  else if hidden c then ['\\', 'u', '\x7b'] ++ Nat.toDigits 16 c.toNat ++ ['\x7d']
  else [c]

/-- Characters between quotes of the given kind. -/
def quoteWith (hidden : Char → Bool) (quote : Char) (cs : List Char) : List Char :=
  quote :: cs.flatMap (escapeChar hidden quote) ++ [quote]

/-- A string between double quotes, given the hidden characters. -/
def quotedBy (hidden : Char → Bool) (s : String) : String :=
  String.ofList (quoteWith hidden '"' s.toList)

/-- A string between double quotes. -/
def quoted (s : String) : String :=
  quotedBy isHidden s

/-- A character between single quotes. -/
def quotedChar (c : Char) : String :=
  String.ofList (quoteWith isHidden '\x27' [c])

end FlatScript.Text
