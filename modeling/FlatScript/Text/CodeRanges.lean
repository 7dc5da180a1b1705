/-!
# Sets of characters given by ranges

A class of characters is written down as a list of inclusive ranges of code points, in increasing
order.  The tables of the library are such lists, and this file says what it means for a code point
to lie in one.
-/

namespace FlatScript.Text

/-- Inclusive ranges of code points, in increasing order and apart from each other. -/
abbrev CodeRanges := List (Nat × Nat)

/-- Whether a code point lies in one of the ranges. -/
def CodeRanges.contains (ranges : CodeRanges) (code : Nat) : Bool :=
  ranges.any fun range => range.1 ≤ code && code ≤ range.2

end FlatScript.Text
