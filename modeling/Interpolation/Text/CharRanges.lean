import Interpolation.Text.Basic

/-!
# Ranges of characters

A character class that a standard gives as a table is a list of ranges of code points, both ends included.
-/

namespace Interpolation

/-- Ranges of code points, both ends included. -/
abbrev CharRanges := List (Nat × Nat)

/-- Whether the code point of a character lies in one of the ranges. -/
def CharRanges.contains (ranges : CharRanges) (c : Char) : Bool :=
  ranges.any fun (first, last) => first ≤ c.toNat && c.toNat ≤ last

end Interpolation
