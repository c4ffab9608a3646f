/-! # Sets of characters given by code ranges -/

namespace FormalLanguages.Text

/-- A set of characters as ranges of code points, ends included. -/
abbrev CodeRanges := List (Nat × Nat)

/-- Whether a character lies in one of the ranges. -/
def CodeRanges.contains (ranges : CodeRanges) (c : Char) : Bool :=
  ranges.any fun r => r.1 ≤ c.toNat && c.toNat ≤ r.2

end FormalLanguages.Text
