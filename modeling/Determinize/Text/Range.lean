/-!
# Ranges of characters

Character classes are given by lists of ranges of code points.

## Main definitions

* `Text.CodeRange` — the first and the last code point of a range.
* `Text.memRanges` — whether a character lies in one of the ranges.
-/

namespace Determinize.Text

/-- The first and the last code point of a range. -/
abbrev CodeRange := Nat × Nat

/-- Whether the character lies in one of the ranges. -/
def memRanges (c : Char) (ranges : List CodeRange) : Bool :=
  ranges.any fun r => r.1 ≤ c.toNat && c.toNat ≤ r.2

end Determinize.Text
