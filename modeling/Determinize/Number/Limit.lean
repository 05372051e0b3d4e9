/-!
# The limit on digits

The time that it takes to write an integer in decimal digits, or to read it, grows faster than the
number of the digits, so both are refused beyond a number of digits. This number is a setting of the
runtime. It can be switched off, and it cannot be set to less than 640, so that every double can be
written out.

## Main definitions

* `digitLimit` — the most digits, unless the setting is changed.
* `DigitLimit`, `DigitLimit.standard` — the setting.
* `excessDigits?` — the digits of an integer that is refused.
-/

namespace Determinize

/-- The most digits that an integer can have unless the setting is changed. -/
def digitLimit : Nat := 4300

/-- The setting for the digits of integers. -/
class DigitLimit where
  /-- The most digits that an integer can be written with, or `0` for any number of digits. -/
  maxDigits : Nat
  allowed : maxDigits = 0 ∨ 640 ≤ maxDigits

namespace DigitLimit

/-- The setting unless it is changed. -/
instance (priority := low) standard : DigitLimit := ⟨digitLimit, .inr (by decide)⟩

end DigitLimit

/-- The number of decimal digits of an integer. -/
def digitCount (n : Int) : Nat := (Nat.toDigits 10 n.natAbs).length

/-- The number of digits of an integer that has too many of them to be written. -/
def excessDigits? [DigitLimit] (n : Int) : Option Nat :=
  if DigitLimit.maxDigits = 0 ∨ digitCount n ≤ DigitLimit.maxDigits then none
  else some (digitCount n)

end Determinize
