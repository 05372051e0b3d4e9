/-!
# Double-precision numbers

A double is stored by its exact value, a rational number; the negative zero, the two infinities and
*not a number* are told apart by constructors of their own. A set tells two occurrences of *not a
number* apart unless they are one and the same object, so every object has a tag.

`Double.nearest` rounds a rational number to the nearest double, a half going to the even
neighbour; it decides what a decimal numeral means (`Double.ofDecimal`) and which numerals read
back as a given double.

## Main definitions

* `Double` — double-precision numbers.
* `Double.nearest` — the double nearest to a rational number.
* `Double.ofDecimal` — the double nearest to `± m · 10 ^ e`.
* `Double.lt` — the numerical order, the two zeros being equal.
-/

namespace Determinize

/-- A double-precision number. The value `0` of `finite` is the positive zero. -/
inductive Double where
  | finite (x : Rat)
  | negativeZero
  | infinite (negative : Bool)
  /-- An object that is *not a number*. -/
  | nan (tag : Nat)
  deriving DecidableEq

/-! ### Rounding -/

/-- The exponent `e` with `2 ^ e ≤ x < 2 ^ (e + 1)`, for a positive `x`. -/
def binaryExponent (x : Rat) : Int :=
  let guess : Int := (Nat.log2 x.num.natAbs : Int) - (Nat.log2 x.den : Int)
  if x < (2 : Rat) ^ guess then guess - 1 else guess

/-- The integer nearest to `x`, a half going to the even neighbour. -/
def roundHalfEven (x : Rat) : Int :=
  let low := x.floor
  let rest := x - low
  if rest < 1 / 2 then low
  else if 1 / 2 < rest then low + 1
  else if low % 2 = 0 then low
  else low + 1

/-- The distance between neighbouring doubles near a positive `x` is `2 ^ gridExponent x`: doubles
have 53 binary digits, and none is finer than `2 ^ (-1074)`. -/
def gridExponent (x : Rat) : Int :=
  max (binaryExponent x - 52) (-1074)

/-- The multiple of the grid near a positive `x` that is nearest to `x`. -/
def roundToGrid (x : Rat) : Rat :=
  (roundHalfEven (x / (2 : Rat) ^ gridExponent x) : Rat) * (2 : Rat) ^ gridExponent x

namespace Double

/-- The zero of a given sign. -/
def zero (negative : Bool) : Double :=
  if negative then negativeZero else finite 0

/-- The double of the same size and the other sign. -/
def neg : Double → Double
  | finite x => if x = 0 then negativeZero else finite (-x)
  | negativeZero => finite 0
  | infinite negative => infinite !negative
  | nan tag => nan tag

/-- The double nearest to `± x`, for `x` not negative. What rounds to `2 ^ 1024` or more is
infinite. -/
def nearestOfSign (negative : Bool) (x : Rat) : Double :=
  let rounded := if x = 0 then 0 else roundToGrid x
  if rounded = 0 then zero negative
  else if (2 : Rat) ^ (1024 : Nat) ≤ rounded then infinite negative
  else finite (if negative then -rounded else rounded)

/-- The double nearest to a rational number, a half going to the even neighbour. -/
def nearest (x : Rat) : Double :=
  nearestOfSign (decide (x < 0)) x.abs

/-- The double nearest to `± m · 10 ^ e`. An exponent far outside the range of doubles decides the
answer by itself. -/
def ofDecimal (negative : Bool) (m : Nat) (e : Int) : Double :=
  let size : Int := (Nat.toDigits 10 m).length + e
  if m = 0 ∨ size < -400 then zero negative
  else if 400 < size then infinite negative
  else nearestOfSign negative ((m : Rat) * (10 : Rat) ^ e)

/-! ### Order -/

/-- The value of a double, if it has one: an infinity and *not a number* have none. -/
def toRat? : Double → Option Rat
  | finite x => some x
  | negativeZero => some 0
  | infinite _ | nan _ => none

/-- Whether a double is a number. -/
def isNumber : Double → Bool
  | nan _ => false
  | finite _ | negativeZero | infinite _ => true

/-- The numerical order of doubles. The two zeros are equal, and what is not a number is neither less
nor greater than anything. -/
def lt : Double → Double → Bool
  | nan _, _ | _, nan _ => false
  | infinite s, infinite t => s && !t
  | infinite s, _ => s
  | _, infinite t => !t
  | x, y => decide (x.toRat?.getD 0 < y.toRat?.getD 0)

end Double

end Determinize
