import Determinize.Number.Double

/-!
# The shortest numeral of a double

A double is written with the fewest decimal digits that read back as it. For each number of digits
the candidates are the two neighbours of the value on the decimal grid with that many digits; the
first grid with a candidate that reads back wins, and of two candidates the nearer one, a tie going
to the even one.

The digits are laid out by a `NumeralStyle`: positional notation in a range of exponents, and
otherwise one digit before the point and an exponent.

## Main definitions

* `Double.shortestDigits` — the digits `m` and the exponent `k` of the shortest numeral `m · 10 ^ k`.
* `NumeralStyle`, `NumeralStyle.render` — the layout of a numeral.
* `Double.textIn`, `Double.text` — the numeral of a double.
-/

namespace Determinize

/-! ### Digits -/

/-- The exponent `e` with `10 ^ e ≤ x < 10 ^ (e + 1)`, for a positive `x`. -/
def decimalExponent (x : Rat) : Int :=
  if 1 ≤ x then ((Nat.toDigits 10 x.floor.toNat).length : Int) - 1
  else
    let guess : Int := -((Nat.toDigits 10 (1 / x).floor.toNat).length : Int)
    if (10 : Rat) ^ (guess + 1) ≤ x then guess + 1 else guess

/-- Moves the zeros at the end of the digits `m` into the exponent. The first argument bounds the
number of steps. -/
def stripZeros : Nat → Nat → Int → Nat × Int
  | 0, m, k => (m, k)
  | fuel + 1, m, k => if m ≠ 0 ∧ m % 10 = 0 then stripZeros fuel (m / 10) (k + 1) else (m, k)

namespace Double

/-- Whether the numeral `m · 10 ^ k` reads back as the positive double `x`. -/
def readsBack (x : Rat) (k : Int) (m : Int) : Bool :=
  decide (nearest ((m : Rat) * (10 : Rat) ^ k) = finite x)

/-- The best numeral with `n + 1` digits that reads back as the positive double `x`, if there
is one. -/
def numeralOfLength? (x : Rat) (n : Nat) : Option (Nat × Int) :=
  let k := decimalExponent x - n
  let scaled := x / (10 : Rat) ^ k
  let low := scaled.floor
  let lowDistance := scaled - low
  let highDistance := low + 1 - scaled
  let preferLow := lowDistance < highDistance ∨ (lowDistance = highDistance ∧ low % 2 = 0)
  match readsBack x k low, readsBack x k (low + 1) with
  | true, true => some (if preferLow then low.toNat else (low + 1).toNat, k)
  | true, false => some (low.toNat, k)
  | false, true => some ((low + 1).toNat, k)
  | false, false => none

/-- The shortest numeral `m · 10 ^ k` that reads back as the positive double `x`, without zeros at
its end. Seventeen digits always suffice. -/
def shortestDigits (x : Rat) : Nat × Int :=
  let found := (List.range 17).findSome? (numeralOfLength? x)
  let (m, k) := found.getD (roundHalfEven (x / (10 : Rat) ^ (decimalExponent x - 16)) |>.toNat,
    decimalExponent x - 16)
  stripZeros 18 m k

end Double

/-! ### Layout -/

/-- How the digits of a numeral are laid out. -/
structure NumeralStyle where
  /-- The smallest decimal exponent written positionally. -/
  lowest : Int
  /-- The smallest decimal exponent above `lowest` that is not written positionally. -/
  highest : Int
  /-- What follows the digits of a whole number written positionally. -/
  wholeEnd : String
  /-- The least number of digits of an exponent. -/
  exponentWidth : Nat

/-- Exponents from `-4` to `15` are written positionally, a whole number ends in `.0`, and an
exponent has a sign and at least two digits. -/
def doubleStyle : NumeralStyle where
  lowest := -4
  highest := 16
  wholeEnd := ".0"
  exponentWidth := 2

/-- Every double is written positionally, a whole number without a point. -/
def positionalStyle : NumeralStyle where
  lowest := -400
  highest := 400
  wholeEnd := ""
  exponentWidth := 0

namespace NumeralStyle

/-- The exponent part of a numeral, with its sign. -/
def renderExponent (style : NumeralStyle) (e : Int) : String :=
  let digits := toString e.natAbs
  let padding := String.ofList (List.replicate (style.exponentWidth - digits.length) '0')
  (if e < 0 then "e-" else "e+") ++ padding ++ digits

/-- The numeral `m · 10 ^ k`, for a positive `m` without zeros at its end. -/
def render (style : NumeralStyle) (m : Nat) (k : Int) : String :=
  let digits := Nat.toDigits 10 m
  let e := k + digits.length - 1
  if style.lowest ≤ e ∧ e < style.highest then
    if 0 ≤ k then
      String.ofList (digits ++ List.replicate k.toNat '0') ++ style.wholeEnd
    else if 0 ≤ e then
      let whole := (e + 1).toNat
      String.ofList (digits.take whole) ++ "." ++ String.ofList (digits.drop whole)
    else
      "0." ++ String.ofList (List.replicate (-e - 1).toNat '0' ++ digits)
  else
    let fraction := digits.drop 1
    String.ofList (digits.take 1) ++
      (if fraction.isEmpty then "" else "." ++ String.ofList fraction) ++ style.renderExponent e

end NumeralStyle

/-- The numeral of a double in a style: the shortest digits, `inf` for infinity, and `-` before what
is negative; `nan` for what is not a number. -/
def Double.textIn (style : NumeralStyle) : Double → String
  | .finite x =>
    if x = 0 then "0" ++ style.wholeEnd
    else
      let (m, k) := shortestDigits x.abs
      (if x < 0 then "-" else "") ++ style.render m k
  | .negativeZero => "-0" ++ style.wholeEnd
  | .infinite negative => if negative then "-inf" else "inf"
  | .nan _ => "nan"

/-- The numeral of a double in the `doubleStyle`. -/
def Double.text (x : Double) : String := x.textIn doubleStyle

end Determinize
