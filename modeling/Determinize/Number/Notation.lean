import Determinize.Number.Shortest

/-!
# Notations of numbers

Besides its shortest numeral a number has numerals with a chosen number of places. In *fixed*
notation the places are those after the point; in *scientific* notation there is one digit before the
point, and an exponent follows; *general* notation has a chosen number of digits in all and is fixed
unless the exponent is small or large. What is left out is rounded, a half going to the even
neighbour.

A `Places` value says how many places there are and whether a point and the zeros at the end are kept
that carry no information.

## Main definitions

* `Places`.
* `fixedNumeral`, `scientificNumeral`, `generalNumeral`.
-/

namespace Determinize

/-- How many places a numeral has. -/
structure Places where
  count : Nat
  /-- Whether the point is written without places after it, and zeros at the end are kept in general
  notation. -/
  complete : Bool

/-- The digits of a number, with zeros before them up to `width` digits. -/
def paddedDigits (width n : Nat) : List Char :=
  let digits := Nat.toDigits 10 n
  List.replicate (width - digits.length) '0' ++ digits

/-- Digits with a point before the last `count` of them. -/
def withPoint (places : Places) (digits : List Char) : List Char :=
  let whole := digits.take (digits.length - places.count)
  let fraction := digits.drop (digits.length - places.count)
  if fraction.isEmpty && !places.complete then whole else whole ++ '.' :: fraction

/-- The numeral of a number `x`, which is not negative, in fixed notation. -/
def fixedNumeral (places : Places) (x : Rat) : List Char :=
  let n := roundHalfEven (x * 10 ^ places.count)
  withPoint places (paddedDigits (places.count + 1) n.toNat)

/-- The digits of a number `x`, which is not negative, as a whole number with one digit more than
there are places, and the exponent of the first one. -/
def roundedDigits (count : Nat) (x : Rat) : Nat × Int :=
  if x = 0 then (0, 0)
  else
    let e := decimalExponent x
    let n := (roundHalfEven (x / (10 : Rat) ^ (e - count))).toNat
    if n < Nat.pow 10 (count + 1) then (n, e) else (n / 10, e + 1)

/-- The numeral of a number `x`, which is not negative, in scientific notation. -/
def scientificNumeral (places : Places) (x : Rat) : List Char :=
  let (n, e) := roundedDigits places.count x
  withPoint places (paddedDigits (places.count + 1) n) ++ (doubleStyle.renderExponent e).toList

/-- A numeral in fixed notation without the zeros at its end that carry no information. -/
def dropIdleZeros (cs : List Char) : List Char :=
  if cs.contains '.' then
    let rest := cs.reverse.dropWhile (· = '0')
    (if rest.head? = some '.' then rest.drop 1 else rest).reverse
  else cs

/-- The numeral of a number `x`, which is not negative, in general notation: fixed for the exponents
from `-4` up to the number of digits. -/
def generalNumeral (places : Places) (x : Rat) : List Char :=
  let count := max places.count 1
  let (n, e) := roundedDigits (count - 1) x
  let trim (cs : List Char) := if places.complete then cs else dropIdleZeros cs
  if -4 ≤ e ∧ e < count then
    trim (fixedNumeral { places with count := (count - 1 - e).toNat } x)
  else
    trim (withPoint { places with count := count - 1 } (paddedDigits count n)) ++
      (doubleStyle.renderExponent e).toList

end Determinize
