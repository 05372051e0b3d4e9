import Determinize.Number.Double
import Determinize.Number.Limit
import Determinize.Text.Blank
import Determinize.Text.Digit

/-!
# Reading numerals

Two notations are read. In data a numeral stands at the start of a longer text and has digits and
optionally a fraction and an exponent (`Numeral.readUnsigned?`); strictly, it can have a minus sign
and has no needless zeros (`Numeral.read?`). In arguments (`readInt?`, `readDouble?`) a numeral is a whole text: blanks around it
are skipped, a sign can be plus, the digits can be those of any script, and single underscores can
stand between digits.

## Main definitions

* `Numeral`, `Numeral.readUnsigned?`, `Numeral.read?`, `Numeral.toInt`, `Numeral.toDouble`.
* `readInt?`, `readDouble?`.
-/

namespace Determinize

/-- A decimal numeral `± m · 10 ^ e`. -/
structure Numeral where
  negative : Bool
  /-- The digits of the numeral, read as a number. -/
  digits : Nat
  exponent : Int
  /-- Whether the numeral has neither fraction nor exponent. -/
  whole : Bool

/-- The value of a digit from `0` to `9`. -/
def asciiDigit? (c : Char) : Option Nat :=
  if '0' ≤ c ∧ c ≤ '9' then some (c.toNat - '0'.toNat) else none

/-- The number with the given digits. -/
def ofDigits (digits : List Nat) : Nat := digits.foldl (fun n d => 10 * n + d) 0

namespace Numeral

/-- The double nearest to the numeral. -/
def toDouble (n : Numeral) : Double := .ofDecimal n.negative n.digits n.exponent

/-- The value of a numeral without fraction and exponent. -/
def toInt (n : Numeral) : Int := if n.negative then -n.digits else n.digits

/-- The digits at the start of a text, and the rest. -/
def takeDigits : List Char → List Nat × List Char
  | [] => ([], [])
  | c :: cs =>
    match asciiDigit? c with
    | some d => let (ds, rest) := takeDigits cs; (d :: ds, rest)
    | none => ([], c :: cs)

/-- The fraction at the start of a text, if there is one. -/
def takeFraction (cs : List Char) : List Nat × List Char :=
  match cs with
  | '.' :: rest =>
    match takeDigits rest with
    | ([], _) => ([], cs)
    | found => found
  | _ => ([], cs)

/-- The sign at the start of an exponent: whether it is a minus, and the rest. -/
def takeSign : List Char → Bool × List Char
  | '-' :: cs => (true, cs)
  | '+' :: cs => (false, cs)
  | cs => (false, cs)

/-- The exponent at the start of a text, if there is one. -/
def takeExponent (cs : List Char) : Option Int × List Char :=
  match cs with
  | c :: rest =>
    if c = 'e' ∨ c = 'E' then
      let (negative, rest) := takeSign rest
      match takeDigits rest with
      | ([], _) => (none, cs)
      | (ds, rest) => (some (if negative then -ofDigits ds else ofDigits ds), rest)
    else (none, cs)
  | [] => (none, cs)

/-- The numeral without a sign at the start of a text, and the rest. -/
def readUnsigned? (cs : List Char) : Option (Numeral × List Char) :=
  match takeDigits cs with
  | ([], _) => none
  | (whole, rest) =>
    let (fraction, rest) := takeFraction rest
    let (exponent, rest) := takeExponent rest
    some (⟨false, ofDigits (whole ++ fraction), exponent.getD 0 - fraction.length,
      fraction.isEmpty && exponent.isNone⟩, rest)

/-- Whether a text starts with a zero before another digit. -/
def hasNeedlessZero : List Char → Bool
  | '0' :: c :: _ => (asciiDigit? c).isSome
  | _ => false

/-- The numeral at the start of a text, and the rest. The digits before the point have no needless
zeros. -/
def read? (cs : List Char) : Option (Numeral × List Char) :=
  let (negative, afterSign) := match cs with
    | '-' :: rest => (true, rest)
    | _ => (false, cs)
  if hasNeedlessZero afterSign then none
  else (readUnsigned? afterSign).map fun (n, rest) => ({ n with negative := negative }, rest)

end Numeral

/-! ### Arguments -/

/-- Digits of any script as digits from `0` to `9`, and blanks of other scripts as spaces. -/
def plainChar (c : Char) : Char :=
  match Text.decimalDigit? c with
  | some d => Char.ofNat ('0'.toNat + d)
  | none => if 0x7f < c.toNat && Text.isBlank c then ' ' else c

/-- The numeral in an argument, without the blanks around it. -/
def plainNumeral (s : String) : List Char :=
  let cs := (s.toList.map plainChar).dropWhile Text.isSpace
  (cs.reverse.dropWhile Text.isSpace).reverse

/-- Digits at the start of a text after a digit, single underscores between them, and the rest. -/
def takeGroupTail : List Char → List Nat × List Char
  | '_' :: c :: cs =>
    match asciiDigit? c with
    | some d => let (ds, rest) := takeGroupTail cs; (d :: ds, rest)
    | none => ([], '_' :: c :: cs)
  | c :: cs =>
    match asciiDigit? c with
    | some d => let (ds, rest) := takeGroupTail cs; (d :: ds, rest)
    | none => ([], c :: cs)
  | [] => ([], [])

/-- Digits at the start of a text, single underscores between them, and the rest. -/
def takeGroup : List Char → List Nat × List Char
  | c :: cs => if (asciiDigit? c).isSome then takeGroupTail (c :: cs) else ([], c :: cs)
  | [] => ([], [])

/-- The integer that an argument denotes. -/
def readInt? (s : String) : Option Int :=
  let (negative, cs) := Numeral.takeSign (plainNumeral s)
  match takeGroup cs with
  | ([], _) => none
  | (ds, []) =>
    if digitLimit < ds.length then none
    else some (if negative then -ofDigits ds else ofDigits ds)
  | _ => none

/-- The exponent of a double in an argument, which is all that is left of it. -/
def readExponent? : List Char → Option Int
  | [] => some 0
  | c :: cs =>
    if c = 'e' ∨ c = 'E' then
      let (negative, cs) := Numeral.takeSign cs
      match takeGroup cs with
      | ([], _) => none
      | (ds, []) => some (if negative then -ofDigits ds else ofDigits ds)
      | _ => none
    else none

/-- The names of infinity. -/
def infinityNames : List String := ["inf", "infinity"]

/-- The double that an argument denotes. -/
def readDouble? (s : String) : Option Double :=
  let (negative, cs) := Numeral.takeSign (plainNumeral s)
  let name := String.ofList (cs.map Char.toLower)
  if infinityNames.contains name then some (.infinite negative)
  else if name = "nan" then some (.nan 0)
  else
    let (whole, rest) := takeGroup cs
    let (fraction, rest) := match rest with
      | '.' :: rest => takeGroup rest
      | _ => ([], rest)
    if whole.isEmpty ∧ fraction.isEmpty then none
    else do
      let exponent ← readExponent? rest
      return .ofDecimal negative (ofDigits (whole ++ fraction)) (exponent - fraction.length)

end Determinize
