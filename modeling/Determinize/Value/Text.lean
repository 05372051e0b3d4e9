import Determinize.Number.Limit
import Determinize.Number.Shortest
import Determinize.Text.Quoted
import Determinize.Value.Basic

/-!
# Values as text

A value has two texts. `Value.display` shows a text as it is; `Value.quoted` shows it between
quotes. Inside a tuple, a list or an object every value is quoted. A tuple stands in parentheses,
with a comma after a single item; a list stands in brackets and an object in braces.

`Value.quoted` and `Value.display` write integers of any size. A value can only be written if no integer
in it has too many digits (`Value.writable`); `Value.quoted?` and `Value.display?` fail if one has.

## Main definitions

* `Value.quoted`, `Value.display` — texts, whatever the number of digits.
* `Value.excess?`, `Value.writable` — whether there are too many digits.
* `Value.quoted?`, `Value.display?` — texts, if there are not too many digits.
* `Value.classText`, `Value.typeText` — types of values and classes in messages.
-/

namespace Determinize.Value

/-- The opening brace. -/
def openBrace : String := "\x7b"

/-- The closing brace. -/
def closeBrace : String := "\x7d"

mutual

/-- The text of a value, with texts between quotes. -/
def quoted : Value → String
  | null => "None"
  | bool b => if b then "True" else "False"
  | int n => toString n
  | real x => x.text
  | text s => Text.quoted s
  | tuple items =>
    match items with
    | [x] => "(" ++ quoted x ++ ",)"
    | items => "(" ++ ", ".intercalate (quotedItems items) ++ ")"
  | list items => "[" ++ ", ".intercalate (quotedItems items) ++ "]"
  | object fields => openBrace ++ ", ".intercalate (quotedFields fields) ++ closeBrace

/-- The texts of the items of a tuple or a list. -/
def quotedItems : List Value → List String
  | [] => []
  | x :: xs => quoted x :: quotedItems xs

/-- The texts of the fields of an object. -/
def quotedFields : List (String × Value) → List String
  | [] => []
  | (k, x) :: fields => (Text.quoted k ++ ": " ++ quoted x) :: quotedFields fields

end

/-- The text of a value, a text being shown as it is. -/
def display : Value → String
  | text s => s
  | x => x.quoted

/-! ### Too many digits -/

mutual

/-- The number of digits of the first integer that has too many of them. A double counts as the
integer that equals it; doubles do not have so many digits. -/
def excess? [DigitLimit] : Value → Option Nat
  | int n => excessDigits? n
  | real x =>
    match x.toRat? with
    | some r => if r.den = 1 then excessDigits? r.num else none
    | none => none
  | tuple items => itemExcess? items
  | list items => itemExcess? items
  | object fields => fieldExcess? fields
  | null | bool _ | text _ => none

/-- The number of digits of the first integer in a list that has too many of them. -/
def itemExcess? [DigitLimit] : List Value → Option Nat
  | [] => none
  | x :: xs => (excess? x).or (itemExcess? xs)

/-- The number of digits of the first integer in fields that has too many of them. -/
def fieldExcess? [DigitLimit] : List (String × Value) → Option Nat
  | [] => none
  | (_, x) :: fields => (excess? x).or (fieldExcess? fields)

end

/-- Whether no integer in a value has too many digits to be written. -/
def writable [DigitLimit] (x : Value) : Bool := x.excess?.isNone

/-- The text of a value with texts between quotes, if it can be written. -/
def quoted? [DigitLimit] (x : Value) : Option String := if x.writable then some x.quoted else none

/-- The text of a value, a text being shown as it is, if it can be written. -/
def display? [DigitLimit] (x : Value) : Option String := if x.writable then some x.display else none

/-! ### Types -/

/-- How a class with the given name is written in a message. -/
def classText (name : String) : String := "<class '" ++ name ++ "'>"

/-- How the type of a value is written in a message. -/
def typeText (x : Value) : String := classText x.typeName

end Determinize.Value
