import Determinize.Number.Notation
import Determinize.Value.Text

/-!
# Templates

A template is a text with placeholders, which are filled from a table of fields. A placeholder begins
with a percent sign and ends with a letter that says how a value is shown. Between them stand, each
of them optional, the key of a field in parentheses, flags, a least width, and a precision after a
point. Two percent signs stand for one.

A key makes its field the next value to be shown. Before the first key that is the whole table. A
value is shown once.

## Main definitions

* `TemplateError`, `TemplateError.message`.
* `Template.Spec` — how a value is shown.
* `Template.Spec.show?` — a value in the form that a letter asks for.
* `Template.fill?` — a template with its placeholders filled.
-/

namespace Determinize

/-- Why a template cannot be filled. -/
inductive TemplateError where
  /-- The text ends inside a placeholder. -/
  | unfinished
  /-- The text ends inside a key. -/
  | unfinishedKey
  | unknownKey (key : String)
  | widthTooBig
  | precisionTooBig
  /-- A width or a precision is to be taken from a value that is no integer. -/
  | noWidth
  /-- There is no value left to be shown. -/
  | noValue
  /-- The letter needs a number. -/
  | notReal (letter : Char) (x : Value)
  /-- The letter needs an integer. -/
  | notWhole (letter : Char) (x : Value)
  /-- A notation with places needs a number. -/
  | notNumber (x : Value)
  /-- A notation with places is asked for an integer beyond all doubles. -/
  | tooLarge
  /-- The value is neither a character nor the number of one. -/
  | notCharacter
  /-- No character has the number. -/
  | noCharacter
  /-- Infinity is to be shown as an integer. -/
  | infinite
  | notANumber
  /-- No form belongs to the letter at this position. -/
  | unknownLetter (letter : Char) (position : Nat)

/-- The text of an error. -/
def TemplateError.message : TemplateError → String
  | unfinished => "incomplete format"
  | unfinishedKey => "incomplete format key"
  | unknownKey key => Text.quoted key
  | widthTooBig => "width too big"
  | precisionTooBig => "precision too big"
  | noWidth => "* wants int"
  | noValue => "not enough arguments for format string"
  | notReal letter x =>
    "%" ++ String.singleton letter ++ " format: a real number is required, not " ++ x.typeName
  | notWhole letter x =>
    "%" ++ String.singleton letter ++ " format: an integer is required, not " ++ x.typeName
  | notNumber x => "must be real number, not " ++ x.typeName
  | tooLarge => "int too large to convert to float"
  | notCharacter => "%c requires int or char"
  | noCharacter => "%c arg not in range(0x110000)"
  | infinite => "cannot convert float infinity to integer"
  | notANumber => "cannot convert float NaN to integer"
  | unknownLetter letter position =>
    let shown := if '\x1f' ≤ letter ∧ letter ≤ '~' then letter else '?'
    "unsupported format character '" ++ String.singleton shown ++ "' (0x" ++
      String.ofList (Text.hexadecimal 1 letter.toNat) ++ ") at index " ++ toString position

namespace Template

/-- How a value is shown. -/
structure Spec where
  /-- Whether a value that is too short stands on the left. -/
  left : Bool
  /-- Whether a plus sign is written. -/
  plus : Bool
  /-- Whether a space is written for a plus sign. -/
  blank : Bool
  /-- Whether the more explicit form is chosen. -/
  explicit : Bool
  /-- Whether a number that is too short is filled up with zeros. -/
  zeros : Bool
  width : Nat
  precision : Option Nat

/-! ### Forms of values -/

/-- A shown value: what stands before the zeros that fill it up, and the rest. -/
structure Shown where
  head : List Char
  body : List Char
  /-- Whether it can be filled up with zeros. -/
  numeric : Bool

namespace Spec

/-- A shown value with the spaces or zeros that fill it up to the width. -/
def pad (spec : Spec) (shown : Shown) : List Char :=
  let missing := spec.width - (shown.head.length + shown.body.length)
  if spec.left then shown.head ++ shown.body ++ List.replicate missing ' '
  else if spec.zeros && shown.numeric then
    shown.head ++ List.replicate missing '0' ++ shown.body
  else List.replicate missing ' ' ++ shown.head ++ shown.body

/-- A text, up to the precision. -/
def textForm (spec : Spec) (cs : List Char) : Shown :=
  ⟨[], match spec.precision with
    | some n => cs.take n
    | none => cs, false⟩

/-- What stands for the sign of a number. -/
def sign (spec : Spec) (negative : Bool) : List Char :=
  if negative then ['-'] else if spec.plus then ['+'] else if spec.blank then [' '] else []

/-- An integer in digits to a base, at least as many as the precision says. -/
def wholeForm (spec : Spec) (base : Nat) (mark : List Char) (n : Int) : Shown :=
  let digits := Nat.toDigits base n.natAbs
  let zeros := List.replicate (spec.precision.getD 0 - digits.length) '0'
  ⟨spec.sign (decide (n < 0)) ++ (if spec.explicit then mark else []), zeros ++ digits, true⟩

/-- A double in a notation with places, six unless a precision is given. -/
def realForm (spec : Spec) (numeral : Places → Rat → List Char) (x : Double) : Shown :=
  let negative := match x with
    | .finite r => decide (r < 0)
    | .negativeZero => true
    | .infinite negative => negative
    | .nan _ => false
  let body := match x.toRat? with
    | some r => numeral ⟨spec.precision.getD 6, spec.explicit⟩ r.abs
    | none => if x.isNumber then "inf".toList else "nan".toList
  ⟨spec.sign negative, body, true⟩

/-- A shown value in capitals. -/
def capitals (shown : Shown) : Shown :=
  { shown with head := shown.head.map Char.toUpper, body := shown.body.map Char.toUpper }

/-- The integer that a value is, or to which it is cut. -/
def wholeOf? (letter : Char) (x : Value) : Except TemplateError Int :=
  match x with
  | .bool b => .ok b.toNat
  | .int n => .ok n
  | .real d =>
    match d.toRat? with
    | some r => .ok (if r < 0 then r.ceil else r.floor)
    | none => .error (if d.isNumber then .infinite else .notANumber)
  | x => .error (.notReal letter x)

/-- The integer that a value is. -/
def exactOf? (letter : Char) : Value → Except TemplateError Int
  | .bool b => .ok b.toNat
  | .int n => .ok n
  | x => .error (.notWhole letter x)

/-- The double that a value is. -/
def realOf? : Value → Except TemplateError Double
  | .bool b => .ok (.nearest b.toNat)
  | .int n =>
    let d := Double.nearest n
    if d.toRat?.isSome then .ok d else .error .tooLarge
  | .real d => .ok d
  | x => .error (.notNumber x)

/-- The character that a value is or whose number it is. -/
def characterOf? : Value → Except TemplateError Char
  | .text s =>
    match s.toList with
    | [c] => .ok c
    | _ => .error .notCharacter
  | .bool b => .ok (Char.ofNat b.toNat)
  | .int n => if 0 ≤ n ∧ n < 0x110000 then .ok (Char.ofNat n.toNat) else .error .noCharacter
  | _ => .error .notCharacter

/-- A quoted text with every character beyond ASCII escaped. -/
def asciiOf (s : String) : List Char :=
  s.toList.flatMap fun c =>
    if c.toNat ≤ 0x7f then [c]
    else if c.toNat ≤ 0xff then Text.backslash :: 'x' :: Text.hexadecimal 2 c.toNat
    else if c.toNat ≤ 0xffff then Text.backslash :: 'u' :: Text.hexadecimal 4 c.toNat
    else Text.backslash :: 'U' :: Text.hexadecimal 8 c.toNat

/-- A value in the form that a letter asks for. The letter stands at the given position. -/
def form? (spec : Spec) (letter : Char) (position : Nat) (x : Value) :
    Except TemplateError Shown :=
  match letter with
  | 's' => .ok (spec.textForm x.display.toList)
  | 'r' => .ok (spec.textForm x.quoted.toList)
  | 'a' => .ok (spec.textForm (asciiOf x.quoted))
  | 'd' | 'i' | 'u' => (wholeOf? letter x).map (spec.wholeForm 10 [])
  | 'o' => (exactOf? letter x).map (spec.wholeForm 8 ['0', 'o'])
  | 'x' => (exactOf? letter x).map (spec.wholeForm 16 ['0', 'x'])
  | 'X' => (exactOf? letter x).map fun n => capitals (spec.wholeForm 16 ['0', 'x'] n)
  | 'e' => (realOf? x).map (spec.realForm scientificNumeral)
  | 'E' => (realOf? x).map fun d => capitals (spec.realForm scientificNumeral d)
  | 'f' => (realOf? x).map (spec.realForm fixedNumeral)
  | 'F' => (realOf? x).map fun d => capitals (spec.realForm fixedNumeral d)
  | 'g' => (realOf? x).map (spec.realForm generalNumeral)
  | 'G' => (realOf? x).map fun d => capitals (spec.realForm generalNumeral d)
  | 'c' => (characterOf? x).map fun c => ⟨[], [c], false⟩
  | letter => .error (.unknownLetter letter position)

/-- A value in the form that a letter asks for, filled up to the width. -/
def show? (spec : Spec) (letter : Char) (position : Nat) (x : Value) :
    Except TemplateError (List Char) :=
  (spec.form? letter position x).map spec.pad

end Spec

/-! ### Placeholders -/

/-- The key up to its closing parenthesis, and the rest. Parentheses inside it are balanced; `depth`
of them are open. -/
def takeKey? : (depth : Nat) → List Char → Except TemplateError (List Char × List Char)
  | _, [] => .error .unfinishedKey
  | depth, ')' :: cs =>
    match depth with
    | 0 => .ok ([], cs)
    | depth + 1 => (takeKey? depth cs).map fun (key, rest) => (')' :: key, rest)
  | depth, c :: cs =>
    (takeKey? (if c = '(' then depth + 1 else depth) cs).map fun (key, rest) => (c :: key, rest)

/-- What is known inside a placeholder: the value to be shown next, and the rest of the text. -/
structure Cursor where
  value : Option Value
  rest : List Char

/-- Reads a key if there is one; its field is the value to be shown next. -/
def readKey? (fields : List (String × Value)) (here : Cursor) : Except TemplateError Cursor := do
  match here.rest with
  | '(' :: cs =>
    let (key, rest) ← takeKey? 0 cs
    match fields.lookup (String.ofList key) with
    | some x => return ⟨some x, rest⟩
    | none => throw (.unknownKey (String.ofList key))
  | _ => return here

/-- Takes the value that is to be shown next. -/
def takeValue? (here : Cursor) : Except TemplateError (Value × Cursor) :=
  match here.value with
  | some x => .ok (x, { here with value := none })
  | none => .error .noValue

/-- Reads a width or a precision up to a limit if there is one. A star takes it from a value; as
there is no other value to be shown then, it does not matter which number that is. -/
def readSize? (limit : Nat) (tooBig : TemplateError) (here : Cursor) :
    Except TemplateError (Option Nat × Cursor) := do
  match here.rest with
  | '*' :: cs =>
    match ← takeValue? { here with rest := cs } with
    | (.bool _, next) | (.int _, next) => return (none, next)
    | _ => throw .noWidth
  | cs =>
    let digits := cs.takeWhile Char.isDigit
    if digits.isEmpty then return (none, here)
    else
      let n := digits.foldl (fun n c => 10 * n + (c.toNat - '0'.toNat)) 0
      if limit < n then throw tooBig
      else return (some n, { here with rest := cs.dropWhile Char.isDigit })

/-- The greatest width. -/
def widthLimit : Nat := Nat.pow 2 63 - 1

/-- The greatest precision. -/
def precisionLimit : Nat := Nat.pow 2 31 - 1

/-- Reads a precision after a point if there is one. -/
def readPrecision? (here : Cursor) : Except TemplateError (Option Nat × Cursor) := do
  match here.rest with
  | '.' :: cs =>
    let (n, next) ← readSize? precisionLimit .precisionTooBig { here with rest := cs }
    return (some (n.getD 0), next)
  | _ => return (none, here)

/-- Skips a letter that says how long an integer is. -/
def skipLength (here : Cursor) : Cursor :=
  match here.rest with
  | c :: cs => if c = 'h' ∨ c = 'l' ∨ c = 'L' then { here with rest := cs } else here
  | [] => here

/-- The flags. -/
def flags : List Char := ['-', '+', ' ', '#', '0']

/-- What a placeholder after its percent sign shows, and what is known after it. The text has `length`
characters in all. -/
def fillPlaceholder? (fields : List (String × Value)) (length : Nat) (here : Cursor) :
    Except TemplateError (List Char × Cursor) := do
  let here ← readKey? fields here
  let marks := here.rest.takeWhile flags.contains
  let here := { here with rest := here.rest.dropWhile flags.contains }
  let (width, here) ← readSize? widthLimit .widthTooBig here
  let (precision, here) ← readPrecision? here
  let here := skipLength here
  match here.rest with
  | [] => throw .unfinished
  | letter :: rest =>
    let (x, next) ← takeValue? { here with rest := rest }
    let spec : Spec :=
      ⟨marks.contains '-', marks.contains '+', marks.contains ' ', marks.contains '#',
        marks.contains '0', width.getD 0, precision⟩
    return (← spec.show? letter (length - rest.length - 1) x, next)

/-- The rest of a template of `length` characters with its placeholders filled. The first argument
bounds the number of steps. -/
def fillFrom? (fields : List (String × Value)) (length : Nat) :
    (fuel : Nat) → Cursor → Except TemplateError (List Char)
  | 0, _ => .ok []
  | fuel + 1, here => do
    match here.rest with
    | [] => return []
    | '%' :: '%' :: cs => return '%' :: (← fillFrom? fields length fuel { here with rest := cs })
    | '%' :: cs =>
      let (shown, next) ← fillPlaceholder? fields length { here with rest := cs }
      return shown ++ (← fillFrom? fields length fuel next)
    | c :: cs => return c :: (← fillFrom? fields length fuel { here with rest := cs })

/-- A template with its placeholders filled from a table of fields. -/
def fill? (fields : List (String × Value)) (s : String) : Except TemplateError String :=
  let cs := s.toList
  (fillFrom? fields cs.length cs.length ⟨some (.object fields), cs⟩).map String.ofList

end Template

end Determinize
