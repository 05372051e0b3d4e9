import Determinize.Json.Encode

/-!
# Positions in JSON

Data are written over several lines: every item of a list and every field of an object stands on a
line of its own, indented by four spaces for every list or object around it. Every double is written
positionally. Infinity has no numeral in JSON, so data that hold it are written to no purpose: a
reader stops where it stands.

## Main definitions

* `Json.Position`, `Json.Position.after`.
* `Json.positionAfter?`, `Json.firstInfinity?` — where the first infinity stands.
-/

namespace Determinize.Json

/-- A position in a text. -/
structure Position where
  /-- The number of characters before it. -/
  offset : Nat
  /-- The line, counted from one. -/
  line : Nat
  /-- The place on the line, counted from one. -/
  column : Nat

namespace Position

/-- The start of a text. -/
def start : Position := ⟨0, 1, 1⟩

/-- The position after a character. -/
def next (p : Position) (c : Char) : Position :=
  if c = '\n' then ⟨p.offset + 1, p.line + 1, 1⟩ else ⟨p.offset + 1, p.line, p.column + 1⟩

/-- The position after some characters. -/
def after (p : Position) (cs : List Char) : Position := cs.foldl next p

end Position

/-- How a character of a text is written if all controls are written by their numbers. -/
def escapeControls (c : Char) : List Char :=
  if 0x7f ≤ c.toNat ∧ c.toNat ≤ 0x9f then Text.backslash :: 'u' :: Text.hexadecimal 4 c.toNat
  else escape c

/-- A text between double quotes, with all controls written by their numbers. -/
def writePlainText (s : String) : List Char :=
  Text.doubleQuote :: s.toList.flatMap escapeControls ++ [Text.doubleQuote]

/-- The end of a line, and the indentation of the next one inside `depth` lists and objects. -/
def lineBreak (depth : Nat) : List Char := '\n' :: List.replicate (4 * depth) ' '

/-- What separates an item from the one before it. -/
def separator (first : Bool) (depth : Nat) : List Char :=
  if first then lineBreak depth else ',' :: lineBreak depth

mutual

/-- The position after a value inside `depth` lists and objects; the position of the first infinity
is an error. -/
def positionAfter? (depth : Nat) (p : Position) : Value → Except Position Position
  | .null => .ok (p.after "null".toList)
  | .bool b => .ok (p.after (if b then "true".toList else "false".toList))
  | .int n => .ok (p.after (toString n).toList)
  | .real (.infinite _) => .error p
  | .real x => .ok (p.after (x.textIn positionalStyle).toList)
  | .text s => .ok (p.after (writePlainText s))
  | .list [] | .tuple [] => .ok (p.after "[ ]".toList)
  | .list items | .tuple items => do
    let p ← positionAfterItems? (depth + 1) (p.after ['[']) true items
    return (p.after (lineBreak depth)).after [']']
  | .object [] => .ok (p.after ['\x7b', ' ', '\x7d'])
  | .object fields => do
    let p ← positionAfterFields? (depth + 1) (p.after ['\x7b']) true fields
    return (p.after (lineBreak depth)).after ['\x7d']

/-- The position after the items of a list. -/
def positionAfterItems? (depth : Nat) (p : Position) (first : Bool) :
    List Value → Except Position Position
  | [] => .ok p
  | x :: xs => do
    let p ← positionAfter? depth (p.after (separator first depth)) x
    positionAfterItems? depth p false xs

/-- The position after the fields of an object. -/
def positionAfterFields? (depth : Nat) (p : Position) (first : Bool) :
    List (String × Value) → Except Position Position
  | [] => .ok p
  | (k, x) :: fields => do
    let p := (p.after (separator first depth)).after (writePlainText k ++ ": ".toList)
    let p ← positionAfter? depth p x
    positionAfterFields? depth p false fields

end

/-- The position of the first infinity in data; none if there is none. -/
def firstInfinity? (x : Value) : Option Position :=
  match positionAfter? 0 .start x with
  | .ok _ => none
  | .error p => some p

end Determinize.Json
