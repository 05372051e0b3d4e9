import Determinize.Number.Numeral
import Determinize.Text.Quoted
import Determinize.Value.Basic

/-!
# Reading JSON

A numeral without fraction and exponent denotes an integer of any size, any other a double. The
fields of an object stay in the order in which they are written.

## Main definitions

* `Json.readValue?` — the value at the start of a text.
* `Json.parse?` — the value that a whole text denotes.
-/

namespace Determinize.Json

/-- Whether the character can stand between tokens. -/
def isSpace (c : Char) : Bool := c = ' ' || c = '\n' || c = '\r' || c = '\t'

/-- The text after the white space at its start. -/
def skipSpace (cs : List Char) : List Char := cs.dropWhile isSpace

/-! ### Texts -/

/-- The value of a hexadecimal digit. -/
def hexDigit? (c : Char) : Option Nat :=
  if '0' ≤ c ∧ c ≤ '9' then some (c.toNat - '0'.toNat)
  else if 'a' ≤ c ∧ c ≤ 'f' then some (c.toNat - 'a'.toNat + 10)
  else if 'A' ≤ c ∧ c ≤ 'F' then some (c.toNat - 'A'.toNat + 10)
  else none

/-- The number with four hexadecimal digits at the start of a text, and the rest. -/
def takeHex4? : List Char → Option (Nat × List Char)
  | a :: b :: c :: d :: rest => do
    return (((← hexDigit? a) * 16 + (← hexDigit? b)) * 256 + (← hexDigit? c) * 16 + (← hexDigit? d),
      rest)
  | _ => none

/-- The character with an escaped number, and the rest. A character beyond the first plane is
written by two numbers, a high and a low surrogate. -/
def takeNumbered? (cs : List Char) : Option (Char × List Char) := do
  let (high, rest) ← takeHex4? cs
  if 0xd800 ≤ high ∧ high < 0xdc00 then
    match rest with
    | '\x5c' :: 'u' :: rest =>
      let (low, rest) ← takeHex4? rest
      if 0xdc00 ≤ low ∧ low < 0xe000 then
        return (Char.ofNat (0x10000 + (high - 0xd800) * 0x400 + (low - 0xdc00)), rest)
      else none
    | _ => none
  else if 0xdc00 ≤ high ∧ high < 0xe000 then none
  else return (Char.ofNat high, rest)

/-- The character that a letter after a backslash stands for. -/
def escaped? (c : Char) : Option Char :=
  if c = Text.doubleQuote ∨ c = Text.backslash ∨ c = '/' then some c
  else if c = 'n' then some '\n'
  else if c = 'r' then some '\r'
  else if c = 't' then some '\t'
  else if c = 'b' then some '\x08'
  else if c = 'f' then some '\x0c'
  else none

/-- The characters of a text up to its closing quote, and the rest. The first argument bounds the
number of characters. -/
def readChars? : Nat → List Char → Option (List Char × List Char)
  | 0, _ => none
  | _ + 1, [] => none
  | fuel + 1, c :: cs =>
    if c = Text.doubleQuote then some ([], cs)
    else if c = Text.backslash then
      match cs with
      | 'u' :: rest => do
        let (found, rest) ← takeNumbered? rest
        let (more, rest) ← readChars? fuel rest
        return (found :: more, rest)
      | e :: rest => do
        let found ← escaped? e
        let (more, rest) ← readChars? fuel rest
        return (found :: more, rest)
      | [] => none
    else if c.toNat < 0x20 then none
    else do
      let (more, rest) ← readChars? fuel cs
      return (c :: more, rest)

/-- The text whose opening quote was read, and the rest. -/
def readText? (cs : List Char) : Option (String × List Char) := do
  let (found, rest) ← readChars? (cs.length + 1) cs
  return (String.ofList found, rest)

/-! ### Values -/

/-- The rest of a text after a word. -/
def dropWord? : (word cs : List Char) → Option (List Char)
  | [], cs => some cs
  | w :: word, c :: cs => if w = c then dropWord? word cs else none
  | _ :: _, [] => none

/-- The words that denote a value. -/
def words : List (String × Value) :=
  [("null", .null), ("true", .bool true), ("false", .bool false)]

/-- The value that a word at the start of a text denotes, and the rest. -/
def readWord? (cs : List Char) : Option (Value × List Char) :=
  words.findSome? fun (word, x) => (dropWord? word.toList cs).map fun rest => (x, rest)

/-- The number at the start of a text, and the rest. -/
def readNumber? (cs : List Char) : Option (Value × List Char) := do
  let (n, rest) ← Numeral.read? cs
  return (if n.whole then .int n.toInt else .real n.toDouble, rest)

mutual

/-- The value at the start of a text, and the rest. The first argument bounds the number of
calls. -/
def readValue? : Nat → List Char → Option (Value × List Char)
  | 0, _ => none
  | fuel + 1, cs =>
    match skipSpace cs with
    | [] => none
    | '[' :: rest =>
      match skipSpace rest with
      | ']' :: rest => some (.list [], rest)
      | rest => do
        let (items, rest) ← readItems? fuel rest
        return (.list items, rest)
    | '\x7b' :: rest =>
      match skipSpace rest with
      | '\x7d' :: rest => some (.object [], rest)
      | rest => do
        let (fields, rest) ← readFields? fuel rest
        return (.object fields, rest)
    | '\x22' :: rest => do
      let (s, rest) ← readText? rest
      return (.text s, rest)
    | cs => (readNumber? cs).or (readWord? cs)

/-- The items of a list up to its closing bracket, and the rest. -/
def readItems? : Nat → List Char → Option (List Value × List Char)
  | 0, _ => none
  | fuel + 1, cs => do
    let (x, rest) ← readValue? fuel cs
    match skipSpace rest with
    | ',' :: rest =>
      let (xs, rest) ← readItems? fuel rest
      return (x :: xs, rest)
    | ']' :: rest => return ([x], rest)
    | _ => none

/-- The fields of an object up to its closing brace, and the rest. -/
def readFields? : Nat → List Char → Option (List (String × Value) × List Char)
  | 0, _ => none
  | fuel + 1, cs =>
    match skipSpace cs with
    | '\x22' :: rest => do
      let (k, rest) ← readText? rest
      match skipSpace rest with
      | ':' :: rest =>
        let (x, rest) ← readValue? fuel rest
        match skipSpace rest with
        | ',' :: rest =>
          let (fields, rest) ← readFields? fuel rest
          return ((k, x) :: fields, rest)
        | '\x7d' :: rest => return ([(k, x)], rest)
        | _ => none
      | _ => none
    | _ => none

end

/-- The value that a text denotes. -/
def parse? (s : String) : Option Value :=
  let cs := s.toList
  match readValue? (2 * cs.length + 1) cs with
  | some (x, rest) => if (skipSpace rest).isEmpty then some x else none
  | none => none

end Determinize.Json
