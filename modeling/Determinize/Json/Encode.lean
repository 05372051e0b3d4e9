import Determinize.Text.Quoted
import Determinize.Value.Text

/-!
# Writing JSON

Data are written on one line, with a space after every comma and colon. Tuples are written as lists.
In texts only the double quote, the backslash and the controls below the space are escaped; all
other characters stand for themselves.

## Main definitions

* `Json.escape` — how a character of a text is written.
* `Json.write`, `Json.render`, `Json.render?` — the line of a value.
-/

namespace Determinize.Json

/-- How a character of a text is written. -/
def escape (c : Char) : List Char :=
  if c = Text.doubleQuote ∨ c = Text.backslash then [Text.backslash, c]
  else if c = '\n' then [Text.backslash, 'n']
  else if c = '\r' then [Text.backslash, 'r']
  else if c = '\t' then [Text.backslash, 't']
  else if c = '\x0c' then [Text.backslash, 'f']
  else if c = '\x08' then [Text.backslash, 'b']
  else if c.toNat < 0x20 then Text.backslash :: 'u' :: Text.hexadecimal 4 c.toNat
  else [c]

/-- A text between double quotes. -/
def writeText (s : String) : List Char :=
  Text.doubleQuote :: s.toList.flatMap escape ++ [Text.doubleQuote]

/-- A double; the infinities and what is not a number are written by their names. -/
def writeDouble : Double → List Char
  | .infinite negative => if negative then "-Infinity".toList else "Infinity".toList
  | .nan _ => "NaN".toList
  | x => x.text.toList

mutual

/-- The characters of a value. -/
def write : Value → List Char
  | .null => "null".toList
  | .bool b => if b then "true".toList else "false".toList
  | .int n => (toString n).toList
  | .real x => writeDouble x
  | .text s => writeText s
  | .tuple items | .list items => '[' :: writeItems items ++ [']']
  | .object fields => '\x7b' :: writeFields fields ++ ['\x7d']

/-- The characters of the items of a list. -/
def writeItems : List Value → List Char
  | [] => []
  | [x] => write x
  | x :: y :: xs => write x ++ ',' :: ' ' :: writeItems (y :: xs)

/-- The characters of the fields of an object. -/
def writeFields : List (String × Value) → List Char
  | [] => []
  | [(k, x)] => writeText k ++ ':' :: ' ' :: write x
  | (k, x) :: f :: fields =>
    writeText k ++ ':' :: ' ' :: (write x ++ ',' :: ' ' :: writeFields (f :: fields))

end

/-- The line of a value, whatever the number of digits. -/
def render (x : Value) : String := String.ofList (write x)

/-- The line of a value, if it can be written. -/
def render? [DigitLimit] (x : Value) : Option String := if x.writable then some (render x) else none

end Determinize.Json
