import Determinize.Json.Decode

/-!
# Tokens of a document

A document is a text of words, quoted texts, numerals and punctuation, with white space and comments
between them. A comment runs from `//` or `#` to the end of the line, or from `/*` to `*/`; after a
backslash, `*/` does not end it. A quoted text stands between single or double quotes. In it a
character can be escaped by a backslash, also by its number in hexadecimal.

The minus sign is punctuation, so numerals have no sign. They can begin with zeros.

## Main definitions

* `Token`, `Token.ofChars?`.
-/

namespace Determinize

/-- A token of a document. -/
inductive Token where
  | punctuation (c : Char)
  | word (s : String)
  | text (s : String)
  | number (n : Numeral)

namespace Token

/-- The punctuation of a document. -/
def punctuations : List Char :=
  ['\x7b', '\x7d', '[', ']', '(', ')', ',', ':', ';', '=', '.', '-']

/-- Whether a word can start with the character. -/
def isWordStart (c : Char) : Bool := c.isAlpha || c = '_'

/-- Whether a word can go on with the character. -/
def isWordPart (c : Char) : Bool := c.isAlphanum || c = '_'

/-- The text after the end of a comment. -/
def afterComment? : List Char → Option (List Char)
  | '\x5c' :: '*' :: '/' :: cs => afterComment? cs
  | '\x5c' :: '\x5c' :: cs => afterComment? cs
  | '*' :: '/' :: cs => some cs
  | _ :: cs => afterComment? cs
  | [] => none

/-- The character with a number of two hexadecimal digits at the start of a text, and the rest. -/
def takeShortNumbered? : List Char → Option (Char × List Char)
  | a :: b :: rest => do
    return (Char.ofNat ((← Json.hexDigit? a) * 16 + (← Json.hexDigit? b)), rest)
  | _ => none

/-- The character that is escaped at the start of a text, and the rest. -/
def takeEscaped? : List Char → Option (Char × List Char)
  | 'u' :: cs => Json.takeNumbered? cs
  | 'x' :: cs => takeShortNumbered? cs
  | '/' :: _ => none
  | c :: cs => ((if c = Text.singleQuote then some c else Json.escaped? c)).map fun d => (d, cs)
  | [] => none

/-- The characters of a text up to its closing quote, and the rest. The first argument bounds the
number of characters. -/
def readChars? (quote : Char) : Nat → List Char → Option (List Char × List Char)
  | 0, _ => none
  | _ + 1, [] => none
  | fuel + 1, c :: cs =>
    if c = quote then some ([], cs)
    else do
      let (found, rest) ← if c = Text.backslash then takeEscaped? cs else some (c, cs)
      let (more, rest) ← readChars? quote fuel rest
      return (found :: more, rest)

/-- The token at the start of a text, and the rest; no token at white space and comments. -/
def next? (c : Char) (cs : List Char) : Option (Option Token × List Char) :=
  if Json.isSpace c then some (none, cs)
  else if c = '#' then some (none, cs.dropWhile (· ≠ '\n'))
  else if c = '/' then
    match cs with
    | '/' :: rest => some (none, rest.dropWhile (· ≠ '\n'))
    | '*' :: rest => (afterComment? rest).map fun rest => (none, rest)
    | _ => none
  else if c = Text.singleQuote ∨ c = Text.doubleQuote then do
    let (found, rest) ← readChars? c (cs.length + 1) cs
    return (some (.text (String.ofList found)), rest)
  else if isWordStart c then
    some (some (.word (String.ofList (c :: cs.takeWhile isWordPart))), cs.dropWhile isWordPart)
  else if punctuations.contains c then some (some (.punctuation c), cs)
  else do
    let (n, rest) ← Numeral.readUnsigned? (c :: cs)
    return (some (.number n), rest)

/-- The tokens of a text. The first argument bounds their number. -/
def ofCharsWithin? : Nat → List Char → Option (List Token)
  | _, [] => some []
  | 0, _ :: _ => none
  | fuel + 1, c :: cs => do
    let (token, rest) ← next? c cs
    let tokens ← ofCharsWithin? fuel rest
    return token.toList ++ tokens

/-- The tokens of a text. -/
def ofChars? (cs : List Char) : Option (List Token) := ofCharsWithin? cs.length cs

end Token

end Determinize
