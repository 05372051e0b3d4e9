import Determinize.Text.Range

/-!
# Blank characters

The characters that count as blank around a numeral and at the ends of a paragraph: the controls
and separators of Unicode with a white-space or separating bidirectional class. Words are separated
by the ASCII spaces among them.

## Main definitions

* `Text.isBlank` — blank characters.
* `Text.isSpace` — the space, the tab and the line controls.
* `Text.trim` — a text without the blanks at its ends.
-/

namespace Determinize.Text

/-- The ranges of blank characters. -/
def blanks : List CodeRange := [
  (0x9, 0xd), (0x1c, 0x20), (0x85, 0x85), (0xa0, 0xa0), (0x1680, 0x1680), (0x2000, 0x200a),
  (0x2028, 0x2029), (0x202f, 0x202f), (0x205f, 0x205f), (0x3000, 0x3000)
]

/-- Whether the character is blank. -/
def isBlank (c : Char) : Bool :=
  memRanges c blanks

/-- Whether the character is the space, the tab or a line control. -/
def isSpace (c : Char) : Bool := c = ' ' || ('\t' ≤ c && c ≤ '\r')

/-- The text without the blanks at its ends. -/
def trim (cs : List Char) : List Char :=
  ((cs.dropWhile isBlank).reverse.dropWhile isBlank).reverse

end Determinize.Text
