import Determinize.Text.Blank
import Determinize.Text.Word

/-!
# Paragraphs

A paragraph is filled into lines of a given width. Every run of spaces counts as one. A line can end
at a space, which is dropped, after the hyphen of a hyphenated word, and on both sides of a dash of
several hyphens between words; a piece that is wider than a line is cut, after a hyphen if that is
possible.

## Main definitions

* `Text.collapse` — a text with single spaces.
* `Text.pieces` — the pieces between which a line can end.
* `Text.fill` — the lines of a paragraph.
-/

namespace Determinize.Text

/-- The text with one space for every run of spaces. -/
def collapse : List Char → List Char
  | [] => []
  | [c] => [if isSpace c then ' ' else c]
  | c :: d :: cs =>
    if isSpace c then
      if isSpace d then collapse (d :: cs) else ' ' :: collapse (d :: cs)
    else c :: collapse (d :: cs)

/-! ### Pieces -/

/-- Whether a dash can follow the character. -/
def endsWord (c : Char) : Bool :=
  isWord c || ['!', doubleQuoteChar, singleQuoteChar, '&', '.', ',', '?'].contains c
where
  doubleQuoteChar := '\x22'
  singleQuoteChar := '\x27'

/-- Whether a word that ends in these characters, the last one first, can be broken after a
hyphen. -/
def hyphenFollows : List Char → Bool
  | a :: b :: rest =>
    isLetter a && (isLetter b || (b = '-' && (rest.head?.any isLetter)))
  | _ => false

/-- Whether a word that goes on with these characters can be broken before them. -/
def hyphenPrecedes : List Char → Bool
  | a :: '-' :: b :: _ => isLetter a && isLetter b
  | a :: b :: _ => isLetter a && isLetter b
  | _ => false

/-- Whether a dash of several hyphens that stands between words begins with this hyphen. The
characters before it are given with the last one first. -/
def dashBegins (before after : List Char) : Bool :=
  before.head?.any endsWord && after.head? == some '-' &&
    (after.dropWhile (· = '-')).head?.any isWord

/-- A piece, unless it is empty, before others. The characters of the piece are given with the last
one first. -/
def endPiece (piece : List Char) (pieces : List (List Char)) : List (List Char) :=
  if piece.isEmpty then pieces else piece.reverse :: pieces

/-- The pieces of a text after the characters `before`, of which the first are those of an
unfinished piece. Both are given with the last character first. -/
def piecesFrom (before piece : List Char) : List Char → List (List Char)
  | [] => endPiece piece []
  | c :: cs =>
    if isSpace c then endPiece piece ([c] :: piecesFrom (c :: before) [] cs)
    else if c = '-' ∧ ¬piece.isEmpty ∧ hyphenFollows before ∧ hyphenPrecedes cs then
      endPiece (c :: piece) (piecesFrom (c :: before) [] cs)
    else if c = '-' ∧ dashBegins before cs then
      let dash := c :: cs.takeWhile (· = '-')
      endPiece piece (dash :: piecesFrom (dash.reverse ++ before) [] (cs.dropWhile (· = '-')))
    else piecesFrom (c :: before) (c :: piece) cs
termination_by cs => cs.length
decreasing_by
  all_goals simp_wf
  have := (List.dropWhile_suffix (l := cs) (· = '-')).length_le
  omega

/-- The pieces of a text between which a line can end. A space is a piece of its own. -/
def pieces (cs : List Char) : List (List Char) := piecesFrom [] [] cs

/-! ### Lines -/

/-- The pieces that fit into the room at the end of a line, and the others. -/
def takeFitting (room : Nat) : List (List Char) → List (List Char) × List (List Char)
  | [] => ([], [])
  | piece :: rest =>
    if piece.length ≤ room then
      let (line, rest) := takeFitting (room - piece.length) rest
      (piece :: line, rest)
    else ([], piece :: rest)

/-- The number of characters up to the last hyphen, which is none of the first hyphens. -/
def hyphenCut? (cs : List Char) : Option Nat :=
  let upToHyphen := (cs.reverse.dropWhile (· ≠ '-')).reverse
  if upToHyphen.dropLast.all (· = '-') then none else some upToHyphen.length

/-- Cuts the next piece if it is wider than a line, and moves its beginning to the line. -/
def cutWide (width : Nat) (line : List (List Char)) :
    List (List Char) → List (List Char) × List (List Char)
  | [] => (line, [])
  | piece :: rest =>
    if width < piece.length then
      let room := width - line.flatten.length
      let cut := (hyphenCut? (piece.take room)).getD room
      (line ++ [piece.take cut], piece.drop cut :: rest)
    else (line, piece :: rest)

/-- The pieces of a line without the last one if it is blank. -/
def dropLastBlank (line : List (List Char)) : List (List Char) :=
  if line.getLast?.any (·.all isBlank) then line.dropLast else line

/-- The lines of pieces. The first argument bounds the number of steps. -/
def linesOf (width : Nat) : (fuel : Nat) → (first : Bool) → List (List Char) → List (List Char)
  | 0, _, _ | _, _, [] => []
  | fuel + 1, first, piece :: rest =>
    let pieces := if !first && piece.all isBlank then rest else piece :: rest
    let (line, rest) := takeFitting width pieces
    let (line, rest) := cutWide width line rest
    let line := (dropLastBlank line).flatten
    if line.isEmpty then linesOf width fuel first rest
    else line :: linesOf width fuel false rest

/-- The lines of a paragraph. -/
def fill (width : Nat) (s : String) : List String :=
  let cs := trim (collapse s.toList)
  (linesOf width (cs.length + 1) true (pieces cs)).map String.ofList

end Determinize.Text
