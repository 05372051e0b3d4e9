import Determinize.CommandLine.Argument
import Determinize.Text.Blank
import Determinize.Value.Template

/-!
# The usage of a command

The usage of a command is a line that shows every argument, options before operands, in brackets if
it can be left out. Brackets and parentheses are tidied in the whole line, also those that belong to
values to choose from: no space follows an opening one or precedes a closing one, empty pairs are
dropped, and so are parentheses around what has no bar in it.

A usage that does not fit on a line is broken between its parts, operands beginning on a line of
their own. A part is what stands in brackets or parentheses, or a word. That is impossible if the
parts are not separated by single spaces.

## Main definitions

* `tidyBrackets` — a line with tidied brackets.
* `partsOf` — the parts of a line.
* `Signature.usage?` — the usage of a command.
* `LayoutError`.
-/

namespace Determinize.CommandLine

/-- The width of the lines of the help. -/
def lineWidth : Nat := 78

/-- A number of spaces. -/
def spaces (n : Nat) : String := String.ofList (List.replicate n ' ')

/-- Why the help or the usage of a command cannot be laid out. -/
inductive LayoutError where
  /-- The parts of the usage are not separated by single spaces. -/
  | unbreakable
  /-- Nothing but blanks is left of a description. -/
  | blankDescription
  /-- The template of a description cannot be filled. -/
  | template (e : TemplateError)

/-- The text of an error. -/
def LayoutError.message : LayoutError → String
  | unbreakable => ""
  | blankDescription => "list index out of range"
  | template e => e.message

/-! ### Arguments in the usage -/

namespace Argument

/-- Whether the argument stands in brackets in the usage. -/
def inBrackets (a : Argument) : Bool :=
  if a.isOption then !a.required else a.arity = .optional

/-- The argument in the usage, without brackets. -/
def plainUsage (a : Argument) : String :=
  match a.spellings, a.arity with
  | spelling :: _, .flag => spelling
  | spelling :: _, _ => spelling ++ " " ++ a.placeholder
  | [], .rest => "..."
  | [], .command => a.placeholder ++ " ..."
  | [], _ => a.placeholder

/-- The argument in the usage. -/
def usage (a : Argument) : String :=
  if a.inBrackets then "[" ++ a.plainUsage ++ "]" else a.plainUsage

end Argument

/-! ### Tidy brackets -/

/-- Whether a character opens brackets or parentheses. -/
def isOpening (c : Char) : Bool := c = '[' || c = '('

/-- Whether a character closes brackets or parentheses. -/
def isClosing (c : Char) : Bool := c = ']' || c = ')'

/-- A line without the space after every opening bracket. -/
def dropSpaceAfterOpening : List Char → List Char
  | c :: ' ' :: cs =>
    if isOpening c then c :: dropSpaceAfterOpening cs else c :: dropSpaceAfterOpening (' ' :: cs)
  | c :: cs => c :: dropSpaceAfterOpening cs
  | [] => []

/-- A line without the space before every closing bracket. -/
def dropSpaceBeforeClosing : List Char → List Char
  | ' ' :: c :: cs =>
    if isClosing c then c :: dropSpaceBeforeClosing cs else ' ' :: dropSpaceBeforeClosing (c :: cs)
  | c :: cs => c :: dropSpaceBeforeClosing cs
  | [] => []

/-- What follows a closing bracket after spaces; none if there is no such bracket. -/
def afterClosing? : List Char → Option (List Char)
  | ' ' :: cs => afterClosing? cs
  | c :: cs => if isClosing c then some cs else none
  | [] => none

theorem length_afterClosing? {cs rest : List Char} (h : afterClosing? cs = some rest) :
    rest.length < cs.length := by
  fun_induction afterClosing? cs with
  | case1 cs ih => exact Nat.lt_succ_of_lt (ih h)
  | case2 c cs _ hc => simp_all
  | case3 => simp at h
  | case4 => simp at h

/-- A line without its empty pairs of brackets. -/
def dropEmptyBrackets : List Char → List Char
  | [] => []
  | c :: cs =>
    if isOpening c then
      match _found : afterClosing? cs with
      | some rest => dropEmptyBrackets rest
      | none => c :: dropEmptyBrackets cs
    else c :: dropEmptyBrackets cs
termination_by cs => cs.length
decreasing_by
  all_goals simp only [List.length_cons]
  · exact Nat.lt_succ_of_lt (length_afterClosing? _found)
  all_goals omega

/-- A text up to the last closing parenthesis before any bar, and the text after it; none if there is
no such parenthesis. -/
def splitAtLastClosing? : List Char → Option (List Char × List Char)
  | [] => none
  | c :: cs =>
    if c = '|' then none
    else match splitAtLastClosing? cs with
      | some (inside, rest) => some (c :: inside, rest)
      | none => if c = ')' then some ([], cs) else none

theorem length_splitAtLastClosing? {cs inside rest : List Char}
    (h : splitAtLastClosing? cs = some (inside, rest)) : rest.length < cs.length := by
  induction cs generalizing inside with
  | nil => simp [splitAtLastClosing?] at h
  | cons c cs ih =>
    unfold splitAtLastClosing? at h
    split at h
    · simp at h
    · split at h
      · next found =>
        simp only [Option.some.injEq, Prod.mk.injEq] at h
        obtain ⟨-, rfl⟩ := h
        exact Nat.lt_succ_of_lt (ih found)
      · split at h
        · simp_all
        · simp at h

/-- A line without parentheses around what has no bar in it. Every pair reaches as far as it can. -/
def dropParentheses : List Char → List Char
  | [] => []
  | c :: cs =>
    if c = '(' then
      match _found : splitAtLastClosing? cs with
      | some (inside, rest) => inside ++ dropParentheses rest
      | none => c :: dropParentheses cs
    else c :: dropParentheses cs
termination_by cs => cs.length
decreasing_by
  all_goals simp only [List.length_cons]
  · exact Nat.lt_succ_of_lt (length_splitAtLastClosing? _found)
  all_goals omega

/-- A line with tidied brackets. -/
def tidyBrackets (cs : List Char) : List Char :=
  Text.trim (dropParentheses (dropEmptyBrackets (dropSpaceBeforeClosing (dropSpaceAfterOpening cs))))

/-- The line of some arguments. -/
def usageLine (arguments : List Argument) : String :=
  String.ofList (tidyBrackets (" ".intercalate (arguments.map Argument.usage)).toList)

/-! ### Parts -/

/-- The number of characters up to a closing bracket at the end of a word; none if there is no such
bracket on the line. -/
def lengthToClosing? (closing : Char) : List Char → Option Nat
  | [] => none
  | c :: cs =>
    if c = '\n' then none
    else if c = closing ∧ cs.head?.all Text.isBlank then some 1
    else (lengthToClosing? closing cs).map (· + 1)

/-- The number of characters after the first one of a part. -/
def partLength (c : Char) (cs : List Char) : Nat :=
  let bracketed? :=
    if c = '(' then lengthToClosing? ')' cs
    else if c = '[' then lengthToClosing? ']' cs
    else none
  bracketed?.getD (cs.takeWhile fun d => !Text.isBlank d).length

/-- The parts of a line: what stands in brackets up to the end of a word, and words. -/
def partsOf : List Char → List String
  | [] => []
  | c :: cs =>
    if Text.isBlank c then partsOf cs
    else
      let n := partLength c cs
      String.ofList (c :: cs.take n) :: partsOf (cs.drop n)
termination_by cs => cs.length
decreasing_by
  all_goals simp only [List.length_cons, List.length_drop]
  all_goals omega

/-- The parts of a line that are separated by single spaces. -/
def separatedParts? (line : String) : Except LayoutError (List String) :=
  let parts := partsOf line.toList
  if " ".intercalate parts = line then .ok parts else .error .unbreakable

/-! ### Usage -/

/-- The lines of the usage: parts joined by spaces, as many on a line as fit. The line begins at
column `indent` and has the given parts up to column `used`. -/
def packLines (indent used : Nat) (line : List String) : List String → List String
  | [] => if line.isEmpty then [] else [" ".intercalate line]
  | part :: parts =>
    if lineWidth < used + part.length ∧ ¬line.isEmpty then
      " ".intercalate line :: packLines indent (indent + part.length + 1) [part] parts
    else packLines indent (used + part.length + 1) (line ++ [part]) parts

/-- What stands before the usage. -/
def usageLead : String := "usage: "

/-- The lines after the first one, with an indentation. -/
def hang (indent : Nat) (lines : List String) : List String :=
  lines.take 1 ++ (lines.drop 1).map (spaces indent ++ ·)

/-- The lines of a usage with the given parts after the name of a program. -/
def brokenUsage (program : String) (options operands : List String) : List String :=
  let start := usageLead.length
  if 4 * (start + program.length) ≤ 3 * lineWidth then
    let indent := start + program.length + 1
    if options.isEmpty then hang indent (packLines indent start [] (program :: operands))
    else
      hang indent (packLines indent start [] (program :: options) ++
        packLines indent indent [] operands)
  else
    let joined := packLines start start [] (options ++ operands)
    let lines :=
      if joined.length ≤ 1 then joined
      else packLines start start [] options ++ packLines start start [] operands
    hang start (program :: lines)

/-- A text with at most two line feeds in a row. -/
def limitBreaks : List Char → List Char
  | '\n' :: '\n' :: '\n' :: cs => limitBreaks ('\n' :: '\n' :: cs)
  | c :: cs => c :: limitBreaks cs
  | [] => []

/-- A text with at most one empty line in a row, and none at its ends. -/
def tidyBreaks (s : String) : String :=
  let cs := (limitBreaks s.toList).dropWhile (· = '\n')
  String.ofList (cs.reverse.dropWhile (· = '\n')).reverse

namespace Signature

/-- The options. -/
def options (s : Signature) : List Argument := s.arguments.filter Argument.isOption

/-- The operands. -/
def operands (s : Signature) : List Argument := s.arguments.filter fun a => !a.isOption

/-- The usage. -/
def usage? (s : Signature) : Except LayoutError String := do
  match s.usage with
  | some usage => return usageLead ++ usage
  | none =>
    let all := usageLine (s.options ++ s.operands)
    let line := if all.isEmpty then s.program else s.program ++ " " ++ all
    if usageLead.length + line.length ≤ lineWidth then return tidyBreaks (usageLead ++ line)
    else
      let options ← separatedParts? (usageLine s.options)
      let operands ← separatedParts? (usageLine s.operands)
      return tidyBreaks (usageLead ++ "\n".intercalate (brokenUsage s.program options operands))

end Signature

end Determinize.CommandLine
