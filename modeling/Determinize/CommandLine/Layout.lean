import Determinize.CommandLine.Usage
import Determinize.Text.Paragraph

/-!
# The layout of help

The help of a command consists of its usage, its description, its operands and its options. Operands
and options are listed with their descriptions in a second column.

Descriptions are templates. That of an argument is filled from the properties of the argument; that
of a command knows the name of the program only, and is no template unless it mentions it.

## Main definitions

* `Argument.fields`, `Argument.commandFields` — what the description of an argument can mention.
* `Signature.help?` — the help.
-/

namespace Determinize.CommandLine

/-- The column at which descriptions begin at the latest. -/
def columnLimit : Nat := 24

/-- The indentation of the arguments in a list. -/
def listIndent : Nat := 2

/-- A template with its placeholders filled. -/
def filled? (fields : List (String × Value)) (template : String) : Except LayoutError String :=
  (Template.fill? fields template).mapError .template

/-! ### What descriptions can mention -/

/-- The name of the program, as a field. -/
def programField (program : String) : String × Value := ("prog", .text program)

/-- How many words an argument takes, if that is not one. -/
def Arity.value : Arity → Value
  | flag => .int 0
  | one => .null
  | optional => .text "?"
  | rest => .text "..."
  | command => .text "A..."

namespace Argument

/-- What the description of an argument can mention. -/
def fields (program : String) (a : Argument) : List (String × Value) := [
  ("option_strings", .list (a.spellings.map .text)),
  ("dest", .text a.key),
  ("nargs", a.arity.value),
  ("const", .null),
  ("default", a.fallback),
  ("type", .text a.reading.name),
  ("choices", match a.choices with
    | some choices => .text (", ".intercalate (choices.map Value.display))
    | none => .null),
  ("required", .bool a.required),
  ("help", .text (a.description.getD "")),
  ("metavar", .null),
  programField program]

/-- What the description of a command to select can mention. -/
def commandFields (program name description : String) : List (String × Value) := [
  ("option_strings", .list []),
  ("dest", .text name),
  ("nargs", .null),
  ("const", .null),
  ("default", .null),
  ("type", .null),
  ("choices", .null),
  ("required", .bool false),
  ("help", .text description),
  ("metavar", .text name),
  programField program]

/-! ### Lists of arguments -/

/-- The argument in the list of arguments. -/
def heading (a : Argument) : String :=
  if a.spellings.isEmpty then a.placeholder
  else ", ".intercalate (a.spellings.map fun spelling =>
    if a.arity = .flag then spelling else spelling ++ " " ++ a.placeholder)

end Argument

/-- The lines of a description at a column, in a row; the first one is not indented. -/
def descriptionLines? (column : Nat) (text : String) : Except LayoutError String :=
  match Text.fill (lineWidth - column) text with
  | [] => .error .blankDescription
  | line :: lines =>
    .ok (String.join ((line :: lines.map (spaces column ++ ·)).map (· ++ "\n")))

/-- A heading at an indentation and a description at a column. A blank description leaves its room
empty, and one of which nothing is left does not even end the line. -/
def listed? (indent column : Nat) (heading : String) (fields : List (String × Value))
    (description : String) : Except LayoutError String := do
  let first := spaces indent ++ heading
  if description.isEmpty then return first ++ "\n"
  let fits := heading.length + indent + 2 ≤ column
  let lead := if fits then first ++ spaces (column - first.length) else first ++ "\n"
  if (Text.trim description.toList).isEmpty then return if fits then lead ++ "\n" else lead
  let text ← filled? fields description
  if text.isEmpty then return lead
  return lead ++ (if fits then "" else spaces column) ++ (← descriptionLines? column text)

namespace Argument

/-- The longest heading of an argument and of its commands. -/
def headingLength (a : Argument) : Nat :=
  (a.commands.map (·.1.length)).foldl max a.heading.length

/-- An argument and its commands, with descriptions at a column. -/
def listing? (program : String) (column : Nat) (a : Argument) : Except LayoutError String := do
  let own ← listed? listIndent column a.heading (a.fields program) (a.description.getD "")
  let commands ← a.commands.mapM fun (name, description) =>
    let description := description.getD ""
    listed? (2 * listIndent) column name (commandFields program name description) description
  return own ++ String.join commands

end Argument

/-- The block of a list of arguments; none if there are no arguments. -/
def listBlock? (program : String) (column : Nat) (title : String) (arguments : List Argument) :
    Except LayoutError (List String) := do
  if arguments.isEmpty then return []
  return ["\n" ++ title ++ ":\n" ++
    String.join (← arguments.mapM (Argument.listing? program column)) ++ "\n"]

namespace Signature

/-- The column at which descriptions begin. -/
def column (s : Signature) : Nat :=
  min ((s.arguments.map Argument.headingLength).foldl max 0 + 2 * listIndent) columnLimit

/-- Whether a text holds another one. -/
def mentions (part : List Char) : List Char → Bool
  | [] => part.isEmpty
  | c :: cs => part.isPrefixOf (c :: cs) || mentions part cs

/-- The block of the description; none if there is nothing to say. -/
def descriptionBlock? (s : Signature) : Except LayoutError (List String) := do
  let description := s.description.getD ""
  let text ← if mentions "%(prog)".toList description.toList
    then filled? [programField s.program] description
    else pure description
  match Text.fill lineWidth text with
  | [] => return []
  | lines => return ["\n".intercalate lines ++ "\n\n"]

/-- The help. -/
def help? (s : Signature) : Except LayoutError String := do
  let usage ← s.usage?
  let description ← s.descriptionBlock?
  let operands ← listBlock? s.program s.column "positional arguments" s.operands
  let options ← listBlock? s.program s.column "options" s.options
  return tidyBreaks (usage ++ "\n\n" ++ String.join (description ++ operands ++ options)) ++ "\n"

end Signature

end Determinize.CommandLine
