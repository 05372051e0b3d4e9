import Determinize.Number.Numeral
import Determinize.Number.Shortest
import Determinize.Text.Upper
import Determinize.Value.Text

/-!
# Arguments of a command line

A command has options, which are recognised by their spelling, and operands, which are recognised by
their position. Both take words of the command line, read them as values and bind them to a key. An
operand can also select a command that is described on its own.

## Main definitions

* `Reading` — how a word is read as a value.
* `Argument` — an option or an operand; `Argument.help`, `Argument.version`, `Argument.command`.
* `Argument.label`, `Argument.placeholder` — how an argument is called in messages and in help.
* `Signature` — the arguments of a command.
-/

namespace Determinize.CommandLine

/-- How a word is read as a value. -/
inductive Reading where
  | text
  | int
  | real
  | bool
  | null
  /-- The characters of the word, as a list. -/
  | list
  /-- The characters of the word, as a tuple. -/
  | tuple
  deriving DecidableEq

namespace Reading

/-- The name of the type of the values. -/
def name : Reading → String
  | text => "str"
  | int => "int"
  | real => "float"
  | bool => "bool"
  | null => "NoneType"
  | list => "list"
  | tuple => "tuple"

/-- The characters of a word. -/
def characters (s : String) : List Value := s.toList.map fun c => .text (String.singleton c)

/-- Reads a word. Every word but the empty one stands for truth, and none for `null`. -/
def read? : Reading → String → Option Value
  | text, s => some (.text s)
  | int, s => (readInt? s).map .int
  | real, s => (readDouble? s).map .real
  | bool, s => some (.bool !s.isEmpty)
  | null, _ => none
  | list, s => some (.list (characters s))
  | tuple, s => some (.tuple (characters s))

/-- The reading that yields values of the type of the given one. -/
def ofValue : Value → Reading
  | .int _ => int
  | .real _ => real
  | .bool _ => bool
  | .null => null
  | .list _ => list
  | .tuple _ => tuple
  | _ => text

end Reading

/-- How many words an argument takes. -/
inductive Arity where
  /-- None: the option is a flag. -/
  | flag
  | one
  | optional
  /-- All that are left. -/
  | rest
  /-- The name of a command, and all that are left. -/
  | command
  deriving DecidableEq

/-- What happens with the words of an argument. -/
inductive Effect where
  | store
  | append
  /-- The help is printed and nothing else happens. -/
  | help
  /-- A text is printed and nothing else happens. -/
  | version (text : String)
  deriving DecidableEq

/-- An option or an operand. -/
structure Argument where
  /-- The spellings of an option. An operand has none. -/
  spellings : List String
  /-- What the value is bound to. -/
  key : String
  arity : Arity
  effect : Effect
  reading : Reading
  choices : Option (List Value)
  required : Bool
  /-- The value if there are no words. A text is read like a word. -/
  fallback : Value
  description : Option String
  /-- The commands that an operand selects from, with their descriptions. -/
  commands : List (String × Option String)

/-- The arguments of a command. -/
structure Signature where
  /-- How the program is called in messages. -/
  program : String
  /-- The usage, if it is not derived from the arguments. -/
  usage : Option String
  description : Option String
  arguments : List Argument

namespace Argument

/-- A flag. -/
def flag (spellings : List String) (effect : Effect) (description : String) : Argument :=
  ⟨spellings, "", .flag, effect, .text, none, false, .null, some description, []⟩

/-- The flag that prints the help. -/
def help : Argument := flag ["-h", "--help"] .help "show this help message and exit"

/-- The flag that prints the version. -/
def version (text : String) : Argument :=
  flag ["--version"] (.version text) "show program's version number and exit"

/-- What the name and the arguments of a command are bound to. -/
def commandKey : String := ""

/-- The operand that selects a command. -/
def command (commands : List (String × Option String)) : Argument :=
  ⟨[], commandKey, .command, .store, .text, some (commands.map fun c => .text c.1), false, .null,
    none, commands⟩

/-- An operand that takes text. -/
def operand (key : String) (arity : Arity) (description : String) : Argument :=
  ⟨[], key, arity, .store, .text, none, false, .null, some description, []⟩

/-- Whether the argument is an option. -/
def isOption (a : Argument) : Bool := !a.spellings.isEmpty

/-- Values to choose from, between braces. -/
def choiceText (choices : List Value) : String :=
  Value.openBrace ++ ",".intercalate (choices.map Value.display) ++ Value.closeBrace

/-- How an argument is called in messages. A choice of nothing has no name. -/
def label (a : Argument) : Option String :=
  if a.isOption then some ("/".intercalate a.spellings)
  else if !a.key.isEmpty then some a.key
  else match a.choices with
    | some (x :: xs) => some (choiceText (x :: xs))
    | _ => none

/-- What stands for the words of an argument in the help. -/
def placeholder (a : Argument) : String :=
  match a.choices with
  | some choices => choiceText choices
  | none => if a.isOption then Text.upper a.key else a.key

end Argument

end Determinize.CommandLine
