import Determinize.CommandLine.Argument
import Determinize.Value.Order

/-!
# Parameters of methods

The arguments of a command are derived from the parameters of a method. A positional parameter
becomes an operand and a keyword parameter an option, spelled with hyphens for underscores and bound
to its name without the underscores before it. An argument can be left out if its parameter has a
default or admits `null`.

## Main definitions

* `ParameterType`, `Parameter`.
* `Parameter.argument`, `argumentsOf?`.
-/

namespace Determinize

open CommandLine

/-- The type of a parameter. -/
inductive ParameterType where
  | text
  | int
  | real
  | bool
  /-- The values of a type, and `null`. -/
  | optional (type : ParameterType)
  /-- Values to choose from. -/
  | choice (values : List Value)
  deriving Inhabited

/-- A parameter of a method. -/
structure Parameter where
  name : String
  /-- Whether the argument is given by its name. -/
  keyword : Bool
  type : ParameterType
  default? : Option Value

/-- Why a method cannot be a command. -/
inductive SignatureError where
  /-- Two options are spelled alike. -/
  | conflict (spelling : String)
  /-- An option has nothing to be bound to. -/
  | nameless (spelling : String)
  /-- There are no values to choose from. -/
  | noChoices

/-- The text of an error. -/
def SignatureError.message : SignatureError → String
  | conflict spelling =>
    "argument " ++ spelling ++ ": conflicting option string: " ++ spelling
  | nameless spelling => "dest= is required for options like " ++ Text.quoted spelling
  | noChoices => "tuple index out of range"

namespace ParameterType

/-- Whether the type admits `null`. -/
def admitsNull : ParameterType → Bool
  | optional _ => true
  | _ => false

/-- The choices without repetitions. Equal values of different types are different choices. -/
def distinctChoices : List Value → List Value
  | [] => []
  | x :: xs => x :: (distinctChoices xs).filter fun y => !(y.typeName == x.typeName && y == x)

/-- The values to choose from. -/
def choices? : ParameterType → Option (List Value)
  | optional type => type.choices?
  | choice values => some (distinctChoices values)
  | _ => none

/-- How words are read. All choices are read like the first one. -/
def reading : ParameterType → Reading
  | text => .text
  | int => .int
  | real => .real
  | bool => .bool
  | optional type => type.reading
  | choice values => .ofValue (values.headD (.text ""))

end ParameterType

namespace Parameter

/-- The spelling of the option for a keyword parameter. -/
def spelling (p : Parameter) : String :=
  "--" ++ String.ofList (p.name.toList.map fun c => if c = '_' then '-' else c)

/-- What the argument for a parameter is bound to. -/
def key (p : Parameter) : String :=
  if p.keyword then String.ofList (p.name.toList.dropWhile (· = '_')) else p.name

/-- Whether the argument for a parameter can be left out. -/
def canBeLeftOut (p : Parameter) : Bool := p.default?.isSome || p.type.admitsNull

/-- The description of the argument for a parameter. -/
def description (p : Parameter) : String :=
  p.type.reading.name ++
    (if p.canBeLeftOut then " (default: " ++ (p.default?.getD .null).display ++ ")"
    else if p.keyword then " (required)"
    else "")

/-- The argument for a parameter. -/
def argument (p : Parameter) : Argument where
  spellings := if p.keyword then [p.spelling] else []
  key := p.key
  arity := if !p.keyword && p.canBeLeftOut then .optional else .one
  effect := .store
  reading := p.type.reading
  choices := p.type.choices?
  required := !p.canBeLeftOut
  fallback := p.default?.getD .null
  description := some p.description
  commands := []

end Parameter

/-- The arguments for parameters after other arguments. -/
def argumentsOf? (before : List Argument) : List Parameter → Except SignatureError (List Argument)
  | [] => .ok before
  | p :: ps =>
    if p.type.choices? matches some [] then .error .noChoices
    else if p.keyword && p.key.isEmpty then .error (.nameless p.spelling)
    else if p.keyword && before.any (·.spellings.contains p.spelling) then
      .error (.conflict p.spelling)
    else argumentsOf? (before ++ [p.argument]) ps

end Determinize
