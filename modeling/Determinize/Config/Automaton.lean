import Determinize.Construction

/-!
# Configurations of automata

A configuration is data that describe a nondeterministic automaton and how it is converted. It is an
object with the field `nfa` and optionally `conversion`. The description has the transitions as
triples, the start and the accept states, and optionally the marker; the conversion has optionally
the order of expansion and the alphabet.

Building a configuration checks the types of the fields, in the order of their keys, and after that
that no field is missing and none is unknown. Where a sequence is expected, a text stands for its
characters, and where an integer or a text is expected, an object can make one. `null` passes for
every field and for the descriptions themselves; what is absent in this way is noticed when it is
used. The items of the transitions are checked when the automaton is built.

## Main definitions

* `NfaConfig`, `NfaConfig.nfa?`.
* `ConversionConfig`, `ConversionConfig.new?`.
* `AutomatonConfig`, `AutomatonConfig.ofValue?`, `AutomatonConfig.nfa?`, `AutomatonConfig.convert?`.
* `Builder` — what builds configurations from data.
* `BuildError`, `ConfigError`.
-/

namespace Determinize

/-! ### Errors -/

/-- What is expected at a place in a configuration. -/
inductive ConfigType where
  | automaton
  | nfa
  | conversion
  | int
  | text
  | sequence

/-- The name of the class of what is expected. -/
def ConfigType.name : ConfigType → String
  | automaton => "dfastack.automaton.config.AutomatonConfig"
  | nfa => "dfastack.automaton.config.NFAConfig"
  | conversion => "dfastack.automaton.config.ConversionConfig"
  | int => "int"
  | text => "str"
  | sequence => "collections.abc.Sequence"

/-- Why data are no configuration. Places are given by keys and indices. -/
inductive BuildError where
  /-- The value has another type than expected. -/
  | mismatch (path : List String) (expected : ConfigType) (actual : Value)
  /-- The value cannot be made from the fields of the object. -/
  | unbuildable (path : List String) (expected : ConfigType)
  /-- The alphabet is neither absent nor a sequence of texts. -/
  | badAlphabet (path : List String)
  /-- There are no data. -/
  | nothing
  /-- What another builder reports. -/
  | refused (text : String)

/-- A place in a message. -/
def placeText (path : List String) : String := "[" ++ ".".intercalate path ++ "]"

/-- What is reported when something absent is asked for one of its parts. -/
def absentText (part : String) : String :=
  "'NoneType' object has no attribute '" ++ part ++ "'"

/-- The text of an error. -/
def BuildError.message : BuildError → String
  | mismatch path expected actual =>
    placeText path ++ " Type mismatch, expected type is " ++ Value.classText expected.name ++
      ", but actual type is " ++ actual.typeText ++ "."
  | unbuildable path expected =>
    placeText path ++ " Failed to construct object with constructor " ++
      Value.classText expected.name ++ "."
  | badAlphabet path =>
    placeText path ++
      " Failed to construct object with type typing.Optional[typing.Sequence[str]]"
  | nothing => absentText "__json_config__"
  | refused text => text

/-- Why a configured automaton cannot be built or converted. -/
inductive ConfigError where
  /-- The description of the automaton is absent. -/
  | noNfa
  /-- The description of the conversion is absent. -/
  | noConversion
  /-- A transition is no list of three items. -/
  | badTriple (index : Nat) (given : Value)
  | automaton (e : AutomatonError)

/-- The text of an error. -/
def ConfigError.message [DigitLimit] : ConfigError → String
  | noNfa => absentText "build"
  | noConversion => absentText "alphabet"
  | badTriple index given =>
    "transitions[" ++ toString index ++ "] must be a [source, symbol, target] triple, got " ++
      given.display
  | automaton e => e.message

/-! ### Building fields -/

namespace Config

/-- An integer, a truth value or `null`. The object without fields makes zero. -/
def int? (path : List String) : Value → Except BuildError Value
  | .object [] => .ok (.int 0)
  | .object (_ :: _) => .error (.unbuildable path .int)
  | .null => .ok .null
  | .bool b => .ok (.bool b)
  | .int n => .ok (.int n)
  | x => .error (.mismatch path .int x)

/-- Whether a value can name an encoding or how its errors are handled. -/
def isEncodingName : Value → Bool
  | .text s => !s.toList.contains '\x00'
  | _ => false

/-- The text that the fields of an object make: the text of the field `object`, or the empty text,
which can have an encoding. -/
def textOfFields? (fields : List (String × Value)) : Option String :=
  match fields with
  | [("object", x)] => some x.display
  | fields =>
    if fields.all fun (k, x) => ["encoding", "errors"].contains k && isEncodingName x then some ""
    else none

/-- A text or `null`. An object makes a text. -/
def text? (path : List String) : Value → Except BuildError Value
  | .object fields =>
    match textOfFields? fields with
    | some s => .ok (.text s)
    | none => .error (.unbuildable path .text)
  | .null => .ok .null
  | .text s => .ok (.text s)
  | x => .error (.mismatch path .text x)

/-- Everything as it is. -/
def anything? (_ : List String) (x : Value) : Except BuildError Value := .ok x

/-- The list of what the items of a list make. -/
def builtList? (path : List String) (item? : List String → Value → Except BuildError Value)
    (items : List Value) : Except BuildError Value := do
  return .list (← items.zipIdx.mapM fun (x, i) => item? (path ++ [toString i]) x)

/-- The list of what the items of a sequence make; or `null`. -/
def sequence? (path : List String) (item? : List String → Value → Except BuildError Value) :
    Value → Except BuildError Value
  | .null => .ok .null
  | .list items => builtList? path item? items
  | .text s => builtList? path item? (s.toList.map fun c => .text (String.singleton c))
  | .object _ => .error (.unbuildable path .sequence)
  | x => .error (.mismatch path .sequence x)

/-- What the field of an object makes if it is there. -/
def field? (fields : List (String × Value)) (path : List String) (key : String)
    (build? : List String → Value → Except BuildError Value) : Except BuildError (Option Value) :=
  match fields.lookup key with
  | some x => (build? (path ++ [key]) x).map some
  | none => .ok none

/-- Whether all the keys of an object are among the given ones. -/
def onlyKeys (fields : List (String × Value)) (keys : List String) : Bool :=
  fields.all fun field => keys.contains field.1

end Config

open Config

/-! ### The description of an automaton -/

/-- The description of a nondeterministic automaton. -/
structure NfaConfig where
  transitions : Value
  starts : Value
  accepts : Value
  marker : Value

namespace NfaConfig

/-- The description that an object holds; none for `null`. -/
def ofValue? (path : List String) : Value → Except BuildError (Option NfaConfig)
  | .null => .ok none
  | .object fields => do
    let accepts ← field? fields path "accept_states" (sequence? · int?)
    let marker ← field? fields path "epsilon" text?
    let starts ← field? fields path "start_states" (sequence? · int?)
    let transitions ← field? fields path "transitions" (sequence? · anything?)
    match transitions, starts, accepts,
        onlyKeys fields ["transitions", "start_states", "accept_states", "epsilon"] with
    | some transitions, some starts, some accepts, true =>
      return some ⟨transitions, starts, accepts, marker.getD Nfa.defaultMarker⟩
    | _, _, _, _ => throw (.unbuildable path .nfa)
  | x => .error (.mismatch path .nfa x)

/-- A transition as a triple. What is none is shown in the error, if it can be written. -/
def transition? [DigitLimit] (x : Value) (index : Nat) : Except ConfigError Value :=
  match x with
  | .list [source, symbol, target] | .tuple [source, symbol, target] =>
    .ok (.tuple [source, symbol, target])
  | x => .error (if x.writable then .badTriple index x else .automaton .tooManyDigits)

/-- The automaton that is described. The transitions are looked at before the states. -/
def nfa? [DigitLimit] (c : NfaConfig) : Except ConfigError Nfa := do
  let transitions ← c.transitions.items?.mapError fun e => .automaton (.shape e)
  let triples ← transitions.zipIdx.mapM fun (x, i) => transition? x i
  (Nfa.ofTriples? (.list triples) c.starts c.accepts c.marker).mapError fun e =>
    .automaton (.shape e)

end NfaConfig

/-! ### The description of a conversion -/

/-- The description of a conversion. -/
structure ConversionConfig where
  discipline : Discipline
  /-- The symbols to explore, or `null` for those of the automaton. -/
  alphabet : Value

namespace ConversionConfig

/-- The order of expansion unless another is given. -/
def defaultDiscipline : Value := .text Discipline.fifo.name

/-- The conversion in the given order of expansion over the given alphabet. -/
def new? [DigitLimit] (worklist alphabet : Value) : Except AutomatonError ConversionConfig :=
  match Discipline.ofValue? worklist with
  | some discipline => .ok ⟨discipline, alphabet⟩
  | none => .error (if worklist.writable then .unknownDiscipline worklist else .tooManyDigits)

/-- The conversion unless another is described. -/
def standard : ConversionConfig := ⟨.fifo, .null⟩

/-- An alphabet: a sequence of texts, or `null`, which the object without fields makes too. -/
def alphabet? (path : List String) : Value → Except BuildError Value
  | .object [] => .ok .null
  | x => (sequence? path text? x).mapError fun _ => .badAlphabet path

/-- The conversion that an object describes; none for `null`. -/
def ofValue? (path : List String) : Value → Except BuildError (Option ConversionConfig)
  | .null => .ok none
  | .object fields => do
    let alphabet ← field? fields path "alphabet" alphabet?
    let worklist ← field? fields path "worklist" text?
    match new? (worklist.getD defaultDiscipline) (alphabet.getD .null),
        onlyKeys fields ["worklist", "alphabet"] with
    | .ok conversion, true => return some conversion
    | _, _ => throw (.unbuildable path .conversion)
  | x => .error (.mismatch path .conversion x)

/-- The symbols to explore, `null` standing for the marker; none if the alphabet is `null`. -/
def symbols (c : ConversionConfig) (marker : Value) : Option Value :=
  match c.alphabet with
  | .list items => some (.list (items.map fun x => if x = .null then marker else x))
  | .null => none
  | x => some x

end ConversionConfig

/-! ### Configurations -/

/-- A configuration. -/
structure AutomatonConfig where
  nfa : Option NfaConfig
  conversion : Option ConversionConfig
  /-- The data from which it was built. -/
  source : Value

/-- What builds configurations from data. The program runs with `AutomatonConfig.ofValue?`. -/
abbrev Builder := Value → Except BuildError AutomatonConfig

namespace AutomatonConfig

/-- The configuration that data describe. -/
def ofValue? : Value → Except BuildError AutomatonConfig
  | .null => .error .nothing
  | .object fields => do
    let conversion ← match fields.lookup "conversion" with
      | some x => ConversionConfig.ofValue? ["conversion"] x
      | none => pure (some .standard)
    let nfa ← (fields.lookup "nfa").mapM (NfaConfig.ofValue? ["nfa"])
    match nfa, onlyKeys fields ["nfa", "conversion"] with
    | some nfa, true => return ⟨nfa, conversion, .object fields⟩
    | _, _ => throw (.unbuildable [] .automaton)
  | x => .error (.mismatch [] .automaton x)

/-- The automaton that is described. -/
def nfa? [DigitLimit] (c : AutomatonConfig) : Except ConfigError Nfa :=
  match c.nfa with
  | some description => description.nfa?
  | none => .error .noNfa

/-- The conversion that is described. -/
def convert? [DigitLimit] (c : AutomatonConfig) : Except ConfigError Conversion := do
  let n ← c.nfa?
  match c.conversion with
  | none => throw .noConversion
  | some conversion =>
    (n.convert? (conversion.symbols n.marker) (.text conversion.discipline.name)).mapError
      .automaton

end AutomatonConfig

end Determinize
