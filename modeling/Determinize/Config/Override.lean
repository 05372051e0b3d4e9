import Determinize.Config.Document
import Determinize.Text.Digit

/-!
# Overrides

An override is a dotted key and a value. The segments of the key lead from the root of some data
through the fields of objects and the items of lists to the place where the value is written. Every
segment but the last has to select something that is there; the last one can add a field to an
object.

An item of a list is selected by digits. Digits of a special form pass for digits but denote no
number.

## Main definitions

* `Value.place?`, `Value.at?`, `Value.write` — one segment.
* `Value.put?` — a sequence of segments.
* `applyOverrides?`, `OverrideError`.
-/

namespace Determinize

/-- What is wrong with an override. The lists are the segments before the one at fault. -/
inductive OverrideError where
  /-- The segment is no index of a list of this size. -/
  | badIndex (path : List String) (size : Nat) (key : String)
  /-- The segment leads into a value that is neither a list nor an object. -/
  | notContainer (path : List String) (node : Value)
  /-- An object does not have the last of these segments as a key. -/
  | unusedKey (path : List String)
  /-- The segment has digits of a special form. -/
  | notDecimal (key : String)
  /-- The segment has more digits than an integer can have. -/
  | tooManyDigits (count : Nat)
  /-- The overrides are not an object. -/
  | notObject (x : Value)

/-- Segments as a dotted key. -/
def dotted (path : List String) : String := ".".intercalate path

/-- The text of an error. -/
def OverrideError.message : OverrideError → String
  | badIndex path size key =>
    "overrides for '" ++ dotted path ++ ".*' expected an index below " ++ toString size ++
      ", found '" ++ key ++ "'"
  | notContainer path node =>
    "overrides for '" ++ dotted path ++ ".*' expected list or dict, found " ++ node.typeText ++ " instead"
  | unusedKey path => "overrides dict contains unused key: " ++ dotted path
  | notDecimal key =>
    "invalid literal for int() with base 10: " ++
      String.ofList ((Text.quoted key).toList.take 200)
  | tooManyDigits count =>
    "Exceeds the limit (" ++ toString digitLimit ++
      " digits) for integer string conversion: value has " ++ toString count ++
      " digits; use sys.set_int_max_str_digits() to increase the limit"
  | notObject x => "Overrides must be a JSON object, got " ++ x.typeName

/-! ### Places -/

/-- A place in an object or a list. -/
inductive Place where
  | field (key : String)
  | item (index : Nat)

/-- The segments of a dotted key. -/
def segments (key : String) : List String := (key.toList.splitOn '.').map String.ofList

/-- The number that a segment of digits denotes, `none` for a segment of other characters. The digits
before the first one of a special form must not be too many. -/
def segmentIndex? (key : String) : Except OverrideError (Option Nat) :=
  let cs := key.toList
  if cs.isEmpty || !cs.all Text.isDigit then .ok none
  else
    let decimals := cs.takeWhile fun c => (Text.decimalDigit? c).isSome
    if digitLimit < decimals.length then .error (.tooManyDigits decimals.length)
    else match cs.mapM Text.decimalDigit? with
      | none => .error (.notDecimal key)
      | some ds => .ok (some (ofDigits ds))

namespace Value

/-- The place in a value that a segment selects, after the given segments. -/
def place? (x : Value) (path : List String) (key : String) : Except OverrideError Place :=
  match x with
  | object _ => .ok (.field key)
  | list items => do
    match ← segmentIndex? key with
    | some i =>
      if i < items.length then return .item i else throw (.badIndex path items.length key)
    | none => throw (.badIndex path items.length key)
  | x => .error (.notContainer path x)

/-- The value at a place. -/
def at? : Value → Place → Option Value
  | object fields, .field key => fields.lookup key
  | list items, .item i => items[i]?
  | _, _ => none

/-- Fields after a field was set: its value is replaced, or it is added at the end. -/
def setField (key : String) (y : Value) : List (String × Value) → List (String × Value)
  | [] => [(key, y)]
  | (k, x) :: fields => if k = key then (k, y) :: fields else (k, x) :: setField key y fields

/-- The value after another one was written at a place. -/
def write (x : Value) (place : Place) (y : Value) : Value :=
  match x, place with
  | object fields, .field key => object (setField key y fields)
  | list items, .item i => list (items.set i y)
  | x, _ => x

/-- The value after another one was written where the segments lead. The segments before `path` led
to the value. -/
def put? (x : Value) (path : List String) : List String → Value → Except OverrideError Value
  | [], y => .ok y
  | [key], y => do return x.write (← x.place? path key) y
  | key :: next :: rest, y => do
    let place ← x.place? path key
    match x.at? place with
    | none => throw (.unusedKey (path ++ [key]))
    | some child => return x.write place (← put? child (path ++ [key]) (next :: rest) y)

end Value

/-- The data after an override. -/
def applyOverride? (config : Value) (override : String × Value) : Except OverrideError Value :=
  config.put? [] (segments override.1) override.2

/-- The data after overrides in turn. -/
def applyOverrides? (config : Value) (overrides : List (String × Value)) :
    Except OverrideError Value :=
  overrides.foldlM applyOverride? config

/-! ### Loading -/

/-- Why data cannot be loaded. -/
inductive LoadError where
  | document (e : DocumentError)
  | override (e : OverrideError)

/-- What evaluates documents: the data that a text denotes, by the texts from outside, or why it denotes
none. The program runs with `evaluateText?`. -/
abbrev Evaluator := List (String × String) → String → Except DocumentError Value

section Loading

variable (evaluate : Evaluator) (externals : List (String × String))

/-- The data that a text denotes. They are handed over as JSON, where integers with too many digits are
not read. -/
def readData? (s : String) : Except LoadError Value := do
  let x ← (evaluate externals s).mapError .document
  match x.excess? with
  | some count => throw (.document (.tooManyDigits count))
  | none => return x

/-- The overrides that a text denotes. An empty text denotes none. -/
def parseOverrides? (s : String) : Except LoadError (List (String × Value)) :=
  if s.isEmpty then .ok []
  else do
    match ← readData? evaluate externals s with
    | .object fields => return fields
    | x => throw (.override (.notObject x))

/-- The data that a text denotes, after the overrides that another text denotes. -/
def load? (s overrides : String) : Except LoadError Value := do
  let config ← readData? evaluate externals s
  let overrides ← parseOverrides? evaluate externals overrides
  (applyOverrides? config overrides).mapError .override

end Loading

end Determinize
