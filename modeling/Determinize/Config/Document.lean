import Determinize.Config.Token
import Determinize.Json.Position
import Determinize.Value.Order

/-!
# Documents

A document denotes data. It is JSON with unquoted keys, single quotes, trailing commas, comments,
names bound by `local name = …;`, and texts taken from outside by `std.extVar('NAME')`. A name
denotes what it was bound to, also inside the bindings that stand with its own; a binding that is not
used is not evaluated, and one that is used for its own value is an error.

The numbers of a document are doubles. They are written as JSON, and a whole number is read back as
an integer; infinity cannot be read back. The fields of an object are sorted by key.

## Main definitions

* `Document` — the form of a document, and `Document.ofString?`.
* `Document.evaluate?` — the data that a document denotes, all numbers being doubles.
* `Value.withIntegers` — data with integers for whole doubles.
* `DocumentError`, `evaluateText?`.
-/

namespace Determinize

/-- The form of a document. -/
inductive Document where
  | null
  | bool (b : Bool)
  | text (s : String)
  | number (n : Numeral)
  /-- A number with the other sign. -/
  | negation (x : Document)
  | reference (name : String)
  /-- A text from outside, under the name that the inner document denotes. -/
  | external (source : Document)
  | list (items : List Document)
  | object (fields : List (String × Document))
  /-- A document in which names are bound together. -/
  | binding (frame : List (String × Document)) (body : Document)

/-- Why a text denotes no data. -/
inductive DocumentError where
  | illFormed
  | unknownName (name : String)
  /-- The value of a name is needed for itself. -/
  | circular (name : String)
  | unknownVariable (name : String)
  /-- The name of a text from outside is no text. -/
  | notText
  /-- What is to change its sign is no number. -/
  | notNumber
  /-- What a name was bound to is used as the source of texts from outside. -/
  | notSource
  | duplicateKey (key : String)
  /-- The data hold infinity. In their JSON it stands at this position. -/
  | infinite (position : Json.Position)
  /-- An integer has so many digits that it is not read. -/
  | tooManyDigits (count : Nat)
  /-- What another evaluator reports. -/
  | refused (text : String)

/-- The text of an error if it has one. -/
def DocumentError.message? : DocumentError → Option String
  | infinite p =>
    some ("Expecting value: line " ++ toString p.line ++ " column " ++ toString p.column ++
      " (char " ++ toString p.offset ++ ")")
  | tooManyDigits count =>
    some ("Exceeds the limit (" ++ toString digitLimit ++
      " digits) for integer string conversion: value has " ++ toString count ++
      " digits; use sys.set_int_max_str_digits() to increase the limit")
  | refused text => some text
  | _ => none

namespace Document

/-! ### Form -/

/-- The words that are not names. -/
def reservedWords : List String :=
  ["assert", "else", "error", "false", "for", "function", "if", "import", "in", "local", "null",
    "tailstrict", "then", "self", "super", "true"]

/-- The word under which the source of texts from outside is known. -/
def sourceName : String := "std"

mutual

/-- The document at the start of a list of tokens, and the rest. The first argument bounds the
number of calls. -/
def read? : Nat → List Token → Option (Document × List Token)
  | 0, _ => none
  | fuel + 1, tokens =>
    match tokens with
    | .text s :: rest => some (text s, rest)
    | .number n :: rest => some (number n, rest)
    | .punctuation '-' :: rest => do
      let (x, rest) ← read? fuel rest
      return (negation x, rest)
    | .punctuation '[' :: .punctuation ']' :: rest
    | .punctuation '[' :: .punctuation ',' :: .punctuation ']' :: rest => some (list [], rest)
    | .punctuation '[' :: rest => do
      let (items, rest) ← readItems? fuel rest
      return (list items, rest)
    | .punctuation '\x7b' :: .punctuation '\x7d' :: rest
    | .punctuation '\x7b' :: .punctuation ',' :: .punctuation '\x7d' :: rest =>
      some (object [], rest)
    | .punctuation '\x7b' :: rest => do
      let (fields, rest) ← readFields? fuel rest
      return (object fields, rest)
    | .word "local" :: .punctuation ';' :: rest
    | .word "local" :: .punctuation ',' :: .punctuation ';' :: rest => read? fuel rest
    | .word "local" :: rest => do
      let (frame, rest) ← readBindings? fuel rest
      let (body, rest) ← read? fuel rest
      return (binding frame body, rest)
    | .word "std" :: .punctuation '.' :: .word "extVar" :: .punctuation '(' :: rest => do
      let (source, rest) ← read? fuel rest
      match rest with
      | .punctuation ')' :: rest => return (external source, rest)
      | .punctuation ',' :: .punctuation ')' :: rest => return (external source, rest)
      | _ => none
    | .word "null" :: rest => some (null, rest)
    | .word "true" :: rest => some (bool true, rest)
    | .word "false" :: rest => some (bool false, rest)
    | .word s :: rest => if reservedWords.contains s then none else some (reference s, rest)
    | _ => none

/-- The items of a list up to its closing bracket, and the rest. -/
def readItems? : Nat → List Token → Option (List Document × List Token)
  | 0, _ => none
  | fuel + 1, tokens => do
    let (x, rest) ← read? fuel tokens
    match rest with
    | .punctuation ']' :: rest => return ([x], rest)
    | .punctuation ',' :: .punctuation ']' :: rest => return ([x], rest)
    | .punctuation ',' :: rest =>
      let (xs, rest) ← readItems? fuel rest
      return (x :: xs, rest)
    | _ => none

/-- The fields of an object up to its closing brace, and the rest. -/
def readFields? : Nat → List Token → Option (List (String × Document) × List Token)
  | 0, _ => none
  | fuel + 1, tokens => do
    let (key, rest) ← match tokens with
      | .text s :: .punctuation ':' :: rest => some (s, rest)
      | .word s :: .punctuation ':' :: rest =>
        if reservedWords.contains s then none else some (s, rest)
      | _ => none
    let (x, rest) ← read? fuel rest
    match rest with
    | .punctuation '\x7d' :: rest => return ([(key, x)], rest)
    | .punctuation ',' :: .punctuation '\x7d' :: rest => return ([(key, x)], rest)
    | .punctuation ',' :: rest =>
      let (fields, rest) ← readFields? fuel rest
      return ((key, x) :: fields, rest)
    | _ => none

/-- The bindings after `local` up to the semicolon, and the rest. -/
def readBindings? : Nat → List Token → Option (List (String × Document) × List Token)
  | 0, _ => none
  | fuel + 1, .word s :: .punctuation '=' :: rest =>
    if reservedWords.contains s then none
    else do
      let (bound, rest) ← read? fuel rest
      match rest with
      | .punctuation ';' :: rest => return ([(s, bound)], rest)
      | .punctuation ',' :: .punctuation ';' :: rest => return ([(s, bound)], rest)
      | .punctuation ',' :: rest =>
        let (frame, rest) ← readBindings? fuel rest
        return ((s, bound) :: frame, rest)
      | _ => none
  | _ + 1, _ => none

end

/-- The document that is written as a text. -/
def ofString? (s : String) : Option Document := do
  let tokens ← Token.ofChars? s.toList
  match ← read? (2 * tokens.length + 1) tokens with
  | (x, []) => some x
  | _ => none

/-! ### Names in scope -/

/-- The bindings in scope, the innermost frame first. -/
abbrev Scope := List (List (String × Document))

/-- What a name is bound to, and the scope of the binding. Of two bindings of one name that stand
together the last one counts. -/
def Scope.find? (name : String) : Scope → Option (Document × Scope)
  | [] => none
  | frame :: outer =>
    match frame.reverse.lookup name with
    | some bound => some (bound, frame :: outer)
    | none => Scope.find? name outer

mutual

/-- The number of bindings in a document. -/
def bindingCount : Document → Nat
  | negation x | external x => bindingCount x
  | list items => bindingCountItems items
  | object fields => bindingCountFields fields
  | binding frame body => frame.length + bindingCountFields frame + bindingCount body
  | null | bool _ | text _ | number _ | reference _ => 0

/-- The number of bindings in the items of a list. -/
def bindingCountItems : List Document → Nat
  | [] => 0
  | x :: xs => bindingCount x + bindingCountItems xs

/-- The number of bindings in the fields of an object. -/
def bindingCountFields : List (String × Document) → Nat
  | [] => 0
  | (_, x) :: fields => bindingCount x + bindingCountFields fields

end

/-! ### Meaning -/

/-- The first key that occurs twice. -/
def duplicate? : List String → Option String
  | [] => none
  | k :: ks => if ks.contains k then some k else duplicate? ks

/-- A number with the other sign. -/
def negate? : Value → Except DocumentError Value
  | .real x => .ok (.real x.neg)
  | _ => .error .notNumber

/-- A text from outside. -/
def external? (externals : List (String × String)) : Value → Except DocumentError Value
  | .text s =>
    match externals.lookup s with
    | some found => .ok (.text found)
    | none => .error (.unknownVariable s)
  | _ => .error .notText

/-- What a name that is not bound denotes. The source of texts from outside has no fields. -/
def unbound? (name : String) : Except DocumentError Value :=
  if name = sourceName then .ok (.object []) else .error (.unknownName name)

mutual

/-- The data that a document denotes in a scope, by the texts from outside. The number `depth` bounds
the bindings that are entered one inside the other; more of them than there are go in a circle. -/
def evaluateIn? (externals : List (String × String)) (depth : Nat) (scope : Scope)
    (x : Document) : Except DocumentError Value :=
  match x with
  | null => .ok .null
  | bool b => .ok (.bool b)
  | text s => .ok (.text s)
  | number n => .ok (.real n.toDouble)
  | negation x => do negate? (← evaluateIn? externals depth scope x)
  | reference name =>
    match scope.find? name with
    | none => unbound? name
    | some (bound, inner) =>
      match depth with
      | 0 => .error (.circular name)
      | depth + 1 => evaluateIn? externals depth inner bound
  | external source =>
    if (scope.find? sourceName).isSome then .error .notSource
    else do external? externals (← evaluateIn? externals depth scope source)
  | list items => do return .list (← evaluateItems? externals depth scope items)
  | object fields =>
    match duplicate? (fields.map (·.1)) with
    | some key => .error (.duplicateKey key)
    | none => do
      let fields ← evaluateFields? externals depth scope fields
      return .object (insertionSort (fun a b => decide (a.1 < b.1)) fields)
  | binding frame body => evaluateIn? externals depth (frame :: scope) body
termination_by (depth, sizeOf x)

/-- The data that the items of a list denote. -/
def evaluateItems? (externals : List (String × String)) (depth : Nat) (scope : Scope)
    (items : List Document) : Except DocumentError (List Value) :=
  match items with
  | [] => .ok []
  | x :: xs => do
    return (← evaluateIn? externals depth scope x) ::
      (← evaluateItems? externals depth scope xs)
termination_by (depth, sizeOf items)

/-- The data that the fields of an object denote. -/
def evaluateFields? (externals : List (String × String)) (depth : Nat) (scope : Scope)
    (fields : List (String × Document)) : Except DocumentError (List (String × Value)) :=
  match fields with
  | [] => .ok []
  | (k, x) :: fields => do
    return (k, ← evaluateIn? externals depth scope x) ::
      (← evaluateFields? externals depth scope fields)
termination_by (depth, sizeOf fields)

end

/-- The data that a document denotes, by the texts from outside. -/
def evaluate? (externals : List (String × String)) (x : Document) : Except DocumentError Value :=
  x.evaluateIn? externals x.bindingCount []

end Document

/-! ### Whole numbers -/

/-- The integer that the numeral of a whole double denotes; any other double as it is. -/
def Value.ofWholeDouble (x : Double) : Value :=
  match x.toRat? with
  | some r =>
    if r = 0 then .int 0
    else if r.den = 1 then
      let (m, k) := Double.shortestDigits r.abs
      .int ((if r < 0 then -1 else 1) * m * Int.pow 10 k.toNat)
    else .real x
  | none => .real x

namespace Value

mutual

/-- Data with integers for whole doubles. -/
def withIntegers : Value → Value
  | real x => ofWholeDouble x
  | list items => list (withIntegersItems items)
  | tuple items => tuple (withIntegersItems items)
  | object fields => object (withIntegersFields fields)
  | null => null
  | bool b => bool b
  | int n => int n
  | text s => text s

/-- A list of data with integers for whole doubles. -/
def withIntegersItems : List Value → List Value
  | [] => []
  | x :: xs => withIntegers x :: withIntegersItems xs

/-- Fields with integers for whole doubles. -/
def withIntegersFields : List (String × Value) → List (String × Value)
  | [] => []
  | (k, x) :: fields => (k, withIntegers x) :: withIntegersFields fields

end

end Value

/-- The data that a text denotes, by the texts from outside. -/
def evaluateText? (externals : List (String × String)) (s : String) :
    Except DocumentError Value :=
  match Document.ofString? s with
  | none => .error .illFormed
  | some document => do
    let x ← document.evaluate? externals
    match Json.firstInfinity? x with
    | some position => throw (.infinite position)
    | none => return x.withIntegers

end Determinize
