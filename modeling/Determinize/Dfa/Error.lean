import Determinize.Value.Set

/-!
# Errors of automata

## Main definitions

* `AutomatonError`, `AutomatonError.message`.
* `ErrorKind`, `AutomatonError.kinds` — the kinds under which an error can be handled.
-/

namespace Determinize

/-- What an error speaks of: a value, or a state of a deterministic automaton. -/
inductive Subject where
  | value (x : Value)
  | states (s : ValueSet)

/-- The text of a subject. -/
def Subject.quoted : Subject → String
  | value x => x.quoted
  | states s => s.quotedFrozen

/-- An error of an automaton or of the construction of one. -/
inductive AutomatonError where
  /-- An error with a text of its own. -/
  | general (arguments : List Value)
  /-- The marker is a symbol of the alphabet. -/
  | markerInAlphabet (marker : Value)
  /-- The automaton does not have the state. -/
  | unknownState (state : Subject)
  /-- The symbol is not in the alphabet. -/
  | unknownSymbol (symbol : Value) (state : Option Subject)
  /-- The automaton is complete and cannot be changed. -/
  | frozen
  /-- There is no entry with the key. -/
  | missing (key : Subject)
  /-- There is no such order of expansion. -/
  | unknownDiscipline (given : Value)
  /-- A value has the wrong shape. -/
  | shape (fault : ShapeError)
  /-- An integer is to be written that has too many digits. -/
  | tooManyDigits

/-- The kinds under which an error can be handled. -/
inductive ErrorKind where
  | automaton
  | value
  | key
  | lookup
  | runtime
  | type
  deriving DecidableEq

namespace AutomatonError

/-- What is reported when an integer is to be written that has too many digits. -/
def digitsText (limit : Nat) : String :=
  "Exceeds the limit (" ++ toString limit ++
    " digits) for integer string conversion; use sys.set_int_max_str_digits() to increase the limit"

/-- The text of an error, whatever the number of digits in it. -/
def message [DigitLimit] : AutomatonError → String
  | general [] => ""
  | general [x] => x.display
  | general arguments => (Value.tuple arguments).quoted
  | markerInAlphabet marker =>
    "Alphabet must not contain the epsilon symbol " ++ marker.quoted
  | unknownState state => "Unknown DFA state: " ++ state.quoted
  | unknownSymbol symbol none => "Symbol " ++ symbol.quoted ++ " is not in the alphabet"
  | unknownSymbol symbol (some state) =>
    "Symbol " ++ symbol.quoted ++ " is not in the alphabet (state: " ++ state.quoted ++ ")"
  | frozen => "DFA is already constructed and cannot be modified"
  | missing key => key.quoted
  | unknownDiscipline given =>
    "worklist must be one of 'fifo' or 'lifo', got " ++ given.display
  | shape fault => fault.message
  | tooManyDigits => digitsText DigitLimit.maxDigits

/-- The kind of an error of shape. -/
def shapeKinds : ShapeError → List ErrorKind
  | .tooFewItems _ | .tooManyItems => [.value]
  | .unhashable _ | .notIterable _ | .notUnpackable _ => [.type]

/-- The kinds under which an error can be handled. -/
def kinds : AutomatonError → List ErrorKind
  | general _ => [.automaton]
  | markerInAlphabet _ => [.automaton, .value]
  | unknownState _ | unknownSymbol _ _ => [.automaton, .key, .lookup]
  | frozen => [.automaton, .runtime]
  | missing _ => [.key, .lookup]
  | unknownDiscipline _ | tooManyDigits => [.value]
  | shape fault => shapeKinds fault

end AutomatonError

/-- Reports an error of shape as an error of an automaton. -/
def orShapeError {α : Type} (x : Except ShapeError α) : Except AutomatonError α :=
  x.mapError .shape

/-- Reports a text that cannot be written. -/
def orTooManyDigits {α : Type} : Option α → Except AutomatonError α
  | some x => .ok x
  | none => .error .tooManyDigits

end Determinize
