import Determinize.Dfa.Basic

/-!
# Deterministic automata as text and as data

The text of an automaton has a title and, for every state, a header and a line for every symbol of
the alphabet. It exists only if every state has a transition for every symbol, and if what it shows can
be written. The data of an automaton are the start, the alphabet, the accepting states and the
transitions, sets being listed in the order in which they are shown.

## Main definitions

* `Dfa.render?` — the text.
* `Dfa.toValue?` — the data; `Dfa.toValue` is the same whatever the number of digits.
-/

namespace Determinize.Dfa

/-- The words after the members of a state in its header. -/
def markers (d : Dfa) (state : ValueSet) (accepting : Bool) : String :=
  let words := (if state == d.start then ["start"] else []) ++ if accepting then ["accept"] else []
  if words.isEmpty then "" else " (" ++ ", ".intercalate words ++ ")"

/-- The header of a state, whatever the number of digits. -/
def header (d : Dfa) (state : ValueSet) (accepting : Bool) : String :=
  "From state(s) " ++ state.render ++ d.markers state accepting ++ ":"

/-- The line of a transition, whatever the number of digits. -/
def transitionLine (symbol : Value) (target : ValueSet) : String :=
  "  --" ++ symbol.display ++ "--> " ++ target.render

/-- The header of a state, if it can be written. -/
def header? [DigitLimit] (d : Dfa) (state : ValueSet) (accepting : Bool) :
    Except AutomatonError String := do
  return "From state(s) " ++ (← orTooManyDigits state.render?) ++ d.markers state accepting ++ ":"

/-- The line of a state and a symbol, if there is a transition and it can be written. -/
def transitionLine? [DigitLimit] (d : Dfa) (state : ValueSet) (symbol : Value) :
    Except AutomatonError String := do
  let label ← orTooManyDigits symbol.display?
  let target ← d.step? state symbol
  return "  --" ++ label ++ "--> " ++ (← orTooManyDigits target.render?)

/-- The lines of a state. -/
def stateLines? [DigitLimit] (d : Dfa) (state : ValueSet) : Except AutomatonError (List String) := do
  let accepting ← d.isAccepting? state
  let header ← d.header? state accepting
  let symbols ← orTooManyDigits d.alphabet.sorted?
  return header :: (← symbols.mapM (d.transitionLine? state))

/-- The text of an automaton. -/
def render? [DigitLimit] (d : Dfa) : Except AutomatonError String := do
  let blocks ← d.states.toList.mapM d.stateLines?
  return "\n".intercalate ("DFA Transitions:" :: blocks.flatten)

/-- The data of a transition. -/
def recordValue : ValueSet × Value × ValueSet → Value
  | (source, symbol, target) =>
    .object [("source", .list source.sorted), ("symbol", symbol), ("target", .list target.sorted)]

/-- The data of an automaton, whatever the number of digits. -/
def toValue (d : Dfa) : Value :=
  .object [
    ("start", .list d.start.sorted),
    ("alphabet", .list d.alphabet.sorted),
    ("accept_states", .list (d.acceptStates.map fun state => .list state.sorted)),
    ("transitions", .list (d.records.map recordValue))]

variable [DigitLimit]

/-- The list of the members of a set in the order in which they are shown. -/
def listed? (s : ValueSet) : Except AutomatonError Value := do
  return .list (← orTooManyDigits s.sorted?)

/-- The data of a transition. -/
def recordValue? : ValueSet × Value × ValueSet → Except AutomatonError Value
  | (source, symbol, target) => do
    let source ← listed? source
    let target ← listed? target
    return .object [("source", source), ("symbol", symbol), ("target", target)]

/-- The data of an automaton. -/
def toValue? (d : Dfa) : Except AutomatonError Value := do
  let start ← listed? d.start
  let alphabet ← listed? d.alphabet
  let accepting ← d.acceptStates.mapM listed?
  let transitions ← (← d.records?).mapM recordValue?
  return .object [
    ("start", start),
    ("alphabet", alphabet),
    ("accept_states", .list accepting),
    ("transitions", .list transitions)]

end Determinize.Dfa
