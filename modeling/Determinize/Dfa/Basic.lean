import Determinize.Collection.OrderedMap
import Determinize.Dfa.Error

/-!
# Deterministic automata

The states of a deterministic automaton are sets of values. Each state has a row, which says whether
the state is accepting and which state each symbol leads to; the rows are in the order in which the
states were added. A transition may lead to a set that is not a state. Once it is frozen, an
automaton cannot be changed.

## Main definitions

* `Dfa`, `Dfa.Row`, `Dfa.new?`, `Dfa.addState?`, `Dfa.addTransition?`, `Dfa.freeze`.
* `Dfa.states`, `Dfa.acceptStates`, `Dfa.step?`, `Dfa.isAccepting?`, `Dfa.records`, `Dfa.walk`.
* the instance `BEq Dfa` — equality of starts, alphabets, states, transitions and accept states.
-/

namespace Determinize

/-- What an automaton knows of a state. -/
structure Dfa.Row where
  accepting : Bool
  /-- Where the symbols lead. -/
  targets : OrderedMap Value ValueSet

/-- A deterministic automaton. -/
structure Dfa where
  start : ValueSet
  alphabet : ValueSet
  /-- The rows of the states. -/
  rows : OrderedMap ValueSet Dfa.Row
  frozen : Bool

namespace Dfa

/-- The automaton without states. -/
def new? (start alphabet : Value) : Except ShapeError Dfa := do
  return ⟨← ValueSet.ofValue? start, ← ValueSet.ofValue? alphabet, .empty, false⟩

/-! ### Reading -/

/-- The states, in the order in which they were added. -/
def states (d : Dfa) : OrderedSet ValueSet := d.rows.keys

/-- The number of states. -/
def size (d : Dfa) : Nat := d.rows.size

/-- The accepting states, in the order of the states and spelled like these. -/
def acceptStates (d : Dfa) : List ValueSet :=
  (d.rows.entries.filter fun entry => entry.2.accepting).map (·.1)

/-- Whether the set is a state. -/
def hasState (d : Dfa) (state : ValueSet) : Bool := d.rows.contains state

/-- Whether the empty set, in which every word is refused, is a state. -/
def hasDeadState (d : Dfa) : Bool := d.hasState .empty

/-- The state that a symbol leads to. -/
def step? (d : Dfa) (state : ValueSet) (symbol : Value) : Except AutomatonError ValueSet :=
  match d.rows.find? state with
  | none => .error (.unknownState (.states state))
  | some row => do
    orShapeError symbol.requireHashable
    if d.alphabet.contains symbol then
      match row.targets.find? symbol with
      | some target => return target
      | none => throw (.missing (.value symbol))
    else throw (.unknownSymbol symbol (some (.states state)))

/-- Whether a state is accepting. -/
def isAccepting? (d : Dfa) (state : ValueSet) : Except AutomatonError Bool :=
  match d.rows.find? state with
  | none => .error (.unknownState (.states state))
  | some row => .ok row.accepting

/-- The transitions of a state, by the given symbols. -/
def Row.records (row : Row) (source : ValueSet) (symbols : List Value) :
    List (ValueSet × Value × ValueSet) :=
  symbols.filterMap fun symbol =>
    (row.targets.find? symbol).map fun target => (source, symbol, target)

/-- The transitions, by states in the order in which these were added and by sorted symbols, whatever
the number of digits. -/
def records (d : Dfa) : List (ValueSet × Value × ValueSet) :=
  d.rows.entries.flatMap fun (source, row) =>
    row.records source (sortSymbols row.targets.keys.toList)

/-- The transitions, by states in the order in which these were added and by sorted symbols. -/
def records? [DigitLimit] (d : Dfa) : Except AutomatonError (List (ValueSet × Value × ValueSet)) := do
  let rows ← d.rows.entries.mapM fun (source, row) => do
    return row.records source (← orTooManyDigits (sortSymbols? row.targets.keys.toList))
  return rows.flatten

/-- A short text: the start and the numbers of states. -/
def summary? [DigitLimit] (d : Dfa) : Except AutomatonError String := do
  let start ← orTooManyDigits (d.start.sorted?.bind fun members => (Value.list members).quoted?)
  return "DFA(start=" ++ start ++ ", num_states=" ++ toString d.size ++
    ", num_accept_states=" ++ toString d.acceptStates.length ++ ")"

/-! ### Changing -/

/-- Fails if the automaton is frozen. -/
def requireMutable (d : Dfa) : Except AutomatonError Unit :=
  if d.frozen then .error .frozen else .ok ()

/-- Adds a state, or makes a state accepting that was added before. -/
def addState (d : Dfa) (state : ValueSet) (accepting : Bool) : Dfa :=
  { d with
    rows := d.rows.alter state fun
      | some row => { row with accepting := row.accepting || accepting }
      | none => ⟨accepting, .empty⟩ }

/-- Adds a state given as a collection. -/
def addState? (d : Dfa) (state : Value) (accepting : Bool) :
    Except AutomatonError (ValueSet × Dfa) := do
  d.requireMutable
  let state ← orShapeError (ValueSet.ofValue? state)
  return (state, d.addState state accepting)

/-- Sets where a symbol leads from a state. -/
def setTarget (d : Dfa) (source : ValueSet) (symbol : Value) (target : ValueSet) : Dfa :=
  { d with
    rows := d.rows.alter source fun row =>
      let row := row.getD ⟨false, .empty⟩
      { row with targets := row.targets.insert symbol target } }

/-- Adds a transition between a state and a set, given as collections. -/
def addTransition? (d : Dfa) (source symbol target : Value) : Except AutomatonError Dfa := do
  d.requireMutable
  orShapeError symbol.requireHashable
  unless d.alphabet.contains symbol do throw (.unknownSymbol symbol none)
  let source ← orShapeError (ValueSet.ofValue? source)
  unless d.hasState source do throw (.unknownState (.states source))
  let target ← orShapeError (ValueSet.ofValue? target)
  return d.setTarget source symbol target

/-- The automaton, which cannot be changed any more. -/
def freeze (d : Dfa) : Dfa := { d with frozen := true }

/-- What setting a transition in a copy of the table reports. The automaton stays as it is. -/
def setInCopy? (d : Dfa) (state symbol target : Value) : Except AutomatonError Unit := do
  discard (orShapeError (ValueSet.ofValue? target))
  let state ← orShapeError (ValueSet.ofValue? state)
  unless d.hasState state do throw (.missing (.states state))
  orShapeError symbol.requireHashable

/-! ### Walks -/

/-- A walk along a word: the states on the way, and whether the last one is accepting or what went
wrong. -/
structure Walk where
  path : List ValueSet
  outcome : Except AutomatonError Bool

/-- The walk along a word from a state. -/
def walkFrom (d : Dfa) (state : ValueSet) : List Value → Walk
  | [] => ⟨[state], d.isAccepting? state⟩
  | symbol :: word =>
    match d.step? state symbol with
    | .error e => ⟨[state], .error e⟩
    | .ok next =>
      let rest := d.walkFrom next word
      ⟨state :: rest.path, rest.outcome⟩

/-- The walk along a word from the start. -/
def walk (d : Dfa) (word : List Value) : Walk := d.walkFrom d.start word

/-! ### Equality -/

/-- Whether two rows accept alike and lead to equal states. -/
def Row.agrees (r s : Row) : Bool :=
  r.accepting == s.accepting && r.targets.agreesWith s.targets (· == ·)

/-- Equality of starts, alphabets, states, transitions and accept states, whatever their order and
whether the automata are frozen. -/
instance : BEq Dfa :=
  ⟨fun d e => d.start == e.start && d.alphabet == e.alphabet && d.rows.agreesWith e.rows Row.agrees⟩

end Dfa

end Determinize
