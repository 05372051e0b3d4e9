import Determinize.Dfa.Basic

/-!
# The parts of a deterministic automaton

A deterministic automaton is kept in three parts: the list of the states, the set of the accepting
states, and the table, which has a row with the targets for every state. An operation changes one part
after the other. One that fails leaves what it has changed so far; that it has not changed anything
has to be seen from the order of its steps.

`Dfa.Store.toDfa` reads the parts together as a table of rows. An accepting state keeps the spelling in
which it was first added as one, which need not be that of the list of states.

## Main definitions

* `Dfa.Store`, `Dfa.Store.new?`, `Dfa.Store.ofDfa`, `Dfa.Store.toDfa`.
* `Dfa.Store.addState`, `Dfa.Store.addTransition`, `Dfa.Store.freeze` — operations.
* `Dfa.Store.step?`, `Dfa.Store.isAccepting?`, `Dfa.Store.hasState`, `Dfa.Store.hasDeadState`,
  `Dfa.Store.records?`.
* the instance `BEq Dfa.Store` — equality of the starts, the alphabets, the accepting states and the tables.
-/

namespace Determinize.Dfa

/-- The parts of a deterministic automaton. -/
structure Store where
  start : ValueSet
  alphabet : ValueSet
  /-- The states, in the order in which they were added. -/
  states : List ValueSet
  accepting : OrderedSet ValueSet
  /-- Where the symbols lead, by states. -/
  table : OrderedMap ValueSet (OrderedMap Value ValueSet)
  frozen : Bool

namespace Store

/-- The parts of the automaton without states. -/
def new? (start alphabet : Value) : Except ShapeError Store := do
  return ⟨← ValueSet.ofValue? start, ← ValueSet.ofValue? alphabet, [], .empty, .empty, false⟩

/-! ### Changing -/

/-- An operation on the parts. It can fail after it has changed some of them. -/
abbrev Operation := EStateM AutomatonError Store

/-- Goes on with a result, or fails. -/
def require {α : Type} : Except AutomatonError α → Operation α
  | .ok x => pure x
  | .error e => throw e

/-- Fails if the automaton is frozen. -/
def requireMutable : Operation Unit := do
  if (← get).frozen then throw .frozen

/-- Fails if the symbol is not in the alphabet. -/
def requireSymbol (symbol : Value) : Operation Unit := do
  require (orShapeError symbol.requireHashable)
  unless (← get).alphabet.contains symbol do throw (.unknownSymbol symbol none)

/-- The set that a collection makes. Fails if it is not a state. -/
def requireState (state : Value) : Operation ValueSet := do
  let key ← require (orShapeError (ValueSet.ofValue? state))
  unless (← get).table.contains key do throw (.unknownState (.states key))
  return key

/-- Adds a state given as a collection, or makes a state accepting that was added before. -/
def addState (state : Value) (accepting : Bool) : Operation ValueSet := do
  requireMutable
  let key ← require (orShapeError (ValueSet.ofValue? state))
  unless (← get).table.contains key do
    modify fun s => { s with states := s.states ++ [key] }
    modify fun s => { s with table := s.table.insert key .empty }
  if accepting then
    modify fun s => { s with accepting := s.accepting.insert key }
  return key

/-- Sets where a symbol leads from a state. The state and the target are given as collections. -/
def addTransition (source symbol target : Value) : Operation Unit := do
  requireMutable
  requireSymbol symbol
  let source ← requireState source
  let target ← require (orShapeError (ValueSet.ofValue? target))
  modify fun s =>
    { s with table := s.table.alter source fun row => (row.getD .empty).insert symbol target }

/-- Makes the automaton one that cannot be changed any more. -/
def freeze : Operation Unit := modify fun s => { s with frozen := true }

/-! ### Reading -/

variable (s : Store)

/-- Whether the set is a state. -/
def hasState (state : ValueSet) : Bool := s.table.contains state

/-- Whether the empty set is a state. -/
def hasDeadState : Bool := s.hasState .empty

/-- The state that a symbol leads to. -/
def step? (state : ValueSet) (symbol : Value) : Except AutomatonError ValueSet :=
  match s.table.find? state with
  | none => .error (.unknownState (.states state))
  | some targets => do
    orShapeError symbol.requireHashable
    if s.alphabet.contains symbol then
      match targets.find? symbol with
      | some target => return target
      | none => throw (.missing (.value symbol))
    else throw (.unknownSymbol symbol (some (.states state)))

/-- Whether a state is accepting. -/
def isAccepting? (state : ValueSet) : Except AutomatonError Bool :=
  if s.hasState state then .ok (s.accepting.contains state)
  else .error (.unknownState (.states state))

/-- The transitions, by states in the order in which these were added and by sorted symbols. -/
def records? [DigitLimit] : Except AutomatonError (List (ValueSet × Value × ValueSet)) := do
  let rows ← s.states.mapM fun source =>
    match s.table.find? source with
    | none => throw (.missing (.states source))
    | some targets => do
      let symbols ← orTooManyDigits (sortSymbols? targets.keys.toList)
      return symbols.filterMap fun symbol =>
        (targets.find? symbol).map fun target => (source, symbol, target)
  return rows.flatten

/-- Equality of the starts, the alphabets, the accepting states and the tables. The list of the states and
whether an automaton is frozen do not count. -/
instance : BEq Store :=
  ⟨fun s t => s.start == t.start && s.alphabet == t.alphabet && s.accepting == t.accepting &&
    s.table.agreesWith t.table fun targets targets' => targets.agreesWith targets' (· == ·)⟩

/-! ### The parts together -/

/-- The automaton whose rows are those of the table. -/
def toDfa : Dfa where
  start := s.start
  alphabet := s.alphabet
  rows := s.table.mapValues fun state targets => ⟨s.accepting.contains state, targets⟩
  frozen := s.frozen

/-- The parts of an automaton that was made at once. -/
def ofDfa (d : Dfa) : Store where
  start := d.start
  alphabet := d.alphabet
  states := d.states.toList
  accepting := d.states.filter fun state => (d.rows.find? state).any (·.accepting)
  table := d.rows.mapValues fun _ row => row.targets
  frozen := d.frozen

end Store

end Determinize.Dfa
