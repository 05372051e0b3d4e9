import Determinize.Collection.OrderedMap
import Determinize.Value.Set

/-!
# Nondeterministic automata

A nondeterministic automaton has start states, accept states and labelled transitions. One label,
its *marker*, is reserved for transitions that read nothing; the marker can be changed, and
transitions keep the label under which they were added. States and symbols are values, and the
states of an automaton are implied by its transitions and its start and accept states.

The transitions are stored by source and then by symbol. Adding a transition looks at the source,
the symbol and the target in this order and makes room on its way: when one of them cannot be a
member of a set, the places made before it remain, empty.

## Main definitions

* `Nfa`, `Nfa.new?`, `Nfa.ofTriples?` — construction.
* `Nfa.add`, `Nfa.addMarked` — adding a transition, possibly without success.
* `Nfa.targets`, `Nfa.transitionsFor?` — the targets of a state and a symbol.
* `Nfa.transitions`, `Nfa.states`, `Nfa.symbols`, `Nfa.isAccepting`.

## Main results

* `Nfa.targets_link` — the targets after adding a transition.
-/

namespace Determinize

/-- A nondeterministic automaton. -/
structure Nfa where
  starts : ValueSet
  accepts : ValueSet
  /-- The label of transitions that read nothing. -/
  marker : Value
  /-- The targets by source and symbol. -/
  edges : OrderedMap Value (OrderedMap Value ValueSet)

namespace Nfa

/-- The marker unless another is given. -/
def defaultMarker : Value := .text "ε"

/-- The automaton without transitions, with the given start and accept states. -/
def new? (starts accepts marker : Value) : Except ShapeError Nfa := do
  return ⟨← ValueSet.ofValue? starts, ← ValueSet.ofValue? accepts, marker, .empty⟩

/-! ### Adding transitions -/

/-- Changes the targets of a source and a symbol, making room for them. -/
def updateTargets (n : Nfa) (source symbol : Value) (f : ValueSet → ValueSet) : Nfa :=
  { n with
    edges := n.edges.alter source fun row =>
      (row.getD .empty).alter symbol fun targets => f (targets.getD .empty) }

/-- Adds a transition between values that can be members of sets. -/
def link (n : Nfa) (source symbol target : Value) : Nfa :=
  n.updateTargets source symbol (·.insert target)

/-- Makes room for transitions of a source. -/
def reserveSource (n : Nfa) (source : Value) : Nfa :=
  { n with edges := n.edges.alter source (·.getD .empty) }

/-- Makes room for transitions of a source and a symbol. -/
def reserveTargets (n : Nfa) (source symbol : Value) : Nfa :=
  n.updateTargets source symbol id

/-- Adds a transition: the fault, if there is one, and the automaton afterwards. -/
def add (n : Nfa) (source symbol target : Value) : Option ShapeError × Nfa :=
  match source.hashFault?, symbol.hashFault?, target.hashFault? with
  | some fault, _, _ => (some fault, n)
  | none, some fault, _ => (some fault, n.reserveSource source)
  | none, none, some fault => (some fault, n.reserveTargets source symbol)
  | none, none, none => (none, n.link source symbol target)

/-- Adds a transition that reads nothing. -/
def addMarked (n : Nfa) (source target : Value) : Option ShapeError × Nfa :=
  n.add source n.marker target

/-- Adds a transition, or fails. -/
def add? (n : Nfa) (source symbol target : Value) : Except ShapeError Nfa :=
  match n.add source symbol target with
  | (some fault, _) => .error fault
  | (none, n') => .ok n'

/-- Adds a transition given as a triple, `null` standing for the marker. -/
def addTriple? (n : Nfa) (triple : Value) : Except ShapeError Nfa := do
  let (source, symbol, target) ← triple.triple?
  n.add? source (if symbol = .null then n.marker else symbol) target

/-- The automaton with the given triples as transitions. -/
def ofTriples? (transitions starts accepts marker : Value) : Except ShapeError Nfa := do
  let n ← new? starts accepts marker
  (← transitions.items?).foldlM addTriple? n

/-! ### Start states, accept states and the marker -/

/-- Adds a start state. -/
def addStart? (n : Nfa) (state : Value) : Except ShapeError Nfa := do
  state.requireHashable
  return { n with starts := n.starts.insert state }

/-- Adds an accept state. -/
def addAccept? (n : Nfa) (state : Value) : Except ShapeError Nfa := do
  state.requireHashable
  return { n with accepts := n.accepts.insert state }

/-- Removes a start state, if it is one. -/
def removeStart? (n : Nfa) (state : Value) : Except ShapeError Nfa := do
  state.requireHashable
  return { n with starts := n.starts.erase state }

/-- Removes an accept state, if it is one. -/
def removeAccept? (n : Nfa) (state : Value) : Except ShapeError Nfa := do
  state.requireHashable
  return { n with accepts := n.accepts.erase state }

/-- Changes the marker. The transitions keep their labels. -/
def setMarker (n : Nfa) (marker : Value) : Nfa := { n with marker }

/-! ### Reading -/

/-- Whether there is room for transitions of the state. -/
def knows (n : Nfa) (state : Value) : Bool := n.edges.contains state

/-- The targets of a state and a symbol. -/
def targets (n : Nfa) (state symbol : Value) : ValueSet :=
  ((n.edges.find? state).bind (·.find? symbol)).getD .empty

/-- The targets of a state and a symbol that may not be members of sets. The symbol is not looked
at if there is no room for transitions of the state. -/
def transitionsFor? (n : Nfa) (state symbol : Value) : Except ShapeError ValueSet := do
  state.requireHashable
  if n.knows state then symbol.requireHashable
  return n.targets state symbol

/-- The transitions, by source, symbol and target in the order in which these were added. -/
def transitions (n : Nfa) : List (Value × Value × Value) :=
  n.edges.entries.flatMap fun (source, row) =>
    row.entries.flatMap fun (symbol, targets) =>
      targets.toList.map fun target => (source, symbol, target)

/-- The start states, the accept states and the ends of the transitions. -/
def states (n : Nfa) : ValueSet :=
  (n.starts.union n.accepts).insertAll
    (n.transitions.flatMap fun (source, _, target) => [source, target])

/-- The labels of transitions that differ from the marker. -/
def symbols (n : Nfa) : ValueSet :=
  OrderedSet.ofList ((n.transitions.map fun (_, symbol, _) => symbol).filter fun symbol =>
    symbol.differs n.marker)

/-- Whether one of the states is an accept state. -/
def isAccepting (n : Nfa) (states : ValueSet) : Bool := !n.accepts.isDisjoint states

/-- A short text: the start and the accept states. -/
def summary? [DigitLimit] (n : Nfa) : Option String := do
  return "NFA(start_states=" ++ (← n.starts.quoted?) ++ ", accept_states=" ++ (← n.accepts.quoted?) ++
    ")"

/-! ### Reading after writing -/

theorem targets_updateTargets (n : Nfa) (source symbol state symbol' : Value)
    (f : ValueSet → ValueSet) :
    (n.updateTargets source symbol f).targets state symbol' =
      if source == state && symbol == symbol' then f (n.targets source symbol)
      else n.targets state symbol' := by
  simp only [targets, updateTargets, OrderedMap.find?_alter]
  by_cases hs : (source == state) = true
  · rw [← n.edges.find?_congr hs]
    cases hrow : n.edges.find? source <;> by_cases ha : (symbol == symbol') = true <;>
      simp [hs, ha, OrderedMap.find?_alter]
  · simp [hs]

/-- Adding a transition adds its target to the targets of its source and symbol. -/
theorem targets_link (n : Nfa) (source symbol target state symbol' : Value) :
    (n.link source symbol target).targets state symbol' =
      if source == state && symbol == symbol' then (n.targets source symbol).insert target
      else n.targets state symbol' :=
  targets_updateTargets ..

end Nfa

end Determinize
