import Determinize.Collection.Search
import Determinize.Nfa.Basic

/-!
# Closure and moves

The closure of a set of states consists of the states that can be reached from it by transitions
labelled with the marker. It is found by a search from the given states. The move of a set of states
under a symbol consists of the targets of its members.

`Nfa.closure?` and `Nfa.move?` are the same for values that may have the wrong shape. A marker that
cannot be a member of a set is noticed as soon as a state with room for transitions is looked at.

## Main definitions

* `Nfa.closure`, `Nfa.closure?`.
* `Nfa.move`, `Nfa.move?`.
* `Nfa.successor` — the closure of a move.
-/

namespace Determinize.Nfa

/-- The targets of a state under the marker. -/
def markedTargets (n : Nfa) (state : Value) : List Value :=
  (n.targets state n.marker).toList

/-- The states that can be reached from the given ones by marked transitions. -/
def closure (n : Nfa) (states : ValueSet) : ValueSet :=
  let bound := states.size + n.transitions.length
  ((Search.start .lifo states.toList).run .lifo n.markedTargets bound).discovered

/-- Fails if a search from these states would look at a marker that cannot be a member of a set. -/
def requireMarker (n : Nfa) (states : ValueSet) : Except ShapeError Unit :=
  if states.toList.any n.knows then n.marker.requireHashable else .ok ()

/-- The closure of a collection of states. -/
def closure? (n : Nfa) (states : Value) : Except ShapeError ValueSet := do
  let states ← ValueSet.ofValue? states
  n.requireMarker states
  return n.closure states

/-- The targets of the given states under a symbol. -/
def move (n : Nfa) (states : List Value) (symbol : Value) : ValueSet :=
  OrderedSet.ofList (states.flatMap fun state => (n.targets state symbol).toList)

/-- The targets of a collection of states under a symbol. -/
def move? (n : Nfa) (states symbol : Value) : Except ShapeError ValueSet := do
  let states ← states.items?
  states.forM fun state => discard (n.transitionsFor? state symbol)
  return n.move states symbol

/-- The states that can be reached from the given ones by one transition with the symbol, followed
by marked transitions. -/
def successor (n : Nfa) (states : ValueSet) (symbol : Value) : ValueSet :=
  n.closure (n.move states.toList symbol)

end Determinize.Nfa
