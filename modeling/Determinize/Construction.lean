import Determinize.Dfa.Basic
import Determinize.Log.Event
import Determinize.Nfa.Closure

/-!
# Subset construction

A construction is prepared from an alphabet without the marker and an order of expansion, and can
then be run on an automaton as often as wanted. A run searches the sets of states that are reachable
from the closure of the start states; these become the states of the deterministic automaton, in the
order of their discovery, the empty set among them if it is reached. A state accepts if one of its
members does. Every state but the start is reported with its members in the order of their texts, so
the run fails if one of these states cannot be written.

The alphabet is compared with the marker when the construction is prepared, and not again when it
is run.

## Main definitions

* `Construction`, `Construction.prepare?`.
* `Construction.explore`, `Construction.dfa`, `Construction.events` — a run on an automaton.
* `Construction.reportable`, `Construction.run?`, `Nfa.convert?`.
-/

namespace Determinize

/-- The order of expansion with the given name. -/
def Discipline.ofValue? : Value → Option Discipline
  | .text "fifo" => some fifo
  | .text "lifo" => some lifo
  | _ => none

theorem Discipline.ofValue?_name (d : Discipline) : ofValue? (.text d.name) = some d := by
  cases d <;> rfl

/-- A prepared construction. -/
structure Construction where
  /-- The symbols to explore, in this order. -/
  alphabet : ValueSet
  discipline : Discipline

/-- A deterministic automaton and what its construction reported. -/
structure Conversion where
  dfa : Dfa
  events : List Event

namespace Construction

variable [DigitLimit]

/-- Prepares a construction with the given alphabet and order of expansion. -/
def prepare? (n : Nfa) (alphabet worklist : Value) : Except AutomatonError Construction := do
  match Discipline.ofValue? worklist with
  | none => throw (if worklist.writable then .unknownDiscipline worklist else .tooManyDigits)
  | some discipline =>
    let alphabet ← orShapeError (ValueSet.ofValue? alphabet)
    if alphabet.contains n.marker then throw (.markerInAlphabet n.marker)
    return ⟨alphabet, discipline⟩

/-- The states that the symbols lead to from a state, in the order of the alphabet. -/
def successors (c : Construction) (n : Nfa) (state : ValueSet) : List ValueSet :=
  c.alphabet.toList.map (n.successor state)

/-- The search of the sets of states that are reachable from the start. There are no more of them
than sets of states. -/
def explore (c : Construction) (n : Nfa) : Search ValueSet :=
  (Search.start c.discipline [n.closure n.starts]).run c.discipline (c.successors n)
    (Nat.pow 2 n.states.size)

/-- The row of a state. A target is spelled as the equal member of `states`. -/
def row (c : Construction) (n : Nfa) (states : OrderedSet ValueSet) (state : ValueSet) : Dfa.Row where
  accepting := n.isAccepting state
  targets := .ofKeys c.alphabet fun symbol =>
    let target := n.successor state symbol
    (states.find? target).getD target

/-- The deterministic automaton of the sets that are reachable from the start. -/
def dfa (c : Construction) (n : Nfa) : Dfa :=
  let states := (c.explore n).discovered
  { start := n.closure n.starts
    alphabet := c.alphabet
    rows := .ofKeys states (c.row n states)
    frozen := true }

/-- What a run reports: the states after the first as they are discovered, then a summary. -/
def events (d : Dfa) : List Event :=
  (d.states.toList.drop 1).map .discovered ++
    [.constructed d.size d.acceptStates.length d.alphabet.size]

/-- Whether all the states of an automaton that are reported can be written. -/
def reportable (d : Dfa) : Bool := (d.states.toList.drop 1).all ValueSet.writable

/-- Runs the construction on an automaton. -/
def run? (c : Construction) (n : Nfa) : Except AutomatonError Conversion := do
  orShapeError (n.requireMarker n.starts)
  let dfa := c.dfa n
  unless reportable dfa do throw .tooManyDigits
  return ⟨dfa, events dfa⟩

end Construction

/-- Converts an automaton. Without an alphabet, the symbols of the automaton are explored. -/
def Nfa.convert? [DigitLimit] (n : Nfa) (alphabet : Option Value) (worklist : Value) :
    Except AutomatonError Conversion := do
  let alphabet := alphabet.getD (.list n.symbols.toList)
  (← Construction.prepare? n alphabet worklist).run? n

end Determinize
