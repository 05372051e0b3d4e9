import Determinize.Proofs.Collection.DepthFirst
import Determinize.Proofs.Collection.Loop
import Determinize.Proofs.Construction.Exploration
import Mathlib.Algebra.Group.Nat.Defs

/-!
# The worklist of a conversion

A conversion is a loop over a worklist of sets of states. The loop ends, first in, first out as
well as last in, first out: all sets that are ever put on the worklist are sets of states of the
automaton, each of them is put there when it is found and never again, and there are only finitely
many. So the loop takes every state of the converted automaton once and nothing else, and it has as
many rounds as the converted automaton has states. There is at least the start, and there are at
most as many states as sets of states.

Last in, first out, the order of discovery is that of recursive visits. The visit of a state notes, in
the order of the alphabet, the states that the symbols lead to and that were not found before. Then
it visits the states it has noted, the last one first. The conversion discovers the states in the
order in which the visit of the start finds them.

## Main results

* `Construction.size_explore_le` — the number of sets that are found.
* `Nfa.exists_loop_closure` — the loop of a closure ends.
* `Nfa.convert?_expands_once` — every state is taken once.
* `Nfa.convert?_lifo_visits` — the order last in, first out.
-/

namespace Determinize

namespace Construction

variable {n : Nfa}

/-- No more sets are found than there are sets of states. -/
theorem size_explore_le (c : Construction) (n : Nfa) :
    (c.explore n).discovered.size ≤ 2 ^ n.states.size := by
  have hcover : ∀ S ∈ (c.explore n).discovered.toList,
      ∃ T ∈ n.states.toList.sublists.map OrderedSet.ofList, (S == T) = true := by
    intro S hS
    obtain ⟨word, -, rfl⟩ := exists_word_of_mem_explore hS
    exact exists_mem_sublists_states (n.reached_isSubset_states word)
  calc (c.explore n).discovered.size
      ≤ (n.states.toList.sublists.map OrderedSet.ofList).length :=
        OrderedSet.size_le_of_covered hcover
    _ = 2 ^ n.states.size := by rw [List.length_map, List.length_sublists, OrderedSet.size]

/-- The start is found. -/
theorem size_explore_pos (c : Construction) (n : Nfa) : 1 ≤ (c.explore n).discovered.size := by
  have hstart : (c.explore n).discovered.contains (n.closure n.starts) = true :=
    Search.contains_run_of_mem_roots List.mem_cons_self _
  obtain ⟨S, hS, -⟩ := OrderedSet.contains_iff.mp hstart
  exact List.length_pos_of_mem hS

/-- The loop of a construction ends with what is explored. -/
theorem exists_loop_explore (c : Construction) (n : Nfa) :
    ∃ taken, Search.Loop c.discipline (c.successors n)
      (.start c.discipline [n.closure n.starts]) taken (c.explore n) :=
  Search.exists_loop_run (waiting_explore_eq_nil c n)

theorem size_dfa (c : Construction) (n : Nfa) :
    (c.dfa n).size = (c.explore n).discovered.size := by
  rw [← states_dfa, Dfa.size, Dfa.states, OrderedMap.size, OrderedMap.keys, OrderedSet.size,
    List.length_map]

end Construction

namespace Nfa

/-- The loop of a closure ends with the closure. -/
theorem exists_loop_closure (n : Nfa) (S : ValueSet) :
    ∃ taken last, Search.Loop .lifo n.markedTargets (.start .lifo S.toList) taken last ∧
      last.discovered = n.closure S := by
  obtain ⟨taken, hloop⟩ := Search.exists_loop_run (waiting_closure_eq_nil n S)
  exact ⟨taken, _, hloop, rfl⟩

/-- A conversion ends, and it takes every state of the converted automaton from the worklist once. So
do the closures on the way. It fails only if a reached set that it reports cannot be written. -/
theorem convert?_expands_once [DigitLimit] (n : Nfa) (symbols : List Value) (d : Discipline)
    (hhash : ∀ a ∈ symbols, a.Hashable) (hfree : ∀ a ∈ symbols, (a == n.marker) = false) :
    (n.marker.Hashable → n.Reportable (.ofList symbols) →
      ∃ c, n.convert? (some (.list symbols)) (.text d.name) = .ok c) ∧
    (n.marker.Hashable → ¬ n.Reportable (.ofList symbols) →
      n.convert? (some (.list symbols)) (.text d.name) = .error .tooManyDigits) ∧
    (∀ S : ValueSet, ∃ taken last,
      Search.Loop .lifo n.markedTargets (.start .lifo S.toList) taken last ∧
        last.discovered = n.closure S) ∧
    ∀ c, n.convert? (some (.list symbols)) (.text d.name) = .ok c →
      (∃ taken last, Search.Loop d (Construction.successors ⟨.ofList symbols, d⟩ n)
        (.start d [n.closure n.starts]) taken last) ∧
      (∀ taken last, Search.Loop d (Construction.successors ⟨.ofList symbols, d⟩ n)
        (.start d [n.closure n.starts]) taken last →
          last.discovered = c.dfa.states ∧ taken.Perm c.dfa.states.toList ∧
          (taken.Pairwise fun S T => (S == T) = false) ∧ taken.length = c.dfa.size) ∧
      1 ≤ c.dfa.size ∧ c.dfa.size ≤ 2 ^ n.states.size := by
  refine ⟨fun hmarker hreportable => ⟨_, convert?_list d hmarker hhash hfree hreportable⟩,
    fun hmarker => convert?_eq_error_of_not_reportable d hmarker hhash hfree,
    n.exists_loop_closure, fun r hr => ?_⟩
  let c : Construction := ⟨.ofList symbols, d⟩
  obtain rfl := of_convert?_list_eq_ok hhash hfree hr
  obtain ⟨taken, hloop⟩ := c.exists_loop_explore n
  rw [Construction.size_dfa, Construction.states_dfa]
  refine ⟨⟨taken, _, hloop⟩, fun taken' last' hloop' => ?_, c.size_explore_pos n,
    c.size_explore_le n⟩
  obtain ⟨rfl, rfl⟩ := hloop.eq_of_loop hloop'
  exact ⟨rfl, hloop.perm_discovered, hloop.distinct, hloop.perm_discovered.length_eq⟩

/-- Last in, first out, four states are taken over an alphabet given with a repetition. -/
theorem convert?_looped_expanded :
    ∃ c taken last,
      looped.convert? (some (.list [.text "b", .text "a", .text "b"])) (.text "lifo") = .ok c ∧
      Search.Loop .lifo
        (Construction.successors ⟨.ofList [.text "b", .text "a", .text "b"], .lifo⟩ looped)
        (.start .lifo [looped.closure looped.starts]) taken last ∧
      taken.Perm c.dfa.states.toList ∧ taken.length = 4 := by
  have hc : looped.convert? (some (.list [.text "b", .text "a", .text "b"])) (.text "lifo") =
      .ok _ := convert?_list .lifo (by decide) (by decide) (by decide) (by decide)
  obtain ⟨-, -, -, h⟩ := convert?_expands_once looped [.text "b", .text "a", .text "b"] .lifo
    (by decide) (by decide)
  obtain ⟨⟨taken, last, hloop⟩, htaken, -⟩ := h _ hc
  obtain ⟨-, hperm, -, hlength⟩ := htaken taken last hloop
  exact ⟨_, taken, last, hc, hloop, hperm, by rw [hlength]; decide⟩

/-! ### Last in, first out -/

/-- Last in, first out, the states are those that the visit of the start finds, in this order. A
conversion fails only if a reached set that it reports cannot be written. -/
theorem convert?_lifo_visits [DigitLimit] (n : Nfa) (symbols : List Value)
    (hmarker : n.marker.Hashable) (hhash : ∀ a ∈ symbols, a.Hashable)
    (hfree : ∀ a ∈ symbols, (a == n.marker) = false) :
    (n.Reportable (.ofList symbols) →
      ∃ c, n.convert? (some (.list symbols)) (.text "lifo") = .ok c ∧
        ∀ found, Visits (fun S => (OrderedSet.ofList symbols).toList.map (n.successor S))
          [c.dfa.start] [c.dfa.start] found ↔ c.dfa.states.toList = found) ∧
    (¬ n.Reportable (.ofList symbols) →
      n.convert? (some (.list symbols)) (.text "lifo") = .error .tooManyDigits) := by
  refine ⟨fun hreportable => ⟨_, convert?_list .lifo hmarker hhash hfree hreportable, fun found => ?_⟩,
    convert?_eq_error_of_not_reportable .lifo hmarker hhash hfree⟩
  have hvisits := Search.visits_run
    (Construction.waiting_explore_eq_nil ⟨OrderedSet.ofList symbols, .lifo⟩ n)
  rw [Construction.states_dfa]
  exact ⟨fun h => hvisits.eq_of_visits h, fun h => h ▸ hvisits⟩

/-- An alphabet given with a repetition, which is noted once. -/
theorem convert?_looped_visits :
    ∃ c, looped.convert? (some (.list [.text "a", .text "b", .text "a"])) (.text "lifo") = .ok c ∧
      Visits (fun S => (OrderedSet.ofList [.text "a", .text "b", .text "a"]).toList.map
        (looped.successor S)) [c.dfa.start] [c.dfa.start] c.dfa.states.toList := by
  obtain ⟨c, hc, hvisits⟩ := (convert?_lifo_visits looped [.text "a", .text "b", .text "a"]
    (by decide) (by decide) (by decide)).1 (by decide)
  exact ⟨c, hc, (hvisits _).mpr rfl⟩

end Nfa

end Determinize
