import Determinize.Nfa.Closure
import Determinize.Proofs.Collection.Search
import Determinize.Proofs.Nfa.Path
import Mathlib.Data.List.Induction

/-!
# Closures, moves and the states reached by a word

The closure of a set consists of the states at the end of the paths from its members that read
nothing. The successor of a set under a symbol consists of the states at the end of the paths that
first follow a transition with the symbol and then read nothing. Taking successors along a word,
from the closure of the start states on, gives the set of states that the automaton reaches by the
word.

## Main definitions

* `Nfa.Silent` — a path reads nothing.
* `Nfa.reached` — the set of states reached by a word.

## Main results

* `Nfa.closure_induction`, `Nfa.contains_closure_iff` — closures.
* `Nfa.contains_move_iff`, `Nfa.contains_successor_iff` — moves and successors.
* `Nfa.contains_reached_iff` — `Nfa.reached` against `Nfa.Reaches`.
* `Nfa.reached_isSubset_states`, `Nfa.contains_reached_of_silent` — sets that are reached.
-/

namespace Determinize.Nfa

/-- A path from `p` to `q` reads nothing. -/
def Silent (n : Nfa) (p q : Value) : Prop :=
  ∃ labels, n.Path p labels q ∧ n.read labels = []

/-- The set of states reached by a word. -/
def reached (n : Nfa) (word : List Value) : ValueSet :=
  word.foldl n.successor (n.closure n.starts)

variable {n : Nfa} {S T : ValueSet} {p q r a b : Value}

/-! ### Silent paths -/

theorem Silent.refl (h : (p == q) = true) : n.Silent p q := ⟨[], .stop h, rfl⟩

theorem Silent.trans (h : n.Silent p r) (h' : n.Silent r q) : n.Silent p q := by
  obtain ⟨u, hu, hread⟩ := h
  obtain ⟨v, hv, hread'⟩ := h'
  exact ⟨u ++ v, hu.append hv, by rw [read_append, hread, hread', List.append_nil]⟩

theorem Silent.of_edge (h : n.HasEdge p n.marker q) : n.Silent p q :=
  ⟨[n.marker], .of_edge h, by simp [read]⟩

theorem Silent.mono {n' : Nfa} (hmarker : n.marker = n'.marker)
    (hedge : ∀ p a q, n.HasEdge p a q → n'.HasEdge p a q) (h : n.Silent p q) : n'.Silent p q := by
  obtain ⟨u, hu, hread⟩ := h
  exact ⟨u, hu.mono hedge, by rwa [read, ← hmarker]⟩

/-- What holds of a state and passes along marked transitions holds at the end of a silent path. -/
theorem Silent.induction {P : Value → Prop} (h : n.Silent p q) (hp : P p)
    (hcongr : ∀ x y, (x == y) = true → P x → P y)
    (hstep : ∀ x y, n.HasEdge x n.marker y → P x → P y) : P q := by
  obtain ⟨u, hu, hread⟩ := h
  induction hu with
  | stop h => exact hcongr _ _ h hp
  | step edge _ ih =>
    obtain ⟨hmarker, hrest⟩ := List.forall_mem_cons.mp (List.filter_eq_nil_iff.mp hread)
    have hm : n.HasEdge _ n.marker _ := edge.congr BEq.rfl (by simpa using hmarker) BEq.rfl
    exact ih (hstep _ _ hm hp) (List.filter_eq_nil_iff.mpr hrest)

/-! ### Closures -/

/-- The search for a closure, which a closure is the result of. -/
theorem waiting_closure_eq_nil (n : Nfa) (S : ValueSet) :
    ((Search.start .lifo S.toList).run .lifo n.markedTargets
      (S.size + n.transitions.length)).waiting = [] := by
  let nodes := S.toList ++ n.transitions.map fun t => t.2.2
  refine Search.waiting_run_eq_nil nodes (P := (· ∈ nodes))
    (fun x hx => List.mem_append_left _ hx) (fun x _ y hy => ?_)
    (fun x hx => ⟨x, hx, BEq.rfl⟩) ?_
  · obtain ⟨t, ht, -, -, rfl⟩ := exists_mem_transitions_of_mem_targets hy
    exact List.mem_append_right _ (List.mem_map.mpr ⟨t, ht, rfl⟩)
  · simp [nodes, OrderedSet.size]

/-- What holds of the members of a set and passes along marked transitions holds of the members of the
closure, as they are spelled. -/
theorem closure_induction {P : Value → Prop} (hS : ∀ p ∈ S.toList, P p)
    (hstep : ∀ p, P p → ∀ q ∈ n.markedTargets p, P q) : ∀ q ∈ (n.closure S).toList, P q :=
  Search.forall_discovered_run hS hstep _

/-- The closure of a set consists of the states at the end of silent paths from its members. -/
theorem contains_closure_iff :
    (n.closure S).contains q = true ↔ ∃ p, S.contains p = true ∧ n.Silent p q := by
  constructor
  · intro h
    obtain ⟨x, hx, hxq⟩ := OrderedSet.contains_iff.mp h
    have hfound : ∀ x ∈ (n.closure S).toList, ∃ p, S.contains p = true ∧ n.Silent p x := by
      refine closure_induction (fun r hr => ?_) (fun x hx y hy => ?_)
      · exact ⟨r, OrderedSet.contains_of_mem hr, .refl BEq.rfl⟩
      · obtain ⟨p, hp, hpx⟩ := hx
        have hedge := contains_targets_iff.mp (OrderedSet.contains_of_mem hy)
        exact ⟨p, hp, hpx.trans (.of_edge hedge)⟩
    obtain ⟨p, hp, hpx⟩ := hfound x hx
    exact ⟨p, hp, hpx.trans (.refl hxq)⟩
  · rintro ⟨p, hp, hpq⟩
    refine hpq.induction (P := fun q => (n.closure S).contains q = true) ?_ ?_ ?_
    · obtain ⟨x, hx, hxp⟩ := OrderedSet.contains_iff.mp hp
      rw [← OrderedSet.contains_congr _ hxp]
      exact Search.contains_run_of_mem_roots hx _
    · intro x y hxy hx
      rwa [← OrderedSet.contains_congr _ hxy]
    · intro x y hxy hx
      obtain ⟨x', hx', hxx'⟩ := OrderedSet.contains_iff.mp hx
      obtain ⟨y', hy', hyy'⟩ := OrderedSet.contains_iff.mp
        (contains_targets_iff.mpr (hxy.congr (BEq.symm hxx') BEq.rfl BEq.rfl))
      rw [← OrderedSet.contains_congr _ hyy']
      exact ((Search.valid_start _ _ _).run _ _).contains_next (waiting_closure_eq_nil n S) hx' hy'

/-- A closure is closed under silent paths. -/
theorem contains_closure_of_silent (hp : (n.closure S).contains p = true) (hpq : n.Silent p q) :
    (n.closure S).contains q = true := by
  obtain ⟨s, hs, hsp⟩ := contains_closure_iff.mp hp
  exact contains_closure_iff.mpr ⟨s, hs, hsp.trans hpq⟩

/-! ### Moves and successors -/

theorem contains_move_iff {states : List Value} :
    (n.move states a).contains q = true ↔ ∃ p ∈ states, n.HasEdge p a q := by
  simp only [move, OrderedSet.contains_ofList, List.any_flatMap, List.any_eq_true,
    ← contains_targets_iff, OrderedSet.contains_iff]

/-- The successor of a set consists of the states at the end of a transition with the symbol,
followed by a silent path. -/
theorem contains_successor_iff :
    (n.successor S a).contains q = true ↔
      ∃ p r, S.contains p = true ∧ n.HasEdge p a r ∧ n.Silent r q := by
  rw [successor, contains_closure_iff]
  constructor
  · rintro ⟨r, hr, hrq⟩
    obtain ⟨p, hp, hpr⟩ := contains_move_iff.mp hr
    exact ⟨p, r, OrderedSet.contains_of_mem hp, hpr, hrq⟩
  · rintro ⟨p, r, hp, hpr, hrq⟩
    obtain ⟨x, hx, hxp⟩ := OrderedSet.contains_iff.mp hp
    exact ⟨r, contains_move_iff.mpr ⟨x, hx, hpr.congr (BEq.symm hxp) BEq.rfl BEq.rfl⟩, hrq⟩

theorem successor_congr (hS : (S == T) = true) (ha : (a == b) = true) :
    (n.successor S a == n.successor T b) = true := by
  rw [OrderedSet.beq_iff] at hS ⊢
  intro q
  rw [Bool.eq_iff_iff, contains_successor_iff, contains_successor_iff]
  simp only [hS]
  constructor
  · rintro ⟨p, r, hp, hpr, hrq⟩
    exact ⟨p, r, hp, hpr.congr BEq.rfl ha BEq.rfl, hrq⟩
  · rintro ⟨p, r, hp, hpr, hrq⟩
    exact ⟨p, r, hp, hpr.congr BEq.rfl (BEq.symm ha) BEq.rfl, hrq⟩

/-! ### The states reached by a word -/

@[simp] theorem reached_nil (n : Nfa) : n.reached [] = n.closure n.starts := rfl

@[simp] theorem reached_append_singleton (n : Nfa) (word : List Value) (a : Value) :
    n.reached (word ++ [a]) = n.successor (n.reached word) a := by
  simp [reached]

theorem exists_reached_eq_closure (n : Nfa) (word : List Value) :
    ∃ S, n.reached word = n.closure S := by
  cases word using List.reverseRecOn with
  | nil => exact ⟨n.starts, rfl⟩
  | append_singleton word a => exact ⟨_, n.reached_append_singleton word a⟩

theorem reachesFrom_nil_iff :
    n.ReachesFrom S [] q ↔ ∃ p, S.contains p = true ∧ n.Silent p q := by
  constructor
  · rintro ⟨p, u, hp, hu, hread⟩
    exact ⟨p, hp, u, hu, hread⟩
  · rintro ⟨p, hp, u, hu, hread⟩
    exact ⟨p, u, hp, hu, hread⟩

/-- The last symbol of a word is read by a transition, with a silent path after it. -/
theorem reachesFrom_append_singleton_iff {word : List Value} (ha : (a == n.marker) = false) :
    n.ReachesFrom S (word ++ [a]) q ↔
      ∃ p r, n.ReachesFrom S word p ∧ n.HasEdge p a r ∧ n.Silent r q := by
  constructor
  · rintro ⟨s, labels, hs, hpath, hread⟩
    obtain ⟨u, v, rfl, hu, hv⟩ := List.filter_eq_append_iff.mp hread
    obtain ⟨v₁, v₂, rfl, hv₁, -, hv₂⟩ := List.filter_eq_cons_iff.mp hv
    rw [← List.append_assoc] at hpath
    obtain ⟨p, hp, hrest⟩ := hpath.split
    cases hrest with
    | step edge rest =>
      refine ⟨p, _, ⟨s, u ++ v₁, hs, hp, ?_⟩, edge, ⟨v₂, rest, hv₂⟩⟩
      rw [read_append, show n.read v₁ = [] from List.filter_eq_nil_iff.mpr hv₁, List.append_nil]
      exact hu
  · rintro ⟨p, r, ⟨s, u, hs, hu, rfl⟩, edge, ⟨v, hv, hread⟩⟩
    refine ⟨s, u ++ [a] ++ v, hs, (hu.append (.of_edge edge)).append hv, ?_⟩
    rw [read_append, read_append, hread, List.append_nil, read_of_forall_ne_marker (u := [a])]
    simpa using ha

/-- The set of states reached by a word without the marker. -/
theorem contains_reached_iff {word : List Value} (hword : ∀ a ∈ word, (a == n.marker) = false) :
    (n.reached word).contains q = true ↔ n.Reaches word q := by
  induction word using List.reverseRecOn generalizing q with
  | nil => rw [reached_nil, contains_closure_iff, Reaches, reachesFrom_nil_iff]
  | append_singleton word a ih =>
    rw [List.forall_mem_append] at hword
    rw [reached_append_singleton, contains_successor_iff, Reaches,
      reachesFrom_append_singleton_iff (hword.2 a List.mem_cons_self)]
    simp only [ih hword.1, Reaches]

/-! ### Reached sets -/

theorem Silent.contains_states (h : n.Silent p q) (hp : n.states.contains p = true) :
    n.states.contains q = true := by
  obtain ⟨u, hu, -⟩ := h
  exact hu.contains_states hp

theorem closure_isSubset_states (hS : S.isSubset n.states = true) :
    (n.closure S).isSubset n.states = true := by
  rw [OrderedSet.isSubset_iff] at hS ⊢
  intro q hq
  obtain ⟨p, hp, hpq⟩ := contains_closure_iff.mp hq
  exact hpq.contains_states (hS p hp)

theorem move_isSubset_states (n : Nfa) (states : List Value) (a : Value) :
    (n.move states a).isSubset n.states = true := by
  rw [OrderedSet.isSubset_iff]
  intro q hq
  obtain ⟨p, -, hpq⟩ := contains_move_iff.mp hq
  exact hpq.contains_states

theorem successor_isSubset_states (n : Nfa) (S : ValueSet) (a : Value) :
    (n.successor S a).isSubset n.states = true :=
  closure_isSubset_states (n.move_isSubset_states S.toList a)

/-- The states reached by a word are states of the automaton. -/
theorem reached_isSubset_states (n : Nfa) (word : List Value) :
    (n.reached word).isSubset n.states = true := by
  cases word using List.reverseRecOn with
  | nil => exact closure_isSubset_states n.starts_isSubset_states
  | append_singleton word a =>
    rw [reached_append_singleton]
    exact n.successor_isSubset_states (n.reached word) a

/-- From a set that is closed under silent paths, the symbols lead to its successors. -/
theorem contains_successor_iff_reachesFrom (ha : (a == n.marker) = false)
    (hclosed : ∀ p r, S.contains p = true → n.Silent p r → S.contains r = true) :
    (n.successor S a).contains q = true ↔ n.ReachesFrom S [a] q := by
  rw [contains_successor_iff, ← List.nil_append [a], reachesFrom_append_singleton_iff ha]
  constructor
  · rintro ⟨p, r, hp, hedge, hsilent⟩
    exact ⟨p, r, reachesFrom_nil_iff.mpr ⟨p, hp, .refl BEq.rfl⟩, hedge, hsilent⟩
  · rintro ⟨p, r, hp, hedge, hsilent⟩
    obtain ⟨s, hs, hsp⟩ := reachesFrom_nil_iff.mp hp
    exact ⟨p, r, hclosed s p hs hsp, hedge, hsilent⟩

/-- A set reached by a word is closed under silent paths. -/
theorem contains_reached_of_silent {word : List Value} (hp : (n.reached word).contains p = true)
    (hpq : n.Silent p q) : (n.reached word).contains q = true := by
  obtain ⟨S, hS⟩ := n.exists_reached_eq_closure word
  rw [hS] at hp ⊢
  exact contains_closure_of_silent hp hpq

end Determinize.Nfa
