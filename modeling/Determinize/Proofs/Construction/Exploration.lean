import Determinize.Construction
import Determinize.Proofs.Collection.Simulation
import Determinize.Proofs.Construction.SubsetAutomaton
import Determinize.Proofs.Value.Writable
import Mathlib.Data.List.Sublists

/-!
# Runs of the construction make subset automata

A run of the construction explores exactly the sets that are reached by words over its alphabet. It
ends because there are no more of them than sets of states. So what it makes is the subset
automaton, whatever the order of the alphabet and of the expansion. Two runs that explore related
sets do so in lockstep; the automata and the alphabets need not be the same.

A run fails only because a set that it reports cannot be written. It reports all the sets that are
reached but that of the empty word, so whether it fails does not depend on the order either, and it
never does without a limit on digits.

## Main definitions

* `Nfa.Reportable` — the sets that a run reports can be written.

## Main results

* `Construction.exists_word_of_mem_explore`, `Construction.contains_explore_reached` — what a run
  explores.
* `Construction.waiting_explore_eq_nil` — a run ends.
* `Construction.isSubsetAutomaton_dfa` — what a run makes.
* `Nfa.forall₂_closure`, `Construction.forall₂_explore` — closures and runs in lockstep.
* `Construction.reportable_dfa_iff`, `Nfa.convert?_list`, `Nfa.convert?_eq_error_of_not_reportable` —
  which conversions succeed.
-/

namespace Determinize

/-! ### What a run explores -/

namespace Construction

variable {c : Construction} {n : Nfa} {S : ValueSet} {word : List Value}

theorem mem_successors_iff {T : ValueSet} :
    T ∈ c.successors n S ↔ ∃ a ∈ c.alphabet.toList, n.successor S a = T :=
  List.mem_map

/-- Only sets reached by words over the alphabet are explored. -/
theorem exists_word_of_mem_explore (hS : S ∈ (c.explore n).discovered.toList) :
    ∃ word, (∀ a ∈ word, a ∈ c.alphabet.toList) ∧ S = n.reached word := by
  refine Search.forall_discovered_run (P := fun S => ∃ word, (∀ a ∈ word, a ∈ c.alphabet.toList) ∧
    S = n.reached word) (fun T hT => ?_) (fun T hT U hU => ?_) _ S hS
  · exact ⟨[], fun _ ha => absurd ha List.not_mem_nil, List.mem_singleton.mp hT⟩
  · obtain ⟨word, hword, rfl⟩ := hT
    obtain ⟨a, ha, rfl⟩ := mem_successors_iff.mp hU
    refine ⟨word ++ [a], ?_, (Nfa.reached_append_singleton ..).symm⟩
    rw [List.forall_mem_append]
    exact ⟨hword, List.forall_mem_singleton.mpr ha⟩

/-- A set of states has the members of a part of their list. -/
theorem exists_mem_sublists_states (hS : S.isSubset n.states = true) :
    ∃ T ∈ n.states.toList.sublists.map OrderedSet.ofList, (S == T) = true := by
  obtain ⟨members, hmembers, hbeq⟩ := OrderedSet.exists_sublist_of_isSubset hS
  exact ⟨_, List.mem_map.mpr ⟨members, List.mem_sublists.mpr hmembers, rfl⟩, hbeq⟩

/-- The exploration ends: there are no more reached sets than sets of states. -/
theorem waiting_explore_eq_nil (c : Construction) (n : Nfa) : (c.explore n).waiting = [] := by
  refine Search.waiting_run_eq_nil (n.states.toList.sublists.map OrderedSet.ofList)
    (P := fun S => S.isSubset n.states = true) (fun S hS => ?_) (fun S _ T hT => ?_)
    (fun S => exists_mem_sublists_states) ?_
  · rw [List.mem_singleton.mp hS]
    exact n.reached_isSubset_states []
  · obtain ⟨a, -, rfl⟩ := mem_successors_iff.mp hT
    exact n.successor_isSubset_states S a
  · rw [List.length_map, List.length_sublists]
    exact le_refl _

/-- Every set reached by a word over the alphabet is explored. -/
theorem contains_explore_reached (hword : ∀ a ∈ word, c.alphabet.contains a = true) :
    (c.explore n).discovered.contains (n.reached word) = true := by
  induction word using List.reverseRecOn with
  | nil => exact Search.contains_run_of_mem_roots List.mem_cons_self _
  | append_singleton word a ih =>
    rw [List.forall_mem_append] at hword
    obtain ⟨S, hS, hreached⟩ := OrderedSet.contains_iff.mp (ih hword.1)
    obtain ⟨b, hb, hba⟩ := OrderedSet.contains_iff.mp (hword.2 a List.mem_cons_self)
    have hnext := ((Search.valid_start _ _ _).run _ _).contains_next (waiting_explore_eq_nil c n)
      hS (mem_successors_iff.mpr ⟨b, hb, rfl⟩)
    rwa [Nfa.reached_append_singleton,
      ← OrderedSet.contains_congr _ (Nfa.successor_congr hreached hba)]

/-! ### What a run makes -/

theorem states_dfa (c : Construction) (n : Nfa) : (c.dfa n).states = (c.explore n).discovered :=
  OrderedMap.keys_ofKeys ..

theorem acceptStates_dfa (c : Construction) (n : Nfa) :
    (c.dfa n).acceptStates = (c.explore n).discovered.toList.filter n.isAccepting := by
  simp [Dfa.acceptStates, dfa, OrderedMap.ofKeys, row, List.filter_map, Function.comp_def]

theorem find?_rows_dfa (c : Construction) (n : Nfa) (S : ValueSet) :
    (c.dfa n).rows.find? S =
      ((c.explore n).discovered.find? S).map (c.row n (c.explore n).discovered) :=
  OrderedMap.find?_ofKeys ..

/-- The row of a state is that of an equal explored set. -/
theorem exists_of_find?_rows_dfa {row : Dfa.Row} (h : (c.dfa n).rows.find? S = some row) :
    ∃ S', (S' == S) = true ∧ row = c.row n (c.explore n).discovered S' := by
  rw [find?_rows_dfa] at h
  obtain ⟨S', hS', rfl⟩ := Option.map_eq_some_iff.mp h
  exact ⟨S', (OrderedSet.find?_eq_some hS').2, rfl⟩

/-- Targets are spelled as explored sets, but they are the successors. -/
theorem find?_targets_row (c : Construction) (n : Nfa) (states : OrderedSet ValueSet)
    (S : ValueSet) (a : Value) :
    (c.row n states S).targets.find? a = (c.alphabet.find? a).map fun b =>
      (states.find? (n.successor S b)).getD (n.successor S b) :=
  OrderedMap.find?_ofKeys ..

/-- A run makes the subset automaton. -/
theorem isSubsetAutomaton_dfa (c : Construction) (n : Nfa) :
    (c.dfa n).IsSubsetAutomaton n c.alphabet where
  start := BEq.rfl
  alphabet := BEq.rfl
  hasState_iff S := by
    rw [← Dfa.contains_states, states_dfa]
    constructor
    · intro h
      obtain ⟨T, hT, hTS⟩ := OrderedSet.contains_iff.mp h
      obtain ⟨word, hword, rfl⟩ := exists_word_of_mem_explore hT
      exact ⟨word, fun a ha => OrderedSet.contains_of_mem (hword a ha), hTS⟩
    · rintro ⟨word, hword, hreached⟩
      rw [← OrderedSet.contains_congr _ hreached]
      exact contains_explore_reached hword
  accepting S row h := by
    obtain ⟨S', hS', rfl⟩ := exists_of_find?_rows_dfa h
    exact Nfa.isAccepting_congr hS'
  target S row a h ha := by
    obtain ⟨S', hS', rfl⟩ := exists_of_find?_rows_dfa h
    obtain ⟨b, -, hba, hb⟩ := OrderedSet.exists_find?_of_contains ha
    have hsucc := Nfa.successor_congr (n := n) hS' hba
    rw [find?_targets_row, hb]
    refine ⟨_, rfl, ?_⟩
    dsimp only
    cases hfind : (c.explore n).discovered.find? (n.successor S' b) with
    | none => exact hsucc
    | some T => exact BEq.trans (OrderedSet.find?_eq_some hfind).2 hsucc
  no_target S row a h ha := by
    obtain ⟨S', -, rfl⟩ := exists_of_find?_rows_dfa h
    rw [find?_targets_row, OrderedSet.find?_eq_none_iff.mpr ha]
    rfl

/-- The successor of a state is a state. -/
theorem hasState_successor {a : Value} (hS : (c.dfa n).hasState S = true)
    (ha : a ∈ c.alphabet.toList) : (c.dfa n).hasState (n.successor S a) = true :=
  (c.isSubsetAutomaton_dfa n).hasState_of_beq_successor hS (OrderedSet.contains_of_mem ha) BEq.rfl

/-- The first explored set is the closure of the start states. -/
theorem head?_explore (c : Construction) (n : Nfa) :
    (c.explore n).discovered.toList.head? = some (n.closure n.starts) := by
  have hfirst : (Search.start c.discipline [n.closure n.starts]).discovered.toList <+:
      (c.explore n).discovered.toList := Search.prefix_discovered_run _ _
  exact List.singleton_prefix_iff_head?_eq_some.mp hfirst

end Construction

/-! ### Lockstep -/

section Lockstep

variable {n n' : Nfa}

/-- Closures in lockstep. -/
theorem Nfa.forall₂_closure {R : Value → Value → Prop} (hR : RespectsBEq R) {S T : ValueSet}
    (hST : List.Forall₂ R S.toList T.toList)
    (hnext : ∀ p q, R p q → List.Forall₂ R (n.markedTargets p) (n'.markedTargets q)) :
    List.Forall₂ R (n.closure S).toList (n'.closure T).toList :=
  ((Search.inStep_start hR .lifo hST).run_of_waiting_eq_nil hR hnext
    (waiting_closure_eq_nil n S) (waiting_closure_eq_nil n' T)).discovered

/-- Successors are related one by one if they are so under the symbols of the two alphabets. -/
theorem Construction.forall₂_successors {R : ValueSet → ValueSet → Prop} {c c' : Construction}
    {S T : ValueSet} (h : List.Forall₂ (fun a b => R (n.successor S a) (n'.successor T b))
      c.alphabet.toList c'.alphabet.toList) :
    List.Forall₂ R (c.successors n S) (c'.successors n' T) :=
  List.forall₂_map_left_iff.mpr (List.forall₂_map_right_iff.mpr h)

/-- Runs in lockstep. -/
theorem Construction.forall₂_explore {R : ValueSet → ValueSet → Prop} (hR : RespectsBEq R)
    {c c' : Construction} (hdiscipline : c.discipline = c'.discipline)
    (hstart : R (n.closure n.starts) (n'.closure n'.starts))
    (hnext : ∀ S T, R S T → List.Forall₂ R (c.successors n S) (c'.successors n' T)) :
    List.Forall₂ R (c.explore n).discovered.toList (c'.explore n').discovered.toList := by
  obtain ⟨alphabet, discipline⟩ := c
  obtain ⟨alphabet', discipline'⟩ := c'
  subst hdiscipline
  exact ((Search.inStep_start hR discipline (.cons hstart .nil)).run_of_waiting_eq_nil hR hnext
    (waiting_explore_eq_nil ⟨alphabet, discipline⟩ n)
    (waiting_explore_eq_nil ⟨alphabet', discipline⟩ n')).discovered

end Lockstep

/-! ### Sets that are reported -/

section Reportable

variable [DigitLimit] {n : Nfa} {A B : ValueSet}

/-- The sets that the words over an alphabet lead to can be written, apart from that of the empty word,
which is not reported. -/
def Nfa.Reportable (n : Nfa) (alphabet : ValueSet) : Prop :=
  ∀ word, (∀ a ∈ word, alphabet.contains a = true) → (n.reached word == n.reached []) = false →
    (n.reached word).writable = true

theorem Nfa.Reportable.congr (hAB : (A == B) = true) (h : n.Reportable A) : n.Reportable B :=
  fun word hword => h word fun a ha => OrderedSet.beq_iff.mp hAB a ▸ hword a ha

theorem Nfa.reportable_congr (hAB : (A == B) = true) : n.Reportable A ↔ n.Reportable B :=
  ⟨.congr hAB, .congr (BEq.symm hAB)⟩

/-- Without a limit on digits, all sets can be written. -/
theorem Nfa.reportable_of_unlimited (h : DigitLimit.maxDigits = 0) (n : Nfa) (A : ValueSet) :
    n.Reportable A :=
  fun _ _ _ => ValueSet.writable_iff.mpr fun x _ => Value.writable_of_unlimited h x

/-- A run reports the sets that are reached but that of the empty word. -/
theorem Construction.reportable_dfa_iff (c : Construction) (n : Nfa) :
    reportable (c.dfa n) = true ↔ n.Reportable c.alphabet := by
  obtain ⟨others, hothers⟩ := List.head?_eq_some_iff.mp (head?_explore c n)
  have hdistinct := (c.explore n).discovered.distinct
  rw [reportable, states_dfa, hothers, List.drop_succ_cons, List.drop_zero, List.all_eq_true]
  rw [hothers, List.pairwise_cons] at hdistinct
  constructor
  · intro h word hword hne
    obtain ⟨S, hS, hreached⟩ := OrderedSet.contains_iff.mp (contains_explore_reached hword)
    rw [← ValueSet.writable_congr hreached]
    rcases List.mem_cons.mp (hothers ▸ hS) with rfl | hS
    · exact absurd (BEq.symm hreached) (Bool.eq_false_iff.mp hne)
    · exact h S hS
  · intro h S hS
    obtain ⟨word, hword, rfl⟩ :=
      exists_word_of_mem_explore (hothers ▸ List.mem_cons_of_mem _ hS)
    exact h word (fun a ha => OrderedSet.contains_of_mem (hword a ha))
      (BEq.symm_false (hdistinct.1 _ hS))

instance (n : Nfa) (alphabet : ValueSet) : Decidable (n.Reportable alphabet) :=
  decidable_of_iff _ (Construction.reportable_dfa_iff ⟨alphabet, .fifo⟩ n)

end Reportable

/-! ### Conversions -/

namespace Construction

variable [DigitLimit] {n : Nfa} {alphabet worklist : Value} {symbols : ValueSet} {c : Construction}

/-- With an order of expansion and symbols that can be members of a set, only the marker is looked
at. -/
theorem prepare?_eq {d : Discipline} (hd : Discipline.ofValue? worklist = some d)
    (hsymbols : ValueSet.ofValue? alphabet = .ok symbols) :
    prepare? n alphabet worklist =
      if symbols.contains n.marker then .error (.markerInAlphabet n.marker)
      else .ok ⟨symbols, d⟩ := by
  simp only [prepare?, hd, hsymbols, orShapeError]
  change (if symbols.contains n.marker = true then _ else _) = _
  split <;> rfl

/-- A construction that is prepared has an order of expansion and symbols. -/
theorem of_prepare?_eq_ok (h : prepare? n alphabet worklist = .ok c) :
    Discipline.ofValue? worklist = some c.discipline ∧
      ValueSet.ofValue? alphabet = .ok c.alphabet := by
  cases hd : Discipline.ofValue? worklist with
  | none => simp only [prepare?, hd] at h; cases h
  | some d =>
    cases hsymbols : ValueSet.ofValue? alphabet with
    | error fault => simp only [prepare?, hd, hsymbols] at h; cases h
    | ok symbols =>
      rw [prepare?_eq hd hsymbols] at h
      split at h
      · cases h
      · injection h with h
        rw [← h]
        exact ⟨rfl, rfl⟩

theorem prepare?_list {symbols : List Value} (d : Discipline) (hhash : ∀ a ∈ symbols, a.Hashable)
    (hfree : ∀ a ∈ symbols, (a == n.marker) = false) :
    prepare? n (.list symbols) (.text d.name) = .ok ⟨OrderedSet.ofList symbols, d⟩ := by
  rw [prepare?_eq d.ofValue?_name (ValueSet.ofValue?_list hhash),
    OrderedSet.contains_ofList_eq_false hfree, if_neg Bool.false_ne_true]

/-- A run looks at the marker, makes an automaton and fails if this cannot be reported. -/
theorem run?_eq_bind (c : Construction) (n : Nfa) :
    c.run? n = orShapeError (n.requireMarker n.starts) >>= fun _ =>
      if reportable (c.dfa n) then .ok ⟨c.dfa n, events (c.dfa n)⟩ else .error .tooManyDigits := by
  rw [run?]
  refine congrArg (_ >>= ·) (funext fun _ => ?_)
  dsimp only
  generalize c.dfa n = d
  cases reportable d <;> rfl

theorem run?_eq (c : Construction) (h : n.marker.Hashable) :
    c.run? n = if reportable (c.dfa n) then .ok ⟨c.dfa n, events (c.dfa n)⟩
      else .error .tooManyDigits := by
  rw [run?_eq_bind, Nfa.requireMarker, Value.requireHashable_eq_ok h, ite_self]
  rfl

theorem run?_of_hashable (c : Construction) (h : n.marker.Hashable) :
    c.run? n = if n.Reportable c.alphabet then .ok ⟨c.dfa n, events (c.dfa n)⟩
      else .error .tooManyDigits :=
  (c.run?_eq h).trans (if_congr (c.reportable_dfa_iff n) rfl rfl)

/-- A run that succeeds makes the automaton of the sets that it explores. -/
theorem of_run?_eq_ok {r : Conversion} (h : c.run? n = .ok r) :
    r = ⟨c.dfa n, events (c.dfa n)⟩ ∧ n.Reportable c.alphabet := by
  rw [run?_eq_bind] at h
  obtain ⟨⟨⟩, -, h⟩ := exists_of_bind_eq_ok h
  split at h
  · rename_i hreportable
    exact ⟨(Except.ok.inj h).symm, (c.reportable_dfa_iff n).mp hreportable⟩
  · cases h

end Construction

namespace Nfa

variable [DigitLimit] {n : Nfa} {symbols : List Value}

/-- With an alphabet without the marker, a conversion is a run. -/
theorem convert?_list_eq (d : Discipline) (hhash : ∀ a ∈ symbols, a.Hashable)
    (hfree : ∀ a ∈ symbols, (a == n.marker) = false) :
    n.convert? (some (.list symbols)) (.text d.name) =
      Construction.run? ⟨OrderedSet.ofList symbols, d⟩ n := by
  rw [convert?, Option.getD_some, Construction.prepare?_list d hhash hfree]
  rfl

/-- With an alphabet without the marker, a conversion makes the automaton of a run. -/
theorem convert?_list (d : Discipline) (hmarker : n.marker.Hashable)
    (hhash : ∀ a ∈ symbols, a.Hashable) (hfree : ∀ a ∈ symbols, (a == n.marker) = false)
    (hreportable : n.Reportable (.ofList symbols)) :
    n.convert? (some (.list symbols)) (.text d.name) =
      .ok ⟨Construction.dfa ⟨OrderedSet.ofList symbols, d⟩ n,
        Construction.events (Construction.dfa ⟨OrderedSet.ofList symbols, d⟩ n)⟩ := by
  rw [convert?_list_eq d hhash hfree, Construction.run?_of_hashable _ hmarker, if_pos hreportable]

/-- A conversion fails if a set that it reports cannot be written. -/
theorem convert?_eq_error_of_not_reportable (d : Discipline) (hmarker : n.marker.Hashable)
    (hhash : ∀ a ∈ symbols, a.Hashable) (hfree : ∀ a ∈ symbols, (a == n.marker) = false)
    (hreportable : ¬ n.Reportable (.ofList symbols)) :
    n.convert? (some (.list symbols)) (.text d.name) = .error .tooManyDigits := by
  rw [convert?_list_eq d hhash hfree, Construction.run?_of_hashable _ hmarker, if_neg hreportable]

/-- A conversion that succeeds makes the automaton of a run. -/
theorem of_convert?_list_eq_ok {d : Discipline} {r : Conversion}
    (hhash : ∀ a ∈ symbols, a.Hashable) (hfree : ∀ a ∈ symbols, (a == n.marker) = false)
    (h : n.convert? (some (.list symbols)) (.text d.name) = .ok r) :
    r = ⟨Construction.dfa ⟨OrderedSet.ofList symbols, d⟩ n,
      Construction.events (Construction.dfa ⟨OrderedSet.ofList symbols, d⟩ n)⟩ := by
  rw [convert?_list_eq d hhash hfree] at h
  exact (Construction.of_run?_eq_ok h).1

end Nfa

end Determinize
