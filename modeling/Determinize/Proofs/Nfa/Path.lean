import Determinize.Nfa.Basic
import Determinize.Proofs.Collection.Member
import Determinize.Proofs.Value.Equality

/-!
# Paths and the language of a nondeterministic automaton

A path follows transitions from state to state and collects their labels. What it *reads* are the
labels other than the marker. The automaton reaches a state by a word if a path from a start state
to it reads the word, and accepts the word if it reaches an accept state by it.

States and labels are compared by `==` throughout, so a path may be spelled with any values that
equal those of the transitions.

## Main definitions

* `Nfa.HasEdge`, `Nfa.Path`, `Nfa.read` — transitions, paths and what they read.
* `Nfa.ReachesFrom`, `Nfa.Reaches`, `Nfa.Accepts` — the states reached by a word, and the language.
* `Nfa.Labels` — the labels of the transitions.

## Main results

* `Nfa.contains_targets_iff` — the stored targets are those of the transitions.
* `Nfa.Path.append`, `Nfa.Path.split` — joining and cutting paths.
-/

namespace Determinize.Nfa

/-- The automaton has a transition from `p` to `q` labelled `a`. -/
def HasEdge (n : Nfa) (p a q : Value) : Prop :=
  ∃ t ∈ n.transitions, (t.1 == p) = true ∧ (t.2.1 == a) = true ∧ (t.2.2 == q) = true

instance (n : Nfa) (p a q : Value) : Decidable (n.HasEdge p a q) :=
  inferInstanceAs (Decidable (∃ t ∈ n.transitions, _))

/-- A path with its first state, the labels of its transitions and its last state. -/
inductive Path (n : Nfa) : Value → List Value → Value → Prop
  | stop {p q : Value} (h : (p == q) = true) : Path n p [] q
  | step {p a r q : Value} {u : List Value} (edge : n.HasEdge p a r) (rest : Path n r u q) :
      Path n p (a :: u) q

/-- What a path with the given labels reads: the labels other than the marker. -/
def read (n : Nfa) (labels : List Value) : List Value :=
  labels.filter fun a => !(a == n.marker)

/-- A path from one of the states to `q` reads the word. -/
def ReachesFrom (n : Nfa) (states : ValueSet) (word : List Value) (q : Value) : Prop :=
  ∃ p labels, states.contains p = true ∧ n.Path p labels q ∧ n.read labels = word

/-- A path from a start state to `q` reads the word. -/
def Reaches (n : Nfa) (word : List Value) (q : Value) : Prop := n.ReachesFrom n.starts word q

/-- A transition is labelled `a`. -/
def Labels (n : Nfa) (a : Value) : Prop := ∃ t ∈ n.transitions, (t.2.1 == a) = true

instance (n : Nfa) (a : Value) : Decidable (n.Labels a) :=
  inferInstanceAs (Decidable (∃ t ∈ n.transitions, _))

/-- A path from a start state to an accept state reads the word. -/
def Accepts (n : Nfa) (word : List Value) : Prop :=
  ∃ q, n.accepts.contains q = true ∧ n.Reaches word q

variable {n : Nfa} {p q r a b : Value} {u v : List Value}

/-! ### Transitions -/

theorem mem_transitions_iff {t : Value × Value × Value} :
    t ∈ n.transitions ↔
      ∃ row, (t.1, row) ∈ n.edges.entries ∧
        ∃ targets, (t.2.1, targets) ∈ row.entries ∧ t.2.2 ∈ targets.toList := by
  obtain ⟨source, symbol, target⟩ := t
  simp only [transitions, List.mem_flatMap, List.mem_map, Prod.mk.injEq, Prod.exists]
  constructor
  · rintro ⟨_, row, hrow, _, targets, htargets, _, htarget, rfl, rfl, rfl⟩
    exact ⟨row, hrow, targets, htargets, htarget⟩
  · rintro ⟨row, hrow, targets, htargets, htarget⟩
    exact ⟨source, row, hrow, symbol, targets, htargets, target, htarget, rfl, rfl, rfl⟩

/-- The target of a transition, as it is stored. -/
theorem exists_mem_transitions_of_mem_targets (h : q ∈ (n.targets p a).toList) :
    ∃ t ∈ n.transitions, (t.1 == p) = true ∧ (t.2.1 == a) = true ∧ t.2.2 = q := by
  rw [targets] at h
  cases hrow : n.edges.find? p with
  | none => simp [hrow, OrderedSet.empty] at h
  | some row =>
    cases htargets : row.find? a with
    | none => simp [hrow, htargets, OrderedSet.empty] at h
    | some targets =>
      obtain ⟨p', hp', hp⟩ := OrderedMap.find?_eq_some_iff.mp hrow
      obtain ⟨a', ha', ha⟩ := OrderedMap.find?_eq_some_iff.mp htargets
      have hq : q ∈ targets.toList := by simpa [hrow, htargets] using h
      exact ⟨(p', a', q), mem_transitions_iff.mpr ⟨row, hp', targets, ha', hq⟩, hp, ha, rfl⟩

/-- The stored targets of a state and a label are those of the transitions. -/
theorem contains_targets_iff : (n.targets p a).contains q = true ↔ n.HasEdge p a q := by
  constructor
  · intro h
    obtain ⟨x, hx, hxq⟩ := OrderedSet.contains_iff.mp h
    obtain ⟨t, ht, hp, ha, rfl⟩ := exists_mem_transitions_of_mem_targets hx
    exact ⟨t, ht, hp, ha, hxq⟩
  · rintro ⟨⟨p', a', x⟩, ht, hp, ha, hq⟩
    obtain ⟨row, hrow, targets, htargets, hx⟩ := mem_transitions_iff.mp ht
    rw [Nfa.targets, OrderedMap.find?_eq_some_of_mem hrow hp, Option.bind_some,
      OrderedMap.find?_eq_some_of_mem htargets ha, Option.getD_some]
    exact OrderedSet.contains_iff.mpr ⟨x, hx, hq⟩

theorem HasEdge.congr {p' a' q' : Value} (h : n.HasEdge p a q) (hp : (p == p') = true)
    (ha : (a == a') = true) (hq : (q == q') = true) : n.HasEdge p' a' q' := by
  obtain ⟨t, ht, htp, hta, htq⟩ := h
  exact ⟨t, ht, BEq.trans htp hp, BEq.trans hta ha, BEq.trans htq hq⟩

theorem targets_congr {p' a' : Value} (hp : (p == p') = true) (ha : (a == a') = true) :
    n.targets p a = n.targets p' a' := by
  simp only [targets, n.edges.find?_congr hp, OrderedMap.find?_congr _ ha]

theorem not_hasEdge_empty {starts accepts : ValueSet} {marker : Value} :
    ¬ (⟨starts, accepts, marker, .empty⟩ : Nfa).HasEdge p a q := by
  rintro ⟨t, ht, -⟩
  exact absurd ht List.not_mem_nil

/-! ### Symbols and states of the automaton -/

/-- The symbols are the labels that differ from the marker. -/
theorem contains_symbols_iff :
    n.symbols.contains a = true ↔ n.Labels a ∧ a.differs n.marker = true := by
  rw [symbols, OrderedSet.contains_ofList_iff]
  simp only [List.mem_filter, List.mem_map]
  constructor
  · rintro ⟨_, ⟨⟨t, ht, rfl⟩, hmarker⟩, hta⟩
    exact ⟨⟨t, ht, hta⟩, Value.differs_congr hta ▸ hmarker⟩
  · rintro ⟨⟨t, ht, hta⟩, hmarker⟩
    exact ⟨_, ⟨⟨t, ht, rfl⟩, (Value.differs_congr hta).trans hmarker⟩, hta⟩

theorem contains_states_iff :
    n.states.contains q = true ↔
      n.starts.contains q = true ∨ n.accepts.contains q = true ∨
        ∃ t ∈ n.transitions, (t.1 == q) = true ∨ (t.2.2 == q) = true := by
  simp only [states, OrderedSet.contains_insertAll, OrderedSet.contains_union, Bool.or_eq_true,
    List.any_flatMap, List.any_eq_true, List.any_cons, List.any_nil, Bool.or_false, or_assoc]

theorem contains_states_of_mem {t : Value × Value × Value} (ht : t ∈ n.transitions) :
    n.states.contains t.1 = true ∧ n.states.contains t.2.2 = true :=
  ⟨contains_states_iff.mpr (.inr (.inr ⟨t, ht, .inl BEq.rfl⟩)),
    contains_states_iff.mpr (.inr (.inr ⟨t, ht, .inr BEq.rfl⟩))⟩

theorem starts_isSubset_states (n : Nfa) : n.starts.isSubset n.states = true :=
  OrderedSet.isSubset_iff.mpr fun _ hp => contains_states_iff.mpr (.inl hp)

theorem accepts_isSubset_states (n : Nfa) : n.accepts.isSubset n.states = true :=
  OrderedSet.isSubset_iff.mpr fun _ hp => contains_states_iff.mpr (.inr (.inl hp))

/-- The target of a transition is a state of the automaton. -/
theorem HasEdge.contains_states (h : n.HasEdge p a q) : n.states.contains q = true := by
  obtain ⟨t, ht, -, -, hq⟩ := h
  exact contains_states_iff.mpr (Or.inr (Or.inr ⟨t, ht, Or.inr hq⟩))

/-! ### Paths -/

theorem Path.congr_left (h : n.Path p u q) (hp : (r == p) = true) : n.Path r u q := by
  cases h with
  | stop h => exact .stop (BEq.trans hp h)
  | step edge rest => exact .step (edge.congr (BEq.symm hp) BEq.rfl BEq.rfl) rest

theorem Path.append (h : n.Path p u r) (h' : n.Path r v q) : n.Path p (u ++ v) q := by
  induction h with
  | stop h => exact h'.congr_left h
  | step edge _ ih => exact .step edge (ih h')

theorem Path.split (h : n.Path p (u ++ v) q) : ∃ r, n.Path p u r ∧ n.Path r v q := by
  induction u generalizing p with
  | nil => exact ⟨p, .stop BEq.rfl, h⟩
  | cons a u ih =>
    cases h with
    | step edge rest =>
      obtain ⟨r, hu, hv⟩ := ih rest
      exact ⟨r, .step edge hu, hv⟩

/-- A path remains one if no transition is lost. -/
theorem Path.mono {n' : Nfa} (hedge : ∀ p a q, n.HasEdge p a q → n'.HasEdge p a q)
    (h : n.Path p u q) : n'.Path p u q := by
  induction h with
  | stop h => exact .stop h
  | step edge _ ih => exact .step (hedge _ _ _ edge) ih

theorem Path.of_edge (h : n.HasEdge p a q) : n.Path p [a] q := .step h (.stop BEq.rfl)

/-- The last state of a path is a state of the automaton if the first one is. -/
theorem Path.contains_states (h : n.Path p u q) (hp : n.states.contains p = true) :
    n.states.contains q = true := by
  induction h with
  | stop h => rwa [← OrderedSet.contains_congr n.states h]
  | step edge _ ih => exact ih edge.contains_states

@[simp] theorem read_append (n : Nfa) (u v : List Value) : n.read (u ++ v) = n.read u ++ n.read v :=
  List.filter_append ..

theorem read_of_forall_ne_marker (h : ∀ a ∈ u, (a == n.marker) = false) : n.read u = u :=
  List.filter_eq_self.mpr fun a ha => by simp [h a ha]

theorem Path.labels_of_mem (h : n.Path p u q) (ha : a ∈ u) : n.Labels a := by
  induction h with
  | stop => exact absurd ha List.not_mem_nil
  | step edge _ ih =>
    rcases List.mem_cons.mp ha with rfl | ha
    · obtain ⟨t, ht, -, hlabel, -⟩ := edge
      exact ⟨t, ht, hlabel⟩
    · exact ih ha

/-! ### Words -/

/-- The symbols of an accepted word label transitions. -/
theorem Accepts.labels_of_mem (h : n.Accepts u) (ha : a ∈ u) : n.Labels a := by
  obtain ⟨q, -, p, labels, -, hpath, rfl⟩ := h
  exact hpath.labels_of_mem (List.mem_of_mem_filter ha)

/-! ### An automaton with a cycle of marked transitions -/

/-- Two start states, a cycle of marked transitions between `0` and `"x"`, and an accept state
whose spelling as a target differs from that as an accept state. -/
def looped : Nfa :=
  ((((⟨.ofList [.int 0, .null], .ofList [.tuple [.int 1]], .text "ε", .empty⟩ : Nfa).link
    (.int 0) (.text "ε") (.text "x")).link (.text "x") (.text "ε") (.int 0)).link
    (.text "x") (.text "a") (.tuple [.bool true])).link .null (.text "b") .null

/-- The word `a` is accepted along a path that goes around the cycle. -/
theorem looped_accepts_a : looped.Accepts [.text "a"] :=
  ⟨.tuple [.int 1], by decide, .int 0, [.text "ε", .text "ε", .text "ε", .text "a"], by decide,
    .step (r := .text "x") (by decide) (.step (r := .int 0) (by decide)
      (.step (r := .text "x") (by decide) (.of_edge (by decide)))), by decide⟩

end Determinize.Nfa
