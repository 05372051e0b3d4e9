import Determinize.Proofs.Nfa.Closure
import Mathlib.Data.List.Nodup

/-!
# What a nondeterministic automaton stores

Sources, labels and targets are spelled as they were when they were first added. What holds of the
values that are added holds of the values that are stored, and of the members of closures and
successors, which are spelled as stored targets. A transition is stored once.

## Main definitions

* `Nfa.Stores` — a property of the stored sources, labels and targets.

## Main results

* `Nfa.Stores.link`, `Nfa.hasEdge_link`, `Nfa.nodup_transitions` — storing a transition.
* `Nfa.Stores.of_mem_transitions`, `Nfa.forall_mem_closure`, `Nfa.forall_mem_successor` — reading.
-/

namespace Determinize

/-- Lists without repetitions for the entries of a map, whose members tell the keys, make a list
without repetitions. -/
theorem OrderedMap.nodup_flatMap {κ ν α : Type} [BEq κ] [ReflBEq κ] (m : OrderedMap κ ν)
    {f : κ × ν → List α} (key : α → κ) (hf : ∀ e, (f e).Nodup)
    (hkey : ∀ e, ∀ x ∈ f e, key x = e.1) : (m.entries.flatMap f).Nodup := by
  refine List.nodup_flatMap.mpr ⟨fun e _ => hf e, m.distinct.imp fun {e e'} hne x hx hx' => ?_⟩
  rw [← hkey e x hx, ← hkey e' x hx', BEq.rfl] at hne
  cases hne

namespace Nfa

/-- A property holds of the labels and targets of a row. -/
def StoresRow (P : Value → Prop) (row : OrderedMap Value ValueSet) : Prop :=
  ∀ e ∈ row.entries, P e.1 ∧ ∀ q ∈ e.2.toList, P q

/-- A property holds of the stored sources, labels and targets. -/
def Stores (P : Value → Prop) (n : Nfa) : Prop :=
  ∀ e ∈ n.edges.entries, P e.1 ∧ StoresRow P e.2

variable {P : Value → Prop} {n : Nfa} {p a q p' a' q' : Value} {S : ValueSet}

/-! ### Writing -/

theorem Stores.alter_edges (h : n.Stores P) (hp : P p)
    {f : OrderedMap Value ValueSet → OrderedMap Value ValueSet}
    (hf : ∀ row, StoresRow P row → StoresRow P (f row)) :
    ({ n with edges := n.edges.alter p fun row => f (row.getD .empty) } : Nfa).Stores P := by
  have hempty : StoresRow P (f .empty) := hf .empty fun _ he => absurd he List.not_mem_nil
  exact OrderedMap.forall_mem_alterEntries
    (P := fun (r : Value) (row : OrderedMap Value ValueSet) => P r ∧ StoresRow P row)
    h ⟨hp, hempty⟩ fun _ row hr => ⟨hr.1, hf row hr.2⟩

theorem Stores.updateTargets (h : n.Stores P) (hp : P p) (ha : P a) {f : ValueSet → ValueSet}
    (hf : ∀ T : ValueSet, (∀ q ∈ T.toList, P q) → ∀ q ∈ (f T).toList, P q) :
    (n.updateTargets p a f).Stores P := by
  have hempty : ∀ q ∈ (f .empty).toList, P q := hf .empty fun _ hq => absurd hq List.not_mem_nil
  have hrow (row : OrderedMap Value ValueSet) (h : StoresRow P row) :
      StoresRow P (row.alter a fun targets => f (targets.getD .empty)) :=
    OrderedMap.forall_mem_alterEntries
      (P := fun (b : Value) (T : ValueSet) => P b ∧ ∀ q ∈ T.toList, P q)
      h ⟨ha, hempty⟩ fun _ T hT => ⟨hT.1, hf T hT.2⟩
  exact h.alter_edges hp hrow

theorem Stores.link (h : n.Stores P) (hp : P p) (ha : P a) (hq : P q) : (n.link p a q).Stores P :=
  h.updateTargets hp ha fun _ hT _ hx => (OrderedSet.mem_toList_insert hx).elim (hT _) (· ▸ hq)

/-- Adding a transition adds no other. -/
theorem hasEdge_link :
    (n.link p a q).HasEdge p' a' q' ↔
      n.HasEdge p' a' q' ∨ (p == p') = true ∧ (a == a') = true ∧ (q == q') = true := by
  rw [← contains_targets_iff, ← contains_targets_iff, targets_link]
  by_cases hsame : (p == p' && a == a') = true
  · rw [if_pos hsame, OrderedSet.contains_insert, Bool.or_eq_true]
    rw [Bool.and_eq_true] at hsame
    have hedge : (n.targets p a).contains q' = true ↔ (n.targets p' a').contains q' = true := by
      rw [contains_targets_iff, contains_targets_iff]
      exact ⟨fun h => h.congr hsame.1 hsame.2 BEq.rfl,
        fun h => h.congr (BEq.symm hsame.1) (BEq.symm hsame.2) BEq.rfl⟩
    rw [hedge]
    exact or_congr_right ⟨fun h => ⟨hsame.1, hsame.2, h⟩, fun h => h.2.2⟩
  · rw [if_neg hsame]
    rw [Bool.and_eq_true] at hsame
    exact ⟨.inl, fun h => h.resolve_right fun h => hsame ⟨h.1, h.2.1⟩⟩

/-! ### Reading -/

theorem Stores.of_mem_transitions (h : n.Stores P) {t : Value × Value × Value}
    (ht : t ∈ n.transitions) : P t.1 ∧ P t.2.1 ∧ P t.2.2 := by
  obtain ⟨row, hrow, targets, htargets, hq⟩ := mem_transitions_iff.mp ht
  obtain ⟨hp, hlabels⟩ := h _ hrow
  obtain ⟨ha, hall⟩ := hlabels _ htargets
  exact ⟨hp, ha, hall _ hq⟩

/-- No transition is stored twice. -/
theorem nodup_transitions (n : Nfa) : n.transitions.Nodup := by
  refine n.edges.nodup_flatMap (·.1) (fun e => ?_) fun e t ht => ?_
  · refine e.2.nodup_flatMap (·.2.1) (fun f => ?_) fun f t ht => ?_
    · exact f.2.nodup_toList.map fun q q' h => (Prod.mk.inj (Prod.mk.inj h).2).2
    · obtain ⟨q, -, rfl⟩ := List.mem_map.mp ht
      rfl
  · obtain ⟨f, -, hf⟩ := List.mem_flatMap.mp ht
    obtain ⟨q, -, rfl⟩ := List.mem_map.mp hf
    rfl

/-- What holds of the members of a set and of the targets holds of the members of its closure. -/
theorem forall_mem_closure (htargets : ∀ t ∈ n.transitions, P t.2.2) (hS : ∀ p ∈ S.toList, P p) :
    ∀ q ∈ (n.closure S).toList, P q := by
  refine closure_induction hS fun _ _ q hq => ?_
  obtain ⟨t, ht, -, -, rfl⟩ := exists_mem_transitions_of_mem_targets hq
  exact htargets t ht

/-- What holds of the targets holds of the members of successors. -/
theorem forall_mem_successor (htargets : ∀ t ∈ n.transitions, P t.2.2) :
    ∀ q ∈ (n.successor S a).toList, P q := by
  refine forall_mem_closure htargets fun q hq => ?_
  obtain ⟨p, -, hq⟩ := List.mem_flatMap.mp (OrderedSet.mem_of_mem_toList_ofList hq)
  obtain ⟨t, ht, -, -, rfl⟩ := exists_mem_transitions_of_mem_targets hq
  exact htargets t ht

end Nfa

end Determinize
