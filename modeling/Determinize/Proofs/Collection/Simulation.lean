import Determinize.Proofs.Collection.Related
import Determinize.Proofs.Collection.Search

/-!
# Searches of similar graphs

Two searches, of graphs that may have nodes of different types, stay in step if their roots are
related one by one and related nodes have successors that are related one by one: they discover,
queue and expand related nodes in the same order. All this needs of the relation is that it respects
equality of nodes, because a search asks for nothing else.

A search that is finished is not changed by a larger bound. So two searches that are finished are in
step whatever their bounds are.

## Main definitions

* `Search.InStep` — the states of two searches are related.

## Main results

* `Search.InStep.expand`, `Search.InStep.run` — searches stay in step.
* `Search.InStep.run_of_waiting_eq_nil` — finished searches are in step.
-/

namespace Determinize

variable {σ τ : Type} {R : σ → τ → Prop}

theorem Discipline.forall₂_schedule (d : Discipline) {waiting fresh : List σ}
    {waiting' fresh' : List τ} (hwaiting : List.Forall₂ R waiting waiting')
    (hfresh : List.Forall₂ R fresh fresh') :
    List.Forall₂ R (d.schedule waiting fresh) (d.schedule waiting' fresh') := by
  cases d with
  | fifo => exact List.rel_append hwaiting hfresh
  | lifo => exact List.rel_append (List.rel_reverse hfresh) hwaiting

namespace Search

variable [BEq σ] [BEq τ]

/-- The states of two searches are related. -/
structure InStep (R : σ → τ → Prop) (s : Search σ) (t : Search τ) : Prop where
  discovered : List.Forall₂ R s.discovered.toList t.discovered.toList
  waiting : List.Forall₂ R s.waiting t.waiting
  expanded : List.Forall₂ R s.expanded t.expanded

variable {d : Discipline} {next : σ → List σ} {next' : τ → List τ} {s : Search σ} {t : Search τ}
  {bound bound' : Nat}

theorem inStep_start (hR : RespectsBEq R) (d : Discipline) {roots : List σ} {roots' : List τ}
    (h : List.Forall₂ R roots roots') : InStep R (start d roots) (start d roots') where
  discovered := OrderedSet.forall₂_ofList hR h
  waiting := d.forall₂_schedule .nil (OrderedSet.forall₂_ofList hR h)
  expanded := .nil

theorem InStep.forall₂_fresh (hR : RespectsBEq R) (h : InStep R s t) {nodes : List σ}
    {nodes' : List τ} (hnodes : List.Forall₂ R nodes nodes') :
    List.Forall₂ R (s.fresh nodes) (t.fresh nodes') := by
  refine List.rel_filter (fun x y hxy => ?_) (OrderedSet.forall₂_ofList hR hnodes)
  dsimp only
  rw [OrderedSet.contains_eq_of_forall₂ hR h.discovered hxy]

theorem InStep.expand (hR : RespectsBEq R)
    (hnext : ∀ x y, R x y → List.Forall₂ R (next x) (next' y)) (h : InStep R s t) :
    InStep R (s.expand d next) (t.expand d next') := by
  cases hs : s.waiting with
  | nil =>
    have ht : t.waiting = [] := List.forall₂_nil_left_iff.mp (hs ▸ h.waiting)
    simpa only [Search.expand, hs, ht] using h
  | cons x waiting =>
    obtain ⟨y, waiting', hxy, hwaiting, ht⟩ := List.forall₂_cons_left_iff.mp (hs ▸ h.waiting)
    have hfresh := h.forall₂_fresh hR (hnext x y hxy)
    rw [expand_of_waiting_eq_cons hs, expand_of_waiting_eq_cons ht]
    exact ⟨OrderedSet.forall₂_insertAll hR h.discovered hfresh,
      d.forall₂_schedule hwaiting hfresh, List.rel_append h.expanded (.cons hxy .nil)⟩

/-- Searches stay in step for any number of steps. -/
theorem InStep.run (hR : RespectsBEq R)
    (hnext : ∀ x y, R x y → List.Forall₂ R (next x) (next' y)) (h : InStep R s t) (bound : Nat) :
    InStep R (s.run d next bound) (t.run d next' bound) := by
  induction bound generalizing s t with
  | zero => exact h
  | succ bound ih =>
    have hempty : s.waiting.isEmpty = t.waiting.isEmpty := by
      rw [Bool.eq_iff_iff, List.isEmpty_iff_length_eq_zero, List.isEmpty_iff_length_eq_zero,
        h.waiting.length_eq]
    rw [Search.run, Search.run, hempty]
    split
    · exact h
    · exact ih (h.expand hR hnext)

/-- A finished search is not changed by a larger bound. -/
theorem run_eq_of_le (hdone : (s.run d next bound).waiting = []) (hle : bound ≤ bound') :
    s.run d next bound' = s.run d next bound := by
  induction bound generalizing s bound' with
  | zero =>
    have hempty : s.waiting.isEmpty = true := List.isEmpty_iff.mpr hdone
    cases bound' with
    | zero => rfl
    | succ bound' => exact if_pos hempty
  | succ bound ih =>
    obtain ⟨bound', rfl⟩ := Nat.exists_eq_succ_of_ne_zero (Nat.ne_zero_of_lt hle)
    rw [run] at hdone ⊢
    rw [run]
    split
    · rfl
    · rename_i hempty
      rw [if_neg hempty] at hdone
      exact ih hdone (Nat.le_of_succ_le_succ hle)

/-- Finished searches are in step, whatever their bounds are. -/
theorem InStep.run_of_waiting_eq_nil (hR : RespectsBEq R)
    (hnext : ∀ x y, R x y → List.Forall₂ R (next x) (next' y)) (h : InStep R s t)
    (hs : (s.run d next bound).waiting = []) (ht : (t.run d next' bound').waiting = []) :
    InStep R (s.run d next bound) (t.run d next' bound') := by
  have hrun := h.run (d := d) hR hnext (max bound bound')
  rwa [run_eq_of_le hs (Nat.le_max_left ..), run_eq_of_le ht (Nat.le_max_right ..)] at hrun

end Search

end Determinize
