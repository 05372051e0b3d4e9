import Determinize.Proofs.Collection.Search

/-!
# Searches as loops

A search is a loop: while nodes wait, the next one is taken and expanded. Nothing bounds the number
of rounds, so a loop need not end. If a search under some bound comes to a state without waiting
nodes, the loop ends, and in the same state. A loop has one course. When it ends, it has taken every
node that was discovered, and each of them once.

## Main definitions

* `Search.Loop` — a loop that ends, with the nodes that are taken in it.

## Main results

* `Search.Loop.eq_of_loop` — a loop has one course.
* `Search.exists_loop_run` — searches that come to an end are loops.
* `Search.Loop.perm_discovered`, `Search.Loop.distinct` — every node is taken once.
-/

namespace Determinize.Search

variable {σ : Type} [BEq σ]

/-- From the state `s`, the loop takes the nodes `taken`, one in each round, and ends in the state
`t`. -/
inductive Loop (d : Discipline) (next : σ → List σ) : (s : Search σ) → (taken : List σ) →
    (t : Search σ) → Prop
  | done {s : Search σ} (h : s.waiting = []) : Loop d next s [] s
  | round {s t : Search σ} {current : σ} {waiting taken : List σ}
      (h : s.waiting = current :: waiting) (rest : Loop d next (s.expand d next) taken t) :
      Loop d next s (current :: taken) t

variable {d : Discipline} {next : σ → List σ} {s t t' : Search σ} {taken taken' : List σ}

/-- A loop has one course and one end. -/
theorem Loop.eq_of_loop (h : Loop d next s taken t) (h' : Loop d next s taken' t') :
    taken = taken' ∧ t = t' := by
  induction h generalizing taken' with
  | done hnone =>
    cases h' with
    | done => exact ⟨rfl, rfl⟩
    | round hsome => exact absurd (hnone.symm.trans hsome) (List.cons_ne_nil _ _).symm
  | round hsome _ ih =>
    cases h' with
    | done hnone => exact absurd (hnone.symm.trans hsome) (List.cons_ne_nil _ _).symm
    | round hsome' rest' =>
      obtain ⟨rfl, -⟩ := List.cons.inj (hsome.symm.trans hsome')
      obtain ⟨rfl, rfl⟩ := ih rest'
      exact ⟨rfl, rfl⟩

theorem Loop.waiting_eq_nil (h : Loop d next s taken t) : t.waiting = [] := by
  induction h with
  | done h => exact h
  | round _ _ ih => exact ih

/-- The nodes that are taken are expanded. -/
theorem Loop.expanded_eq (h : Loop d next s taken t) : t.expanded = s.expanded ++ taken := by
  induction h with
  | done => exact (List.append_nil _).symm
  | round h _ ih =>
    rw [ih, expand_of_waiting_eq_cons h, List.append_assoc]
    rfl

/-- A search that comes to an end under some bound is a loop. -/
theorem exists_loop_run {bound : Nat} (h : (s.run d next bound).waiting = []) :
    ∃ taken, Loop d next s taken (s.run d next bound) := by
  induction bound generalizing s with
  | zero => exact ⟨[], .done h⟩
  | succ bound ih =>
    rw [Search.run] at h ⊢
    cases hw : s.waiting with
    | nil => exact ⟨[], .done hw⟩
    | cons current waiting =>
      simp only [hw, List.isEmpty_cons, Bool.false_eq_true, if_false] at h ⊢
      obtain ⟨taken, hloop⟩ := ih h
      exact ⟨current :: taken, .round hw hloop⟩

section Taken

variable [EquivBEq σ]

/-- What is discovered stays discovered. -/
theorem Loop.prefix_discovered (h : Loop d next s taken t) :
    s.discovered.toList <+: t.discovered.toList := by
  induction h with
  | done => exact List.prefix_refl _
  | round _ _ ih => exact (prefix_discovered_expand _).trans ih

theorem Loop.valid (h : Loop d next s taken t) (hs : s.Valid next) : t.Valid next := by
  induction h with
  | done => exact hs
  | round _ _ ih => exact ih hs.expand

/-- What is taken is what is discovered. -/
theorem Loop.perm_discovered {roots : List σ} (h : Loop d next (start d roots) taken t) :
    taken.Perm t.discovered.toList := by
  have hperm := (h.valid (valid_start d next roots)).perm_expanded h.waiting_eq_nil
  rw [h.expanded_eq] at hperm
  exact hperm.symm

/-- No node is taken twice. -/
theorem Loop.distinct {roots : List σ} (h : Loop d next (start d roots) taken t) :
    taken.Pairwise fun x y => (x == y) = false :=
  h.perm_discovered.symm.pairwise t.discovered.distinct fun hxy => by rwa [BEq.comm]

end Taken

end Determinize.Search
