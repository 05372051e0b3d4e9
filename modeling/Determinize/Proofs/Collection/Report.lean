import Determinize.Proofs.Value.Hashable

/-!
# Computations that report the first fault

A computation that checks one thing after another fails with the first fault that it meets, and
succeeds if there is none. The faults that it would meet, all of them and in the order in which it
looks, then determine its outcome. They are put together as the computation is: the faults of a
sequence of computations are listed one after the other.

## Main definitions

* `Reports` — a computation fails with the first of the given faults.

## Main results

* `Reports.bind`, `Reports.mapM`, `Reports.foldlM` — sequences of computations.
* `Reports.exists_eq_ok_iff`, `Reports.eq_error_iff` — the outcome.
* `head?_flatMap_eq_some_iff` — the first of the faults of several parts.
-/

namespace Determinize

variable {ε ε' α β σ : Type} {x : Except ε α} {faults : List ε}

/-- A computation fails with the first of the given faults, and succeeds if there is none. -/
def Reports : Except ε α → List ε → Prop
  | .error e, faults => faults.head? = some e
  | .ok _, faults => faults = []

namespace Reports

theorem ok (a : α) : Reports (.ok a : Except ε α) [] := rfl

theorem error (e : ε) (faults : List ε) : Reports (.error e : Except ε α) (e :: faults) := rfl

theorem exists_eq_ok_iff (h : Reports x faults) : (∃ a, x = .ok a) ↔ faults = [] := by
  cases x with
  | ok a => exact iff_of_true ⟨a, rfl⟩ h
  | error e =>
    refine iff_of_false (fun ⟨_, ha⟩ => nomatch ha) fun hnil => ?_
    rw [Reports, hnil] at h
    cases h

theorem eq_error_iff (h : Reports x faults) {e : ε} : x = .error e ↔ faults.head? = some e := by
  cases x with
  | ok a =>
    rw [show faults = [] from h]
    exact iff_of_false nofun nofun
  | error e' => rw [show faults.head? = some e' from h, Except.error.injEq, Option.some.injEq]

/-- Two computations in sequence meet the faults of the first and then those of the second. These
count only if the first computation succeeds. -/
theorem bind {f : α → Except ε β} {further : List ε} (hx : Reports x faults)
    (hf : ∀ a, x = .ok a → Reports (f a) further) : Reports (x >>= f) (faults ++ further) := by
  cases x with
  | ok a =>
    rw [show faults = [] from hx]
    exact hf a rfl
  | error e =>
    change (faults ++ further).head? = some e
    rw [List.head?_append, show faults.head? = some e from hx]
    rfl

theorem map {f : α → β} (hx : Reports x faults) : Reports (f <$> x) faults := by
  cases x with
  | ok a => exact hx
  | error e => exact hx

theorem mapError {f : ε → ε'} (hx : Reports x faults) :
    Reports (x.mapError f) (faults.map f) := by
  cases x with
  | ok a =>
    rw [show faults = [] from hx]
    rfl
  | error e =>
    change (faults.map f).head? = some (f e)
    rw [List.head?_map, show faults.head? = some e from hx]
    rfl

/-- Attempts at the members of a list meet the faults of the members one after the other. -/
theorem mapM {f : σ → Except ε α} {faultsOf : σ → List ε} {xs : List σ}
    (h : ∀ x ∈ xs, Reports (f x) (faultsOf x)) : Reports (xs.mapM f) (xs.flatMap faultsOf) := by
  induction xs with
  | nil => exact .ok []
  | cons x xs ih =>
    rw [List.forall_mem_cons] at h
    rw [List.mapM_cons, List.flatMap_cons]
    exact h.1.bind fun a _ => (ih h.2).map (f := (a :: ·))

/-- Steps along a list meet the faults of its members one after the other, if these are the same in
all the values that the steps can reach. -/
theorem foldlM {f : α → σ → Except ε α} {faultsOf : σ → List ε} {P : α → Prop} {xs : List σ}
    (hf : ∀ a, P a → ∀ x ∈ xs, Reports (f a x) (faultsOf x) ∧ ∀ a', f a x = .ok a' → P a')
    {a : α} (ha : P a) : Reports (xs.foldlM f a) (xs.flatMap faultsOf) := by
  induction xs generalizing a with
  | nil => exact .ok a
  | cons x xs ih =>
    rw [List.foldlM_cons, List.flatMap_cons]
    obtain ⟨hfirst, hnext⟩ := hf a ha x List.mem_cons_self
    exact hfirst.bind fun a' ha' =>
      ih (fun a ha y hy => hf a ha y (List.mem_cons_of_mem x hy)) (hnext a' ha')

end Reports

/-- The first item of a sequence of lists is the first item of the first list that has one. -/
theorem head?_flatMap_eq_some_iff {xs : List α} {f : α → List β} {b : β} :
    (xs.flatMap f).head? = some b ↔ ∃ before x after, xs = before ++ x :: after ∧
      (∀ y ∈ before, f y = []) ∧ (f x).head? = some b := by
  simp only [List.head?_flatMap, List.findSome?_eq_some_iff, List.head?_eq_none_iff, and_comm]

/-- A property that steps along a list keep holds at its end. -/
theorem of_foldlM_eq_ok {f : α → σ → Except ε α} {P : α → Prop} {xs : List σ} {a b : α}
    (hf : ∀ a, P a → ∀ x ∈ xs, ∀ a', f a x = .ok a' → P a') (ha : P a)
    (h : xs.foldlM f a = .ok b) : P b := by
  induction xs generalizing a with
  | nil => exact Except.ok.inj h ▸ ha
  | cons x xs ih =>
    rw [List.foldlM_cons] at h
    obtain ⟨a', ha', h⟩ := exists_of_bind_eq_ok h
    exact ih (fun a ha y hy => hf a ha y (List.mem_cons_of_mem x hy))
      (hf a ha x List.mem_cons_self a' ha') h

end Determinize
