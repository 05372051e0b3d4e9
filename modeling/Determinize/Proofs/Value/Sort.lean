import Determinize.Proofs.Value.Order
import Determinize.Proofs.Value.Text
import Mathlib.Data.List.Lex

/-!
# Sorting does not depend on the order given

A sort by a partial comparison succeeds if and only if all pairs of items are comparable, although
it does not make all comparisons: the items come out in a row in which neighbours are comparable,
and comparability passes along a row. What comes out is a permutation in ascending order, and there
is only one of them unless different items are equal for the comparison. So lists with the same
items in another order are sorted into the same list.

Values that are sorted by the name of the type and the text are different for this comparison, since
different values of one type have different texts. Therefore `sortSymbols` does not depend on the
order of the values given, whichever of the two sorts it takes.

## Main definitions

* `Consistent` — a partial comparison has the laws of an order where it is defined.

## Main results

* `insertionSort?_perm` — a sort does not depend on the order given.
* `sortSymbols_perm`, `perm_sortSymbols` — the same for values; nothing is lost.
-/

namespace Determinize

section Sorting

variable {α : Type} {less? : α → α → Option Bool} {x y : α} {xs ys zs : List α}

/-! ### Permutations -/

/-- Where an item is inserted in a list that is not empty. -/
theorem cases_of_insertBefore? (h : insertBefore? less? x (y :: ys) = some zs) :
    less? y x = some false ∧ zs = x :: y :: ys ∨
      less? y x = some true ∧ ∃ ws, insertBefore? less? x ys = some ws ∧ zs = y :: ws := by
  rw [insertBefore?] at h
  cases hless : less? y x with
  | none => simp [hless] at h
  | some b =>
    cases b with
    | false => simpa [hless, eq_comm] using h
    | true =>
      cases hinsert : insertBefore? less? x ys with
      | none => simp [hless, hinsert] at h
      | some ws => simpa [hless, hinsert, eq_comm] using h

/-- An item is inserted in the other items, sorted. -/
theorem exists_of_insertionSort? (h : insertionSort? less? (x :: xs) = some zs) :
    ∃ ys, insertionSort? less? xs = some ys ∧ insertBefore? less? x ys = some zs :=
  Option.bind_eq_some_iff.mp h

theorem perm_of_insertBefore? (h : insertBefore? less? x ys = some zs) : zs.Perm (x :: ys) := by
  induction ys generalizing zs with
  | nil =>
    injection h with h
    exact h ▸ .refl _
  | cons y ys ih =>
    rcases cases_of_insertBefore? h with ⟨-, rfl⟩ | ⟨-, ws, hws, rfl⟩
    · exact .refl _
    · exact ((ih hws).cons y).trans (.swap ..)

theorem perm_of_insertionSort? (h : insertionSort? less? xs = some ys) : ys.Perm xs := by
  induction xs generalizing ys with
  | nil =>
    injection h with h
    exact h ▸ .refl _
  | cons x xs ih =>
    obtain ⟨zs, hsort, hinsert⟩ := exists_of_insertionSort? h
    exact (perm_of_insertBefore? hinsert).trans ((ih hsort).cons x)

/-- A sort by a comparison that is defined everywhere succeeds. -/
theorem insertionSort?_some (less : α → α → Bool) (xs : List α) :
    insertionSort? (fun x y => some (less x y)) xs = some (insertionSort less xs) := by
  have hinsert (x : α) (ys : List α) :
      insertBefore? (fun x y => some (less x y)) x ys = some (insertBefore less x ys) := by
    induction ys with
    | nil => rfl
    | cons y ys ih =>
      rw [insertBefore?, insertBefore]
      cases less y x <;> simp [ih]
  induction xs with
  | nil => rfl
  | cons x xs ih => exact (congrArg (· >>= insertBefore? _ x) ih).trans (hinsert x _)

theorem perm_insertionSort (less : α → α → Bool) (xs : List α) : (insertionSort less xs).Perm xs :=
  perm_of_insertionSort? (insertionSort?_some less xs)

/-! ### Success -/

theorem isSome_insertBefore? (h : ∀ y ∈ ys, (less? y x).isSome) :
    (insertBefore? less? x ys).isSome := by
  induction ys with
  | nil => rfl
  | cons y ys ih =>
    rw [List.forall_mem_cons] at h
    rw [insertBefore?]
    obtain ⟨b, hb⟩ := Option.isSome_iff_exists.mp h.1
    obtain ⟨zs, hzs⟩ := Option.isSome_iff_exists.mp (ih h.2)
    cases b <;> simp [hb, hzs]

theorem isSome_insertionSort? (h : xs.Pairwise fun x y => (less? y x).isSome) :
    (insertionSort? less? xs).isSome := by
  induction xs with
  | nil => rfl
  | cons x xs ih =>
    rw [List.pairwise_cons] at h
    obtain ⟨ys, hys⟩ := Option.isSome_iff_exists.mp (ih h.2)
    rw [insertionSort?, hys]
    exact isSome_insertBefore? fun y hy => h.1 y ((perm_of_insertionSort? hys).mem_iff.mp hy)

/-! ### Sorted lists -/

/-- A partial comparison has the laws of an order where it is defined, among the items with a
property. -/
structure Consistent (P : α → Prop) (less? : α → α → Option Bool) : Prop where
  /-- What is less than an item is not greater than it. -/
  turned {x y : α} (hx : P x) (hy : P y) (h : less? x y = some true) : less? y x = some false
  comparable_symm {x y : α} (h : (less? x y).isSome) : (less? y x).isSome
  /-- To be not greater passes along a row. -/
  trans {x y z : α} (hx : P x) (hy : P y) (hz : P z) (h : less? y x = some false)
    (h' : less? z y = some false) : less? z x = some false

/-- No item is greater than a later one. -/
def Sorted (less? : α → α → Option Bool) (xs : List α) : Prop :=
  xs.Pairwise fun x y => less? y x = some false

namespace Consistent

variable {P : α → Prop} (hless : Consistent P less?)

include hless

/-- Inserting keeps a list sorted. -/
theorem sorted_of_insertBefore? (hx : P x) (hP : ∀ y ∈ ys, P y) (hys : Sorted less? ys)
    (h : insertBefore? less? x ys = some zs) : Sorted less? zs := by
  induction ys generalizing zs with
  | nil =>
    injection h with h
    exact h ▸ List.pairwise_singleton ..
  | cons y ys ih =>
    have ⟨hy, hsorted⟩ := List.pairwise_cons.mp hys
    rw [List.forall_mem_cons] at hP
    rcases cases_of_insertBefore? h with ⟨hyx, rfl⟩ | ⟨hyx, ws, hws, rfl⟩
    · refine List.pairwise_cons.mpr ⟨?_, hys⟩
      exact List.forall_mem_cons.mpr
        ⟨hyx, fun z hz => hless.trans hx hP.1 (hP.2 z hz) hyx (hy z hz)⟩
    · refine List.pairwise_cons.mpr ⟨fun z hz => ?_, ih hP.2 hsorted hws⟩
      rcases List.mem_cons.mp ((perm_of_insertBefore? hws).mem_iff.mp hz) with rfl | hz
      · exact hless.turned hP.1 hx hyx
      · exact hy z hz

/-- What a sort answers is sorted. -/
theorem sorted_of_insertionSort? (hP : ∀ x ∈ xs, P x) (h : insertionSort? less? xs = some ys) :
    Sorted less? ys := by
  induction xs generalizing ys with
  | nil =>
    injection h with h
    exact h ▸ .nil
  | cons x xs ih =>
    rw [List.forall_mem_cons] at hP
    obtain ⟨zs, hsort, hinsert⟩ := exists_of_insertionSort? h
    refine hless.sorted_of_insertBefore? hP.1 (fun y hy => ?_) (ih hP.2 hsort) hinsert
    exact hP.2 y ((perm_of_insertionSort? hsort).mem_iff.mp hy)

/-- A row in which no item is greater than the next one is sorted. -/
theorem sorted_of_isChain (hP : ∀ x ∈ xs, P x)
    (h : xs.IsChain fun x y => less? y x = some false) : Sorted less? xs := by
  induction xs with
  | nil => exact .nil
  | cons x xs ih =>
    rw [List.forall_mem_cons] at hP
    cases xs with
    | nil => exact List.pairwise_singleton ..
    | cons y ys =>
      obtain ⟨hyx, hys⟩ := List.isChain_cons_cons.mp h
      have hsorted := ih hP.2 hys
      have hy := List.forall_mem_cons.mp hP.2
      refine List.pairwise_cons.mpr ⟨List.forall_mem_cons.mpr ⟨hyx, fun z hz => ?_⟩, hsorted⟩
      exact hless.trans hP.1 hy.1 (hy.2 z hz) hyx ((List.pairwise_cons.mp hsorted).1 z hz)

/-- The items of a sorted list are comparable in whatever order they are given. -/
theorem comparable_of_sorted (h : ys.Perm xs) (hys : Sorted less? ys) :
    xs.Pairwise fun x y => (less? y x).isSome :=
  (h.pairwise_iff fun hxy => hless.comparable_symm hxy).mp
    (hys.imp fun hyx => by rw [hyx, Option.isSome_some])

/-- A sort succeeds if and only if all pairs of items are comparable. -/
theorem isSome_insertionSort?_iff (hP : ∀ x ∈ xs, P x) :
    (insertionSort? less? xs).isSome ↔ xs.Pairwise fun x y => (less? y x).isSome := by
  refine ⟨fun h => ?_, isSome_insertionSort?⟩
  obtain ⟨ys, hys⟩ := Option.isSome_iff_exists.mp h
  exact hless.comparable_of_sorted (perm_of_insertionSort? hys)
    (hless.sorted_of_insertionSort? hP hys)

/-- A sort does not depend on the order of the items given, unless different items are equal for the
comparison. -/
theorem insertionSort?_perm (h : xs.Perm ys) (hP : ∀ x ∈ xs, P x)
    (hsame : ∀ x ∈ xs, ∀ y ∈ xs, less? x y = some false → less? y x = some false → x = y) :
    insertionSort? less? xs = insertionSort? less? ys := by
  have hP' (y : α) (hy : y ∈ ys) : P y := hP y (h.mem_iff.mpr hy)
  have hisSome : (insertionSort? less? xs).isSome ↔ (insertionSort? less? ys).isSome := by
    rw [hless.isSome_insertionSort?_iff hP, hless.isSome_insertionSort?_iff hP']
    exact h.pairwise_iff fun hxy => hless.comparable_symm hxy
  cases hxs : insertionSort? less? xs with
  | none =>
    cases hys : insertionSort? less? ys with
    | none => rfl
    | some => simp [hxs, hys] at hisSome
  | some xs' =>
    cases hys : insertionSort? less? ys with
    | none => simp [hxs, hys] at hisSome
    | some ys' =>
      have hxs' := perm_of_insertionSort? hxs
      have hys' := (perm_of_insertionSort? hys).trans h.symm
      refine congrArg some (List.Perm.eq_of_pairwise (fun x y hx hy hxy hyx => ?_)
        (hless.sorted_of_insertionSort? hP hxs) (hless.sorted_of_insertionSort? hP' hys)
        (hxs'.trans hys'.symm))
      exact hsame x (hxs'.mem_iff.mp hx) y (hys'.mem_iff.mp hy) hyx hxy

end Consistent

/-! ### Sorting by a key -/

section Key

variable {κ : Type} [LinearOrder κ] {key : α → κ} {less : α → α → Bool}

/-- The comparison of keys has the laws of an order. -/
theorem consistent_key (hless : ∀ x y, less x y = true ↔ key x < key y) :
    Consistent (fun _ => True) fun x y => some (less x y) where
  turned {x y} _ _ h := by
    rw [Option.some.injEq, hless] at h
    rw [Option.some.injEq, ← Bool.not_eq_true, hless]
    exact h.not_gt
  comparable_symm _ := rfl
  trans {x y z} _ _ _ h h' := by
    rw [Option.some.injEq, ← Bool.not_eq_true, hless, not_lt] at h h' ⊢
    exact h.trans h'

/-- A sort by a key does not depend on the order of the items given, unless different items have the
same key. -/
theorem insertionSort_key_perm (hless : ∀ x y, less x y = true ↔ key x < key y) (h : xs.Perm ys)
    (hkey : ∀ x ∈ xs, ∀ y ∈ xs, key x = key y → x = y) :
    insertionSort less xs = insertionSort less ys := by
  apply Option.some.inj
  rw [← insertionSort?_some, ← insertionSort?_some]
  refine (consistent_key hless).insertionSort?_perm h (fun _ _ => trivial)
    fun x hx y hy hxy hyx => hkey x hx y hy ?_
  rw [Option.some.injEq, ← Bool.not_eq_true, hless, not_lt] at hxy hyx
  exact le_antisymm hyx hxy

end Key

end Sorting

/-! ### Values -/

namespace Value

theorem consistent_less? : Consistent Representable less? where
  turned hx hy h := turned_less? hx hy true h
  comparable_symm := comparable_symm
  trans hx hy hz := less?_eq_false_trans hx hy hz

/-- Values that are not less than each other are equal. -/
theorem beq_of_less?_eq_false {x y : Value} (hx : x.Representable) (hy : y.Representable)
    (h : less? x y = some false) (h' : less? y x = some false) : (x == y) = true := by
  refine (turned_less? hx hy false h).resolve_right fun hless => ?_
  rw [h'] at hless
  cases hless

/-- The name of the type and the text of a value. -/
def textKey (x : Value) : String ×ₗ String := toLex (x.typeName, x.display)

theorem textLess_eq_true_iff (x y : Value) : textLess x y = true ↔ x.textKey < y.textKey := by
  rw [textLess, textKey, textKey, Prod.Lex.toLex_lt_toLex]
  split
  · rename_i hsame
    simp [hsame]
  · rename_i hdiffer
    simp [hdiffer]

theorem textKey_inj {x y : Value} (hx : x.Representable) (hy : y.Representable)
    (h : x.textKey = y.textKey) : x = y := by
  obtain ⟨htype, htext⟩ := Prod.mk.inj (toLex_inj.mp h)
  exact eq_of_display_eq hx hy htype htext

end Value

/-- The order in which values are shown does not depend on the order given, if equal values among
them are spelled alike. -/
theorem sortSymbols_perm {xs ys : List Value} (h : xs.Perm ys)
    (hspelled : ∀ x ∈ xs, ∀ y ∈ xs, (x == y) = true → x = y)
    (hrepresentable : ∀ x ∈ xs, x.Representable) : sortSymbols xs = sortSymbols ys := by
  have hvalues : insertionSort? Value.less? xs = insertionSort? Value.less? ys :=
    Value.consistent_less?.insertionSort?_perm h hrepresentable fun x hx y hy hxy hyx =>
      hspelled x hx y hy
        (Value.beq_of_less?_eq_false (hrepresentable x hx) (hrepresentable y hy) hxy hyx)
  have htexts : insertionSort Value.textLess xs = insertionSort Value.textLess ys :=
    insertionSort_key_perm Value.textLess_eq_true_iff h fun x hx y hy =>
      Value.textKey_inj (hrepresentable x hx) (hrepresentable y hy)
  rw [sortSymbols, sortSymbols, hvalues, htexts]

/-- All values are shown. -/
theorem perm_sortSymbols (xs : List Value) : (sortSymbols xs).Perm xs := by
  rw [sortSymbols]
  cases hsort : insertionSort? Value.less? xs with
  | none => exact perm_insertionSort Value.textLess xs
  | some ys => exact perm_of_insertionSort? hsort

end Determinize
