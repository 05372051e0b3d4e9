import Determinize.Proofs.Value.Writable

/-!
# The order in which values are shown

A list is a stable sort of another one if it has the same items in ascending order, and items of
which neither is less than the other stand in it as they stand in the other one. There is only one
such list, so it does not matter how it is found and which items are compared on the way. A sort by a
partial comparison has to compare at least the items that come to stand next to each other; so it
succeeds if and only if all items are comparable, and all such sorts are the same.

The order in which values are shown is such a list: by their own order if all pairs of them are
comparable, wherever they stand, and by the name of the type and the text as soon as one pair is
not. Then every value has to be written, so there is no such list if one has too many digits.

## Main definitions

* `IsStableSort` — a list is a stable sort of another one.
* `IsComparisonSort` — a way of sorting by a partial comparison.
* `Value.Comparable`, `Value.isLess`, `Value.isTextLess`.

## Main results

* `IsStableSort.unique` — there is only one stable sort.
* `Consistent.isStableSort_of_insertionSort?`, `isComparisonSort_insertionSort?` — insertion sorts.
* `IsComparisonSort.eq_insertionSort?` — there is only one way of sorting.
* `sortSymbolsBy?_isStableSort`.
-/

namespace Determinize

section Sorting

variable {α : Type} {less : α → α → Bool} {x y : α} {xs ys zs : List α}

/-- Whether neither item is less than the other. -/
def tied (less : α → α → Bool) (x y : α) : Bool := !less x y && !less y x

/-- A list has the items of another one in ascending order. Items of which neither is less than the
other are not moved past each other. -/
structure IsStableSort (less : α → α → Bool) (xs ys : List α) : Prop where
  perm : ys.Perm xs
  ascending : ys.Pairwise fun x y => less y x = false
  stable : ∀ x ∈ xs, ys.filter (tied less x) = xs.filter (tied less x)

theorem tied_eq_true_iff : tied less x y = true ↔ less x y = false ∧ less y x = false := by
  simp [tied]

/-! ### Uniqueness -/

/-- The first items of two ascending lists with the same items are tied. -/
theorem tied_heads (h : (x :: ys).Perm (y :: zs)) (hirrefl : less x x = false)
    (hys : (x :: ys).Pairwise fun x y => less y x = false)
    (hzs : (y :: zs).Pairwise fun x y => less y x = false) : tied less x y = true := by
  have hy : y = x ∨ y ∈ ys := List.mem_cons.mp (h.mem_iff.mpr List.mem_cons_self)
  have hx : x = y ∨ x ∈ zs := List.mem_cons.mp (h.mem_iff.mp List.mem_cons_self)
  refine tied_eq_true_iff.mpr ⟨?_, ?_⟩
  · rcases hx with rfl | hx
    · exact hirrefl
    · exact (List.pairwise_cons.mp hzs).1 x hx
  · rcases hy with rfl | hy
    · exact hirrefl
    · exact (List.pairwise_cons.mp hys).1 y hy

/-- Ascending lists are equal if they have the same items, tied ones in the same order. -/
theorem eq_of_filter_tied_eq (h : ys.Perm zs) (hirrefl : ∀ x ∈ ys, less x x = false)
    (hys : ys.Pairwise fun x y => less y x = false)
    (hzs : zs.Pairwise fun x y => less y x = false)
    (htied : ∀ x ∈ ys, ys.filter (tied less x) = zs.filter (tied less x)) : ys = zs := by
  induction ys generalizing zs with
  | nil => exact h.nil_eq
  | cons y ys ih =>
    cases zs with
    | nil => exact absurd h.symm (List.not_perm_nil_cons y ys)
    | cons z zs =>
      -- Both heads are kept in the class of `y`, where they are the first items.
      rw [List.forall_mem_cons] at hirrefl
      have hhead := htied y List.mem_cons_self
      have hself : tied less y y = true := tied_eq_true_iff.mpr ⟨hirrefl.1, hirrefl.1⟩
      rw [List.filter_cons_of_pos hself,
        List.filter_cons_of_pos (tied_heads h hirrefl.1 hys hzs)] at hhead
      obtain ⟨rfl, -⟩ := List.cons.inj hhead
      refine congrArg (y :: ·) (ih h.cons_inv hirrefl.2 hys.of_cons hzs.of_cons fun x hx => ?_)
      have hx := htied x (List.mem_cons_of_mem y hx)
      rw [List.filter_cons, List.filter_cons] at hx
      split at hx
      · exact (List.cons.inj hx).2
      · exact hx

/-- There is only one stable sort of a list. -/
theorem IsStableSort.unique (hirrefl : ∀ x ∈ xs, less x x = false)
    (hys : IsStableSort less xs ys) (hzs : IsStableSort less xs zs) : ys = zs :=
  eq_of_filter_tied_eq (hys.perm.trans hzs.perm.symm)
    (fun x hx => hirrefl x (hys.perm.mem_iff.mp hx)) hys.ascending hzs.ascending fun x hx => (hys.stable x (hys.perm.mem_iff.mp hx)).trans
      (hzs.stable x (hys.perm.mem_iff.mp hx)).symm

/-- A stable sort is a stable sort of itself. -/
theorem IsStableSort.self (h : IsStableSort less xs ys) : IsStableSort less ys ys :=
  ⟨.refl ys, h.ascending, fun _ _ => rfl⟩

/-! ### Insertion sorts are stable -/

section Partial

variable {less? : α → α → Option Bool}

/-- Whether an item is less than another one by a partial comparison. -/
def isLessBy (less? : α → α → Option Bool) (x y : α) : Bool := less? x y == some true

theorem isLessBy_eq_false_iff :
    isLessBy less? x y = false ↔ less? x y ≠ some true := by
  simp [isLessBy]

/-- Inserting moves an item only past smaller ones. -/
theorem filter_of_insertBefore? {p : α → Bool} (h : insertBefore? less? x ys = some zs)
    (hp : ∀ y ∈ ys, less? y x = some true → p x = true → p y = false) :
    zs.filter p = (x :: ys).filter p := by
  induction ys generalizing zs with
  | nil =>
    injection h with h
    rw [← h]
  | cons y ys ih =>
    rw [List.forall_mem_cons] at hp
    rcases cases_of_insertBefore? h with ⟨-, rfl⟩ | ⟨hless, ws, hws, rfl⟩
    · rfl
    · rw [List.filter_cons, ih hws hp.2]
      cases hx : p x with
      | true => simp [hx, hp.1 hless hx]
      | false => simp [List.filter_cons, hx]

namespace Consistent

variable {P : α → Prop} (hless : Consistent P less?)

include hless

theorem isLessBy_irrefl (hx : P x) : isLessBy less? x x = false := by
  refine isLessBy_eq_false_iff.mpr fun h => ?_
  have hturned := hless.turned hx hx h
  rw [h] at hturned
  cases hturned

/-- Of two items that are tied with a third one neither is less, if different items are
comparable. -/
theorem tied_eq_false {w : α} (hw : P w) (hx : P x) (hy : P y) (hwx : w ≠ x → (less? w x).isSome) (hwy : w ≠ y → (less? w y).isSome)
    (hyx : less? y x = some true) (htied : tied (isLessBy less?) w x = true) :
    tied (isLessBy less?) w y = false := by
  refine Bool.eq_false_iff.mpr fun htied' => ?_
  rw [tied_eq_true_iff, isLessBy_eq_false_iff, isLessBy_eq_false_iff] at htied htied'
  by_cases hwx' : w = x
  · exact htied'.2 (hwx' ▸ hyx)
  · by_cases hwy' : w = y
    · exact htied.1 (hwy' ▸ hyx)
    · -- All three are comparable, and `x` is not greater than `w`, which is not greater than `y`.
      obtain ⟨b, hb⟩ := Option.isSome_iff_exists.mp (hwx hwx')
      obtain ⟨b', hb'⟩ := Option.isSome_iff_exists.mp (hless.comparable_symm (hwy hwy'))
      have hxw : less? w x = some false := by
        cases b with
        | true => exact absurd hb htied.1
        | false => exact hb
      have hwy : less? y w = some false := by
        cases b' with
        | true => exact absurd hb' htied'.2
        | false => exact hb'
      rw [hless.trans hx hw hy hxw hwy] at hyx
      cases hyx

/-- Sorting does not move tied items past each other. -/
theorem filter_tied_of_insertionSort? {w : α} (hPw : P w) (hP : ∀ x ∈ xs, P x)
    (hw : ∀ x ∈ xs, w ≠ x → (less? w x).isSome)
    (h : insertionSort? less? xs = some ys) :
    ys.filter (tied (isLessBy less?) w) = xs.filter (tied (isLessBy less?) w) := by
  induction xs generalizing ys with
  | nil =>
    injection h with h
    rw [← h]
  | cons x xs ih =>
    rw [List.forall_mem_cons] at hP hw
    obtain ⟨zs, hsort, hinsert⟩ := exists_of_insertionSort? h
    have hzs {y : α} (hy : y ∈ zs) : y ∈ xs := (perm_of_insertionSort? hsort).mem_iff.mp hy
    rw [filter_of_insertBefore? hinsert fun y hy hyx hx =>
        hless.tied_eq_false hPw hP.1 (hP.2 y (hzs hy)) hw.1 (hw.2 y (hzs hy)) hyx hx,
      List.filter_cons, ih hP.2 hw.2 hsort, List.filter_cons]

/-- An insertion sort that succeeds is stable. -/
theorem isStableSort_of_insertionSort? (hP : ∀ x ∈ xs, P x)
    (h : insertionSort? less? xs = some ys) : IsStableSort (isLessBy less?) xs ys where
  perm := perm_of_insertionSort? h
  ascending := (hless.sorted_of_insertionSort? hP h).imp fun hyx => by rw [isLessBy, hyx]; rfl
  stable w hw := by
    have hcomparable : xs.Pairwise fun x y => (less? x y).isSome :=
      ((hless.isSome_insertionSort?_iff hP).mp (Option.isSome_of_eq_some h)).imp
        hless.comparable_symm
    have : Std.Symm fun x y => (less? x y).isSome := ⟨fun _ _ hxy => hless.comparable_symm hxy⟩
    exact hless.filter_tied_of_insertionSort? (hP w hw) hP
      (fun x hx hne => hcomparable.forall hw hx hne) h

end Consistent

end Partial

/-! ### Ways of sorting -/

/-- A way of sorting by a partial comparison. Given a comparison that has the laws of an order where it is
defined, it succeeds if all comparisons are possible. If it succeeds, the items that stand next to each
other have been compared, since nothing else decides between the two, and tied items are not moved past
each other. -/
structure IsComparisonSort (sort : (α → α → Option Bool) → List α → Option (List α)) : Prop where
  isSome {P : α → Prop} {less? : α → α → Option Bool} {xs : List α} (hless : Consistent P less?)
    (hP : ∀ x ∈ xs, P x) (h : xs.Pairwise fun x y => (less? y x).isSome) : (sort less? xs).isSome
  perm {P : α → Prop} {less? : α → α → Option Bool} {xs ys : List α} (hless : Consistent P less?)
    (hP : ∀ x ∈ xs, P x) (h : sort less? xs = some ys) : ys.Perm xs
  neighbours {P : α → Prop} {less? : α → α → Option Bool} {xs ys : List α}
    (hless : Consistent P less?) (hP : ∀ x ∈ xs, P x) (h : sort less? xs = some ys) :
    ys.IsChain fun x y => less? x y = some true ∨ less? y x = some false
  stable {P : α → Prop} {less? : α → α → Option Bool} {xs ys : List α} (hless : Consistent P less?)
    (hP : ∀ x ∈ xs, P x) (h : sort less? xs = some ys) :
    ∀ x ∈ xs, ys.filter (tied (isLessBy less?) x) = xs.filter (tied (isLessBy less?) x)

theorem isComparisonSort_insertionSort? :
    IsComparisonSort (insertionSort? : (α → α → Option Bool) → List α → Option (List α)) where
  isSome _ _ h := isSome_insertionSort? h
  perm _ _ h := perm_of_insertionSort? h
  neighbours hless hP h := (hless.sorted_of_insertionSort? hP h).isChain.imp fun _ _ => .inr
  stable hless hP h := (hless.isStableSort_of_insertionSort? hP h).stable

/-- All ways of sorting are the same: they succeed on the same lists, with the same result. -/
theorem IsComparisonSort.eq_insertionSort? {P : α → Prop} {less? : α → α → Option Bool}
    {sort : (α → α → Option Bool) → List α → Option (List α)} (hsort : IsComparisonSort sort)
    (hless : Consistent P less?) (hP : ∀ x ∈ xs, P x) :
    sort less? xs = insertionSort? less? xs := by
  cases hys : sort less? xs with
  | none =>
    rw [eq_comm, ← Option.not_isSome_iff_eq_none, hless.isSome_insertionSort?_iff hP]
    intro hcomparable
    have := hsort.isSome hless hP hcomparable
    rw [hys] at this
    cases this
  | some ys =>
    have hperm := hsort.perm hless hP hys
    have hP' (y : α) (hy : y ∈ ys) : P y := hP y (hperm.mem_iff.mp hy)
    -- What has been compared of neighbours is that the second one is not less.
    have hchain : ys.IsChain fun x y => less? y x = some false :=
      (hsort.neighbours hless hP hys).imp_of_mem_imp fun x y hx hy h =>
        h.elim (hless.turned (hP' x hx) (hP' y hy)) id
    have hsorted := hless.sorted_of_isChain hP' hchain
    obtain ⟨zs, hzs⟩ := Option.isSome_iff_exists.mp
      ((hless.isSome_insertionSort?_iff hP).mpr (hless.comparable_of_sorted hperm hsorted))
    have hstable : IsStableSort (isLessBy less?) xs ys :=
      ⟨hperm, hsorted.imp fun hyx => by rw [isLessBy, hyx]; rfl, hsort.stable hless hP hys⟩
    rw [hzs, hstable.unique (fun x hx => hless.isLessBy_irrefl (hP x hx))
      (hless.isStableSort_of_insertionSort? hP hzs)]

/-- An insertion sort by a key is stable. -/
theorem isStableSort_insertionSort {κ : Type} [LinearOrder κ] {key : α → κ}
    (hless : ∀ x y, less x y = true ↔ key x < key y) (xs : List α) :
    IsStableSort less xs (insertionSort less xs) := by
  have hstable := (consistent_key hless).isStableSort_of_insertionSort? (fun _ _ => trivial)
    (insertionSort?_some less xs)
  have hsame : isLessBy (fun x y => some (less x y)) = less := by
    funext x y
    rw [isLessBy]
    cases less x y <;> rfl
  rwa [hsame] at hstable

end Sorting

/-! ### Values -/

namespace Value

/-- Whether two values can be compared. -/
def Comparable (x y : Value) : Prop := (less? x y).isSome

/-- Whether two values can be compared and the first one is less. -/
def isLess (x y : Value) : Bool := isLessBy less? x y

/-- Whether a value comes before another one by the name of the type, then by the text. -/
def isTextLess (x y : Value) : Bool := decide (x.textKey < y.textKey)

instance (x y : Value) : Decidable (Comparable x y) := inferInstanceAs (Decidable (_ = true))

instance : Std.Symm Comparable := ⟨fun _ _ => comparable_symm⟩

theorem isLess_irrefl {x : Value} (hx : x.Representable) : isLess x x = false :=
  consistent_less?.isLessBy_irrefl hx

theorem isTextLess_irrefl (x : Value) : isTextLess x x = false := decide_eq_false (lt_irrefl _)

theorem textLess_eq_isTextLess (x y : Value) : textLess x y = isTextLess x y :=
  Bool.eq_iff_iff.mpr ((textLess_eq_true_iff x y).trans decide_eq_true_iff.symm)

end Value

open Value

variable {xs ys : List Value}

/-- All pairs of values are comparable if and only if the sort by their own order succeeds. -/
theorem isSome_insertionSort?_less?_iff (hxs : ∀ x ∈ xs, x.Representable) :
    (insertionSort? less? xs).isSome ↔ xs.Pairwise Comparable :=
  (consistent_less?.isSome_insertionSort?_iff hxs).trans
    ⟨fun h => h.imp comparable_symm, fun h => h.imp comparable_symm⟩

/-- Comparable values are sorted by their own order. -/
theorem isStableSort_sortSymbols_of_comparable (hxs : ∀ x ∈ xs, x.Representable)
    (h : xs.Pairwise Comparable) : IsStableSort isLess xs (sortSymbols xs) := by
  obtain ⟨ys, hys⟩ := Option.isSome_iff_exists.mp ((isSome_insertionSort?_less?_iff hxs).mpr h)
  rw [sortSymbols, hys]
  exact consistent_less?.isStableSort_of_insertionSort? hxs hys

/-- Values that are not all comparable are sorted by the names of their types and their texts. -/
theorem isStableSort_sortSymbols_of_not_comparable (hxs : ∀ x ∈ xs, x.Representable)
    (h : ¬ xs.Pairwise Comparable) : IsStableSort isTextLess xs (sortSymbols xs) := by
  have hnone : insertionSort? less? xs = none := by
    rwa [← isSome_insertionSort?_less?_iff hxs, Bool.not_eq_true, Option.isSome_eq_false_iff,
      Option.isNone_iff_eq_none] at h
  have hless : textLess = isTextLess := funext₂ textLess_eq_isTextLess
  rw [sortSymbols, hnone, ← hless]
  exact isStableSort_insertionSort textLess_eq_true_iff xs

/-- Sorting again changes nothing. -/
theorem sortSymbols_sortSymbols (hxs : ∀ x ∈ xs, x.Representable) :
    sortSymbols (sortSymbols xs) = sortSymbols xs := by
  have hperm := perm_sortSymbols xs
  have hys : ∀ y ∈ sortSymbols xs, y.Representable := fun y hy => hxs y (hperm.mem_iff.mp hy)
  have hcomparable : (sortSymbols xs).Pairwise Comparable ↔ xs.Pairwise Comparable :=
    hperm.pairwise_iff fun {x y} (h : Comparable x y) => comparable_symm h
  by_cases h : xs.Pairwise Comparable
  · exact (isStableSort_sortSymbols_of_comparable hys (hcomparable.mpr h)).unique
      (fun y hy => isLess_irrefl (hys y hy)) (isStableSort_sortSymbols_of_comparable hxs h).self
  · exact (isStableSort_sortSymbols_of_not_comparable hys (hcomparable.not.mpr h)).unique
      (fun y _ => isTextLess_irrefl y) (isStableSort_sortSymbols_of_not_comparable hxs h).self

/-- What is shown does not depend on the way of sorting. -/
theorem sortSymbolsBy?_eq [DigitLimit]
    {sort : (Value → Value → Option Bool) → List Value → Option (List Value)}
    (hsort : IsComparisonSort sort) (hxs : ∀ x ∈ xs, x.Representable) :
    sortSymbolsBy? sort xs = sortSymbols? xs := by
  have hvalues := hsort.eq_insertionSort? consistent_less? hxs
  have htexts : sort (fun x y => some (Value.textLess x y)) xs = _ :=
    hsort.eq_insertionSort? (consistent_key textLess_eq_true_iff) fun _ _ => trivial
  rw [sortSymbols?, sortSymbolsBy?, sortSymbolsBy?, hvalues, htexts]

theorem sortable_eq_true_iff [DigitLimit] (hxs : ∀ x ∈ xs, x.Representable) :
    sortable xs = true ↔ xs.Pairwise Comparable ∨ ∀ x ∈ xs, x.writable = true := by
  rw [sortable, Bool.or_eq_true, isSome_insertionSort?_less?_iff hxs, List.all_eq_true]

/-- Whatever the way of sorting, values are listed unless they are not all comparable and one of them
cannot be written, and without a limit on digits they are always listed. They are listed as the stable
sort by their own order if any two of them are comparable, and otherwise as the stable sort by the names
of their types and their texts. Sorting again changes nothing, and unequal values are listed in the same
order in whatever order they are given. Only doubles can be values that are not representable. -/
theorem sortSymbolsBy?_isStableSort [DigitLimit]
    (sort : (Value → Value → Option Bool) → List Value → Option (List Value))
    (hsort : IsComparisonSort sort) (xs : List Value) (hxs : ∀ x ∈ xs, x.Representable) :
    (sortSymbolsBy? sort xs = none ↔ ¬ xs.Pairwise Comparable ∧ ∃ x ∈ xs, x.writable = false) ∧
      (DigitLimit.maxDigits = 0 → (sortSymbolsBy? sort xs).isSome) ∧
      ∀ ys, sortSymbolsBy? sort xs = some ys →
        ys.Perm xs ∧
        (xs.Pairwise Comparable → ∀ zs, ys = zs ↔ IsStableSort isLess xs zs) ∧
        (¬ xs.Pairwise Comparable → ∀ zs, ys = zs ↔ IsStableSort isTextLess xs zs) ∧
        sortSymbolsBy? sort ys = some ys ∧
        (xs.Pairwise (fun x y => (x == y) = false) →
          ∀ zs, zs.Perm xs → sortSymbolsBy? sort zs = some ys) := by
  have hperm := perm_sortSymbols xs
  have hcomparable {zs : List Value} (hzs : zs.Perm xs) :
      zs.Pairwise Comparable ↔ xs.Pairwise Comparable :=
    hzs.pairwise_iff fun {x y} (h : Comparable x y) => comparable_symm h
  have hrepresentable {zs : List Value} (hzs : zs.Perm xs) : ∀ z ∈ zs, z.Representable :=
    fun z hz => hxs z (hzs.mem_iff.mp hz)
  have hsortable {zs : List Value} (hzs : zs.Perm xs) : sortable zs = sortable xs := by
    rw [Bool.eq_iff_iff, sortable_eq_true_iff hxs, sortable_eq_true_iff (hrepresentable hzs),
      hcomparable hzs]
    exact or_congr_right
      ⟨fun h z hz => h z (hzs.mem_iff.mpr hz), fun h z hz => h z (hzs.mem_iff.mp hz)⟩
  have hsort {zs : List Value} (hzs : zs.Perm xs) :
      sortSymbolsBy? sort zs = if sortable xs then some (sortSymbols zs) else none := by
    rw [sortSymbolsBy?_eq hsort (hrepresentable hzs), sortSymbols?_eq, hsortable hzs]
  refine ⟨?_, fun hlimit => ?_, fun ys h => ?_⟩
  · rw [hsort (.refl xs)]
    simp [sortable_eq_true_iff hxs]
  · rw [hsort (.refl xs), sortable_of_writable
      (List.all_eq_true.mpr fun x _ => writable_of_unlimited hlimit x)]
    rfl
  · rw [hsort (.refl xs), Option.ite_none_right_eq_some] at h
    obtain ⟨hok, ⟨⟩⟩ := h
    refine ⟨hperm, fun h zs => ⟨?_, ?_⟩, fun h zs => ⟨?_, ?_⟩, ?_, fun hne zs hzs => ?_⟩
    · rintro rfl
      exact isStableSort_sortSymbols_of_comparable hxs h
    · exact (isStableSort_sortSymbols_of_comparable hxs h).unique
        fun x hx => isLess_irrefl (hxs x hx)
    · rintro rfl
      exact isStableSort_sortSymbols_of_not_comparable hxs h
    · exact (isStableSort_sortSymbols_of_not_comparable hxs h).unique
        fun x _ => isTextLess_irrefl x
    · rw [hsort hperm, if_pos hok, sortSymbols_sortSymbols hxs]
    · have : Std.Symm fun x y : Value => (x == y) = false :=
        ⟨fun x y hxy => (BEq.comm (a := y)).trans hxy⟩
      rw [hsort hzs, if_pos hok]
      refine congrArg some (sortSymbols_perm hzs (fun x hx y hy hxy => ?_) (hrepresentable hzs))
      by_contra hdiffer
      have hfalse := hne.forall (hzs.mem_iff.mp hx) (hzs.mem_iff.mp hy) hdiffer
      rw [hxy] at hfalse
      cases hfalse

/-- Six values of which some are not comparable, in two orders: `10` is shown before `9`. -/
theorem sortSymbolsBy?_mixed :
    let xs : List Value :=
      [.text "a", .int 9, .tuple [.int 1, .text "x"], .null, .bool true, .int 10]
    let ys : List Value :=
      [.null, .bool true, .int 10, .int 9, .text "a", .tuple [.int 1, .text "x"]]
    IsStableSort isTextLess xs ys ∧ sortSymbolsBy? insertionSort? xs.reverse = some ys := by
  intro xs ys
  obtain ⟨-, -, hsorted⟩ :=
    sortSymbolsBy?_isStableSort insertionSort? isComparisonSort_insertionSort? xs (by decide)
  obtain ⟨-, -, htexts, -, hperm⟩ := hsorted ys (by decide +kernel)
  exact ⟨(htexts (by decide) ys).mp rfl, hperm (by decide) _ (List.reverse_perm xs)⟩

/-- Not all values can be listed: `null` is not comparable with an integer, and this one has no text. -/
theorem sortSymbols?_immense : sortSymbols? [.null, .int (10 ^ digitLimit : Nat)] = none := by
  have hsortable : sortable [.null, .int (10 ^ digitLimit : Nat)] = false :=
    sortable_null_ten_pow (by decide)
  rw [sortSymbols?_eq, hsortable, if_neg Bool.false_ne_true]

end Determinize
