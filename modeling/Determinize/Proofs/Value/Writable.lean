import Determinize.Proofs.Collection.Related
import Determinize.Proofs.Value.Hashable
import Determinize.Proofs.Value.Sort
import Determinize.Value.Set

/-!
# Values that can be written

An integer can be written if it is small enough. Equal values are both writable or both not, since the
integer that a double equals is never too large: the largest double is less than `2 ^ 1024`, and no
limit on digits is below 640. So it is a property of a set whether its members can be written, however
they are spelled.

What fails because of the limit says otherwise what it says without a limit: the texts, and the order
in which values are shown, for which texts are needed only if two values cannot be compared.

## Main results

* `excessDigits?_eq_none_iff` — which integers can be written.
* `Value.writable_congr`, `ValueSet.writable_congr` — equal values are written alike.
* `Value.writable_real` — doubles can be written.
* `sortSymbols?_eq`, `ValueSet.render?_eq` — what is shown if there is a limit.
-/

namespace Determinize

variable [DigitLimit]

/-! ### Integers -/

omit [DigitLimit] in
theorem digitCount_le_iff {n : Int} {k : Nat} (hk : 0 < k) :
    digitCount n ≤ k ↔ n.natAbs < 10 ^ k :=
  Nat.length_toDigits_le_iff (by decide) hk

/-- The integers that can be written are those below a power of ten, unless there is no limit. -/
theorem excessDigits?_eq_none_iff {n : Int} : excessDigits? n = none ↔
    DigitLimit.maxDigits = 0 ∨ n.natAbs < 10 ^ DigitLimit.maxDigits := by
  rw [excessDigits?]
  rcases Nat.eq_zero_or_pos DigitLimit.maxDigits with hzero | hpos
  · simp [hzero]
  · simp [hpos.ne', digitCount_le_iff hpos]

theorem excessDigits?_of_lt {n : Int} (h : n.natAbs < 10 ^ 640) : excessDigits? n = none := by
  refine excessDigits?_eq_none_iff.mpr (DigitLimit.allowed.imp_right fun hlimit => ?_)
  exact h.trans_le (Nat.pow_le_pow_right (by decide) hlimit)

namespace Value

theorem itemExcess?_eq_none_iff {xs : List Value} :
    itemExcess? xs = none ↔ ∀ x ∈ xs, x.excess? = none := by
  induction xs with
  | nil => exact ⟨fun _ _ hx => absurd hx List.not_mem_nil, fun _ => rfl⟩
  | cons x xs ih => rw [itemExcess?, Option.or_eq_none_iff, ih, List.forall_mem_cons]

theorem fieldExcess?_eq_none_iff {fields : List (String × Value)} :
    fieldExcess? fields = none ↔ ∀ f ∈ fields, f.2.excess? = none := by
  induction fields with
  | nil => exact ⟨fun _ _ hf => absurd hf List.not_mem_nil, fun _ => rfl⟩
  | cons f fields ih => rw [fieldExcess?, Option.or_eq_none_iff, ih, List.forall_mem_cons]

theorem writable_list_iff {xs : List Value} :
    (list xs).writable = true ↔ ∀ x ∈ xs, x.writable = true := by
  simp only [writable, Option.isNone_iff_eq_none, excess?, itemExcess?_eq_none_iff]

theorem writable_object_iff {fields : List (String × Value)} :
    (object fields).writable = true ↔ ∀ f ∈ fields, f.2.writable = true := by
  simp only [writable, Option.isNone_iff_eq_none, excess?, fieldExcess?_eq_none_iff]

mutual

private theorem excess?_eq_none (h : DigitLimit.maxDigits = 0) : (x : Value) → x.excess? = none
  | null | bool _ | text _ => rfl
  | int n => excessDigits?_eq_none_iff.mpr (.inl h)
  | real x => by
    rw [excess?]
    split
    · split
      · exact excessDigits?_eq_none_iff.mpr (.inl h)
      · rfl
    · rfl
  | tuple items => itemExcess?_eq_none h items
  | list items => itemExcess?_eq_none h items
  | object fields => fieldExcess?_eq_none h fields

private theorem itemExcess?_eq_none (h : DigitLimit.maxDigits = 0) :
    (xs : List Value) → itemExcess? xs = none
  | [] => rfl
  | x :: xs => by rw [itemExcess?, excess?_eq_none h x, itemExcess?_eq_none h xs, Option.none_or]

private theorem fieldExcess?_eq_none (h : DigitLimit.maxDigits = 0) :
    (fields : List (String × Value)) → fieldExcess? fields = none
  | [] => rfl
  | (_, x) :: fields => by
    rw [fieldExcess?, excess?_eq_none h x, fieldExcess?_eq_none h fields, Option.none_or]

end

/-- Without a limit, every value can be written. -/
theorem writable_of_unlimited (h : DigitLimit.maxDigits = 0) (x : Value) : x.writable = true :=
  Option.isNone_iff_eq_none.mpr (excess?_eq_none h x)

/-! ### Equal values -/

theorem excess?_ofDouble (x : Double) : (ofDouble x).excess? = (real x).excess? := by
  cases hx : x.toRat? with
  | none => simp [ofDouble, hx, excess?]
  | some r => by_cases hwhole : r.den = 1 <;> simp [ofDouble, hx, hwhole, excess?]

mutual

private theorem excess?_canonical : (x : Value) → x.canonical.excess? = x.excess?
  | null | int _ | text _ => rfl
  | bool b => by
    cases b with
    | false => exact excessDigits?_of_lt (Nat.pow_pos (by decide))
    | true => exact excessDigits?_of_lt (Nat.one_lt_pow (by decide) (by decide))
  | real x => excess?_ofDouble x
  | tuple items => itemExcess?_canonicalItems items
  | list items => itemExcess?_canonicalItems items
  | object fields => fieldExcess?_canonicalFields fields

private theorem itemExcess?_canonicalItems : (xs : List Value) →
    itemExcess? (canonicalItems xs) = itemExcess? xs
  | [] => rfl
  | x :: xs => by
    rw [canonicalItems, itemExcess?, excess?_canonical x, itemExcess?_canonicalItems xs, itemExcess?]

private theorem fieldExcess?_canonicalFields : (fields : List (String × Value)) →
    fieldExcess? (canonicalFields fields) = fieldExcess? fields
  | [] => rfl
  | (k, x) :: fields => by
    rw [canonicalFields, fieldExcess?, excess?_canonical x, fieldExcess?_canonicalFields fields,
      fieldExcess?]

end

/-- Equal values are both writable or both not. -/
theorem writable_congr {x y : Value} (h : (x == y) = true) : x.writable = y.writable := by
  rw [writable, writable, ← excess?_canonical x, beq_iff_canonical.mp h, excess?_canonical y]

/-- The smallest integer with more digits than can be written. -/
theorem writable_ten_pow (h : DigitLimit.maxDigits ≠ 0) :
    (int (10 ^ DigitLimit.maxDigits : Nat)).writable = false := by
  refine Bool.eq_false_iff.mpr fun hwritable => ?_
  rcases excessDigits?_eq_none_iff.mp (Option.isNone_iff_eq_none.mp hwritable) with hlimit | hlt
  · exact h hlimit
  · exact absurd hlt (lt_irrefl _)

/-- A double can be written. -/
theorem writable_real {x : Double} (hx : x.Representable) : (real x).writable = true := by
  rw [writable, ← excess?_ofDouble, Option.isNone_iff_eq_none]
  cases x with
  | infinite | nan => rfl
  | negativeZero => exact excessDigits?_of_lt (by positivity)
  | finite r =>
    rw [ofDouble, Double.toRat?]
    dsimp only
    split
    · rename_i hwhole
      refine excessDigits?_of_lt ?_
      by_cases hzero : r = 0
      · subst hzero
        positivity
      · -- A whole double is an integer below `2 ^ 1024`, which is far below `10 ^ 640`.
        have hlt := (hx.roundToGrid_abs hzero).2
        have hr : ((r.num : Int) : Rat) = r := Rat.coe_int_num_of_den_eq_one hwhole
        have habs : ((r.num.natAbs : Nat) : Rat) = r.abs := by
          rw [Nat.cast_natAbs, Int.cast_abs, hr]
          rcases le_total 0 r with h | h
          · rw [Rat.abs_of_nonneg h, abs_of_nonneg h]
          · rw [Rat.abs_of_nonpos h, abs_of_nonpos h]
        have hpow : 2 ^ 1024 < 10 ^ 640 := by
          rw [pow_mul 2 8 128, pow_mul 10 5 128]
          exact Nat.pow_lt_pow_left (by decide) (by decide)
        exact (Nat.cast_lt.mp (habs.trans_lt (by exact_mod_cast hlt))).trans hpow
    · rename_i hwhole
      simp [excess?, Double.toRat?, hwhole]

end Value

/-! ### Sets -/

namespace ValueSet

variable {S T : ValueSet}

theorem writable_iff : S.writable = true ↔ ∀ x ∈ S.toList, x.writable = true := List.all_eq_true

/-- Equal sets are both writable or both not. -/
theorem writable_congr (h : (S == T) = true) : S.writable = T.writable := by
  have himp {S T : ValueSet} (h : (S == T) = true) (hS : S.writable = true) : T.writable = true := by
    refine writable_iff.mpr fun y hy => ?_
    obtain ⟨x, hx, hxy⟩ := OrderedSet.contains_iff.mp
      ((OrderedSet.beq_iff.mp h y).trans (OrderedSet.contains_of_mem hy))
    rw [← Value.writable_congr hxy]
    exact writable_iff.mp hS x hx
  exact Bool.eq_iff_iff.mpr ⟨himp h, himp (BEq.symm h)⟩

end ValueSet

/-! ### What is shown -/

omit [DigitLimit] in
theorem mapM_option_eq_ite {α β : Type} {xs : List α} {p : α → Bool} {f : α → β}
    {g : α → Option β} (h : ∀ x ∈ xs, g x = if p x then some (f x) else none) :
    xs.mapM g = if xs.all p then some (xs.map f) else none := by
  induction xs with
  | nil => rfl
  | cons x xs ih =>
    rw [List.forall_mem_cons] at h
    rw [List.mapM_cons, h.1, ih h.2, List.all_cons, List.map_cons]
    cases p x <;> cases xs.all p <;> rfl

/-- Whether values can be shown in order: they are comparable, or they can be written. -/
def sortable (xs : List Value) : Bool :=
  (insertionSort? Value.less? xs).isSome || xs.all Value.writable

theorem sortable_of_writable {xs : List Value} (h : xs.all Value.writable = true) :
    sortable xs = true := by
  rw [sortable, h, Bool.or_true]

/-- No value is comparable with `null`, so that the other one would have to be written. -/
theorem sortable_null_ten_pow (h : DigitLimit.maxDigits ≠ 0) :
    sortable [.null, .int (10 ^ DigitLimit.maxDigits : Nat)] = false := by
  have hnone : insertionSort? Value.less? [.null, .int (10 ^ DigitLimit.maxDigits : Nat)] = none :=
    rfl
  rw [sortable, hnone, List.all_cons, List.all_cons, Value.writable_ten_pow h]
  simp

/-- The order in which values are shown is that without a limit, if there is one. -/
theorem sortSymbols?_eq (xs : List Value) :
    sortSymbols? xs = if sortable xs then some (sortSymbols xs) else none := by
  rw [sortSymbols?, sortSymbolsBy?, sortable, sortSymbols, insertionSort?_some]
  cases insertionSort? Value.less? xs <;> rfl

namespace ValueSet

theorem sorted?_eq (S : ValueSet) :
    S.sorted? = if sortable S.toList then some S.sorted else none :=
  sortSymbols?_eq S.toList

/-- A set is shown as it is without a limit, if its members can be written. -/
theorem render?_eq (S : ValueSet) : S.render? = if S.writable then some S.render else none := by
  have hall : S.sorted.all Value.writable = S.writable :=
    (perm_sortSymbols S.toList).all_eq
  have htexts : S.sorted.mapM Value.display? =
      if S.writable then some (S.sorted.map Value.display) else none :=
    hall ▸ mapM_option_eq_ite fun _ _ => rfl
  rw [render?, sorted?_eq]
  cases hsortable : sortable S.toList with
  | true =>
    simp only [if_true, Option.bind_eq_bind, Option.bind_some, htexts]
    cases S.writable <;> rfl
  | false =>
    have hnot : S.writable = false :=
      Bool.eq_false_iff.mpr fun h => by simp [sortable_of_writable h] at hsortable
    rw [hnot]
    rfl

end ValueSet

end Determinize
