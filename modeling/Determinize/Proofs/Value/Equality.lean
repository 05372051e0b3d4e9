import Determinize.Value.Order
import Mathlib.Algebra.Order.Ring.Rat
import Mathlib.Data.List.Forall2
import Mathlib.Data.Prod.Lex
import Mathlib.Data.String.Basic

/-!
# Equality of values

Two values are equal if they are made alike: numbers at the same place of the extended number line,
the same texts, tuples or lists whose members are equal one by one. The place of a double tells the
two infinities apart from the rational numbers and from each other, and not the two zeros. The
objects that are not a number are told apart, and so have places of their own.

## Main definitions

* `Double.place` — the place of a double.
* `Value.members` — the values of which a value is made.
* `Value.Alike` — how two equal values are made.

## Main results

* `Double.lt_eq_true_iff` — doubles are ordered by place.
* `Value.memberInduction` — induction on the members of values.
* `Value.beq_iff_alike` — equal values are made alike.
-/

namespace Determinize

/-! ### Numbers -/

namespace Double

/-- The place of a double among the infinities, which are left and right of all other numbers, and the
rational numbers. An object that is not a number has a place of its own. -/
def place : Double → Int ×ₗ Rat
  | finite x => toLex (0, x)
  | negativeZero => toLex (0, 0)
  | infinite true => toLex (-1, 0)
  | infinite false => toLex (1, 0)
  | nan tag => toLex (2 + tag, 0)

/-- Numbers are ordered by their places, and nothing else is less than anything. -/
theorem lt_eq_true_iff {x y : Double} :
    x.lt y = true ↔ (x.isNumber = true ∧ y.isNumber = true) ∧ x.place < y.place := by
  have hfinite (r s : Rat) : decide (r < s) = true ↔
      (toLex ((0 : Int), r) : Int ×ₗ Rat) < toLex (0, s) := by
    rw [Prod.Lex.toLex_lt_toLex]
    simp
  match x, y with
  | finite r, finite s => exact (hfinite r s).trans (and_iff_right ⟨rfl, rfl⟩).symm
  | finite r, negativeZero => exact (hfinite r 0).trans (and_iff_right ⟨rfl, rfl⟩).symm
  | negativeZero, finite s => exact (hfinite 0 s).trans (and_iff_right ⟨rfl, rfl⟩).symm
  | negativeZero, negativeZero => exact (hfinite 0 0).trans (and_iff_right ⟨rfl, rfl⟩).symm
  | finite _, infinite true | finite _, infinite false | negativeZero, infinite true
  | negativeZero, infinite false | infinite true, finite _ | infinite false, finite _
  | infinite true, negativeZero | infinite false, negativeZero | infinite true, infinite true
  | infinite true, infinite false | infinite false, infinite true
  | infinite false, infinite false => simp [lt, place, isNumber, Prod.Lex.toLex_lt_toLex]
  | nan _, _ => simp [lt, isNumber]
  | finite _, nan _ | negativeZero, nan _ | infinite _, nan _ => simp [lt, isNumber]

theorem lt_eq_false_iff {x y : Double} (hx : x.isNumber = true) (hy : y.isNumber = true) :
    x.lt y = false ↔ y.place ≤ x.place := by
  rw [← Bool.not_eq_true, lt_eq_true_iff, and_iff_right ⟨hx, hy⟩, not_lt]

theorem eq_or_zeros_of_place_eq {x y : Double} (h : x.place = y.place) :
    x = y ∨ x.toRat? = some 0 ∧ y.toRat? = some 0 := by
  match x, y with
  | finite r, finite s => exact .inl (congrArg finite (Prod.mk.inj (toLex_inj.mp h)).2)
  | finite r, negativeZero => exact .inr ⟨congrArg some (Prod.mk.inj (toLex_inj.mp h)).2, rfl⟩
  | negativeZero, finite s =>
    exact .inr ⟨rfl, congrArg some (Prod.mk.inj (toLex_inj.mp h)).2.symm⟩
  | negativeZero, negativeZero => exact .inl rfl
  | finite _, infinite true | finite _, infinite false | negativeZero, infinite true
  | negativeZero, infinite false | infinite true, finite _ | infinite false, finite _
  | infinite true, negativeZero | infinite false, negativeZero | infinite true, infinite false
  | infinite false, infinite true => cases h
  | infinite true, infinite true | infinite false, infinite false => exact .inl rfl
  | nan s, nan t =>
    have htag : (2 : Int) + s = 2 + t := (Prod.mk.inj (toLex_inj.mp h)).1
    exact .inl (congrArg nan (by omega))
  | nan s, finite _ | nan s, negativeZero | nan s, infinite true | nan s, infinite false =>
    have htag := (Prod.mk.inj (toLex_inj.mp h)).1
    omega
  | finite _, nan t | negativeZero, nan t | infinite true, nan t | infinite false, nan t =>
    have htag := (Prod.mk.inj (toLex_inj.mp h)).1
    omega

/-- Doubles at one place are numbers, or neither is. -/
theorem isNumber_congr {x y : Double} (h : x.place = y.place) : x.isNumber = y.isNumber := by
  rcases eq_or_zeros_of_place_eq h with rfl | ⟨hx, hy⟩
  · rfl
  · have hzero {d : Double} (hd : d.toRat? = some 0) : d.isNumber = true := by
      cases d with
      | infinite | nan => cases hd
      | finite | negativeZero => rfl
    rw [hzero hx, hzero hy]

end Double

namespace Value

/-- The canonical form of a double has the place of the double. -/
theorem exists_number?_ofDouble (x : Double) :
    ∃ a, (ofDouble x).number? = some a ∧ a.place = x.place := by
  rw [ofDouble]
  cases x with
  | finite r =>
    dsimp only [Double.toRat?]
    split
    · rename_i hwhole
      refine ⟨_, rfl, ?_⟩
      have hr : ((r.num : Int) : Rat) = r := Rat.coe_int_num_of_den_eq_one hwhole
      rw [hr]
    · exact ⟨_, rfl, rfl⟩
  | negativeZero => exact ⟨_, rfl, rfl⟩
  | infinite negative => exact ⟨_, rfl, rfl⟩
  | nan tag => exact ⟨_, rfl, rfl⟩

/-- The canonical forms of doubles are equal if their places are. -/
theorem ofDouble_eq_ofDouble_iff {x y : Double} : ofDouble x = ofDouble y ↔ x.place = y.place := by
  constructor
  · intro h
    obtain ⟨a, ha, hax⟩ := exists_number?_ofDouble x
    obtain ⟨b, hb, hby⟩ := exists_number?_ofDouble y
    rw [h, hb] at ha
    injection ha with ha
    rw [← hax, ← hby, ha]
  · intro h
    rcases Double.eq_or_zeros_of_place_eq h with rfl | ⟨hx, hy⟩
    · rfl
    · simp only [ofDouble, hx, hy, Rat.den_ofNat, if_true]

/-- A number is equal to another one at the same place. -/
theorem canonical_eq_ofDouble {x : Value} {a : Double} (h : x.number? = some a) :
    x.canonical = ofDouble a := by
  cases x <;> simp only [number?, Option.some.injEq, reduceCtorEq] at h
  all_goals subst h
  · simp [canonical, ofDouble, Double.toRat?]
  · simp [canonical, ofDouble, Double.toRat?]
  · rfl


/-! ### Members -/

/-- The values of which a value is made. -/
def members : Value → List Value
  | tuple items => items
  | list items => items
  | object fields => fields.map Prod.snd
  | null | bool _ | int _ | real _ | text _ => []

/-- What passes from the members of a value to the value holds of all values. -/
@[elab_as_elim]
theorem memberInduction {P : Value → Prop} (x : Value)
    (step : ∀ x, (∀ y ∈ x.members, P y) → P x) : P x := by
  have hnil : ∀ y ∈ ([] : List Value), P y := fun _ hy => absurd hy List.not_mem_nil
  exact @Value.rec P (fun items => ∀ y ∈ items, P y) (fun fields => ∀ y ∈ fields.map Prod.snd, P y)
    (fun field => P field.2) (step _ hnil) (fun _ => step _ hnil) (fun _ => step _ hnil)
    (fun _ => step _ hnil) (fun _ => step _ hnil) (fun items => step (tuple items))
    (fun items => step (list items)) (fun fields => step (object fields)) hnil
    (fun _ _ hx hitems => List.forall_mem_cons.mpr ⟨hx, hitems⟩) hnil
    (fun _ _ hx hfields => List.forall_mem_cons.mpr ⟨hx, hfields⟩) (fun _ _ hx => hx) x

theorem canonicalItems_eq_map (xs : List Value) : canonicalItems xs = xs.map canonical := by
  induction xs with
  | nil => rfl
  | cons x xs ih => rw [canonicalItems, ih, List.map_cons]

/-- Lists of values are equal if their members are, one by one. -/
theorem canonicalItems_eq_iff {xs ys : List Value} :
    canonicalItems xs = canonicalItems ys ↔ List.Forall₂ (fun x y => (x == y) = true) xs ys := by
  have hforall : canonicalItems xs = canonicalItems ys ↔
      List.Forall₂ (· = ·) (xs.map canonical) (ys.map canonical) := by
    rw [List.forall₂_eq_eq_eq, canonicalItems_eq_map, canonicalItems_eq_map]
  rw [hforall, List.forall₂_map_left_iff, List.forall₂_map_right_iff]
  simp only [beq_iff_canonical]

/-- How two equal values are made. -/
inductive Alike : Value → Value → Prop
  | null : Alike null null
  | number {x y : Value} {a b : Double} (hx : x.number? = some a) (hy : y.number? = some b)
      (h : a.place = b.place) : Alike x y
  | text (s : String) : Alike (text s) (text s)
  | tuple {xs ys : List Value} (h : List.Forall₂ (fun x y => (x == y) = true) xs ys) :
      Alike (tuple xs) (tuple ys)
  | list {xs ys : List Value} (h : List.Forall₂ (fun x y => (x == y) = true) xs ys) :
      Alike (list xs) (list ys)
  | object {fields fields' : List (String × Value)}
      (h : canonicalFields fields = canonicalFields fields') :
      Alike (object fields) (object fields')

theorem exists_number?_canonical {x : Value} {a : Double} (h : x.number? = some a) :
    ∃ b, x.canonical.number? = some b ∧ b.place = a.place :=
  canonical_eq_ofDouble h ▸ exists_number?_ofDouble a

theorem number?_canonical_eq_none {x : Value} (h : x.number? = none) :
    x.canonical.number? = none := by
  cases x <;> simp_all [canonical, number?]

/-- Equal values are made alike. -/
theorem beq_iff_alike {x y : Value} : (x == y) = true ↔ Alike x y := by
  rw [beq_iff_canonical]
  constructor
  · intro h
    cases hx : x.number? with
    | some a =>
      obtain ⟨a', ha', -⟩ := exists_number?_canonical hx
      cases hy : y.number? with
      | some b =>
        rw [canonical_eq_ofDouble hx, canonical_eq_ofDouble hy, ofDouble_eq_ofDouble_iff] at h
        exact .number hx hy h
      | none =>
        rw [h, number?_canonical_eq_none hy] at ha'
        cases ha'
    | none =>
      cases hy : y.number? with
      | some b =>
        obtain ⟨b', hb', -⟩ := exists_number?_canonical hy
        rw [← h, number?_canonical_eq_none hx] at hb'
        cases hb'
      | none =>
        cases x <;> cases y <;> simp only [number?, reduceCtorEq] at hx hy <;>
          simp only [canonical, reduceCtorEq, tuple.injEq, list.injEq, object.injEq,
            text.injEq] at h
        · exact .null
        · exact h ▸ .text _
        · exact .tuple (canonicalItems_eq_iff.mp h)
        · exact .list (canonicalItems_eq_iff.mp h)
        · exact .object h
  · intro h
    cases h with
    | null => rfl
    | number hx hy h =>
      rw [canonical_eq_ofDouble hx, canonical_eq_ofDouble hy, ofDouble_eq_ofDouble_iff.mpr h]
    | text s => rfl
    | tuple h => rw [canonical, canonical, canonicalItems_eq_iff.mpr h]
    | list h => rw [canonical, canonical, canonicalItems_eq_iff.mpr h]
    | object h => rw [canonical, canonical, h]

/-! ### Direct comparison -/

/-- Equal values are numbers, or neither is. -/
theorem isNaN_congr {x y : Value} (h : (x == y) = true) : x.isNaN = y.isNaN := by
  cases beq_iff_alike.mp h with
  | null | text | tuple | list | object => rfl
  | @number x y a b hx hy h =>
    have hnumber {x : Value} {a : Double} (hx : x.number? = some a) : x.isNaN = !a.isNumber := by
      cases x <;> simp only [number?, Option.some.injEq, reduceCtorEq] at hx
      all_goals subst hx; rfl
    rw [hnumber hx, hnumber hy, Double.isNumber_congr h]

theorem differs_congr {x y z : Value} (h : (x == y) = true) : x.differs z = y.differs z := by
  rw [differs, differs, isNaN_congr h, BEq.congr_left h]

/-- Compared themselves, values differ unless they are equal, apart from what is not a number. -/
theorem differs_of_isNaN_eq_false {x y : Value} (hy : y.isNaN = false) :
    x.differs y = !(x == y) := by
  rw [differs]
  cases hxy : x == y with
  | true => rw [isNaN_congr hxy, hy, Bool.false_or]
  | false => exact Bool.or_true _

theorem differs_of_beq_eq_false {x y : Value} (h : (x == y) = false) : x.differs y = true := by
  rw [differs, h]
  exact Bool.or_true _

end Value

end Determinize
