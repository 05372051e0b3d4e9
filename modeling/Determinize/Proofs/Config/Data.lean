import Determinize.Proofs.Config.Agreement
import Determinize.Proofs.Number.Whole
import Determinize.Proofs.Value.Writable
import Mathlib.Data.String.Basic

/-!
# The data that documents denote

Documents denote data without tuples. Their numbers are doubles at first, and finite, since infinity
is refused; then whole doubles become integers. The keys of every object are different and in
ascending order, and so overrides come from a text in ascending order.

An override writes data into data, and what comes out is of this kind again, apart from the order of
the keys.

## Main definitions

* `Value.IsData` — values without tuples, given what a number and the keys of an object can be.
* `Value.IsLoaded`.

## Main results

* `Document.isData_of_evaluateIn?`, `isData_of_evaluateText?` — what documents denote.
* `Evaluator.DeliversData` — what is known of an evaluator of documents.
* `Evaluator.DeliversData.pairwise_lt_of_parseOverrides?` — overrides are in ascending order.
* `Evaluator.DeliversData.isLoaded_of_load?` — what is loaded.
-/

namespace Determinize

variable {externals : List (String × String)}

namespace Value

/-! ### Data -/

/-- Values without tuples in which numbers and the keys of objects are of some kind. -/
inductive IsData (IsNumber : Value → Prop) (AreKeys : List String → Prop) : Value → Prop
  | null : IsData IsNumber AreKeys null
  | bool (b : Bool) : IsData IsNumber AreKeys (bool b)
  | text (s : String) : IsData IsNumber AreKeys (text s)
  | number {x : Value} (h : IsNumber x) : IsData IsNumber AreKeys x
  | list {items : List Value} (h : ∀ x ∈ items, IsData IsNumber AreKeys x) :
      IsData IsNumber AreKeys (list items)
  | object {fields : List (String × Value)} (hkeys : AreKeys (fields.map (·.1)))
      (h : ∀ f ∈ fields, IsData IsNumber AreKeys f.2) : IsData IsNumber AreKeys (object fields)

/-- A number as a double. -/
def IsDouble (x : Value) : Prop := ∃ d : Double, d.Representable ∧ x = real d

/-- A number as a finite double. -/
def IsFinite (x : Value) : Prop :=
  ∃ d : Double, d.Representable ∧ d.toRat?.isSome = true ∧ x = real d

/-- A number as it is read. -/
def IsRead (x : Value) : Prop :=
  ∃ r : Rat, (Double.finite r).Representable ∧ x = ofWholeDouble (.finite r)

/-- Keys in ascending order. -/
def Ascending (keys : List String) : Prop := keys.Pairwise (· < ·)

/-- Data as they are when they have been loaded. -/
def IsLoaded (x : Value) : Prop := x.IsData IsRead List.Nodup

end Value

/-! ### Documents -/

theorem duplicate?_eq_none_iff {keys : List String} :
    Document.duplicate? keys = none ↔ keys.Nodup := by
  induction keys with
  | nil => exact ⟨fun _ => .nil, fun _ => rfl⟩
  | cons key keys ih =>
    rw [Document.duplicate?, List.nodup_cons, ← ih]
    by_cases hkey : key ∈ keys <;> simp [hkey]

/-- Fields with different keys are sorted into ascending order. -/
theorem ascending_insertionSort {fields : List (String × Value)}
    (h : (fields.map (·.1)).Nodup) :
    Value.Ascending ((insertionSort (fun a b => decide (a.1 < b.1)) fields).map (·.1)) := by
  let less (a b : String × Value) : Bool := decide (a.1 < b.1)
  have hless : ∀ a b, less a b = true ↔ a.1 < b.1 := fun _ _ => decide_eq_true_iff
  have hsorted := (consistent_key hless).sorted_of_insertionSort? (fun _ _ => trivial)
    (insertionSort?_some less fields)
  have hnodup := ((perm_insertionSort less fields).map (·.1)).nodup_iff.mpr h
  rw [Value.Ascending, List.pairwise_map]
  refine (hsorted.and (List.pairwise_map.mp hnodup)).imp fun {a b} hab => ?_
  have hle : ¬ b.1 < a.1 := of_decide_eq_false (Option.some.inj hab.1)
  exact lt_of_le_of_ne (not_lt.mp hle) hab.2

/-- The other sign keeps a double. -/
theorem Double.Representable.neg {d : Double} (h : d.Representable) : d.neg.Representable := by
  cases d with
  | finite x =>
    rw [Double.neg]
    split
    · trivial
    · rename_i hx
      obtain ⟨hgrid, hlt⟩ := h.roundToGrid_abs hx
      have hpos : 0 < x.abs :=
        lt_of_le_of_ne Rat.abs_nonneg fun h => hx (Rat.abs_eq_zero_iff.mp h.symm)
      change Double.nearest (-x) = _
      rw [Double.nearest, Rat.abs_neg, Double.nearestOfSign_eq_finite _ hpos hlt hpos hgrid]
      by_cases hneg : x < 0
      · rw [Rat.abs_of_nonpos hneg.le, decide_eq_false (by linarith)]
        rfl
      · have hlt : -x < 0 := neg_lt_zero.mpr (lt_of_le_of_ne (not_lt.mp hneg) (Ne.symm hx))
        rw [Rat.abs_of_nonneg (not_lt.mp hneg), decide_eq_true hlt]
        rfl
  | negativeZero => exact Double.representable_zero false
  | infinite => trivial
  | nan tag => exact h.elim

namespace Document

theorem isDouble_of_negate? {w v : Value} (hw : w.IsData Value.IsDouble Value.Ascending)
    (h : negate? w = .ok v) : v.IsDouble := by
  cases w with
  | real d =>
    cases hw with
    | number hd =>
      obtain ⟨d, hrepresentable, heq⟩ := hd
      cases heq
      exact ⟨_, hrepresentable.neg, (Except.ok.inj h).symm⟩
  | null | bool | int | text | tuple | list | object => cases h

theorem exists_of_external?_eq_ok {w v : Value} (h : external? externals w = .ok v) :
    ∃ s, v = .text s := by
  cases w with
  | text s =>
    rw [external?] at h
    split at h
    · exact ⟨_, (Except.ok.inj h).symm⟩
    · cases h
  | null | bool | int | real | tuple | list | object => cases h

mutual

/-- What a document denotes is data. -/
theorem isData_of_evaluateIn? {depth : Nat} {scope : Scope} {x : Document} {v : Value}
    (h : x.evaluateIn? externals depth scope = .ok v) :
    v.IsData Value.IsDouble Value.Ascending := by
  cases x with
  | null =>
    rw [evaluateIn?] at h
    exact Except.ok.inj h ▸ .null
  | bool b =>
    rw [evaluateIn?] at h
    exact Except.ok.inj h ▸ .bool b
  | text s =>
    rw [evaluateIn?] at h
    exact Except.ok.inj h ▸ .text s
  | number n =>
    rw [evaluateIn?] at h
    exact Except.ok.inj h ▸ .number ⟨_, Double.representable_ofDecimal _ _ _, rfl⟩
  | negation x =>
    rw [evaluateIn?] at h
    obtain ⟨w, hw, h⟩ := exists_of_bind_eq_ok h
    exact .number (isDouble_of_negate? (isData_of_evaluateIn? hw) h)
  | reference name =>
    rw [evaluateIn?] at h
    split at h
    · rw [unbound?] at h
      split at h
      · exact Except.ok.inj h ▸ .object .nil fun _ hf => absurd hf List.not_mem_nil
      · cases h
    · split at h
      · cases h
      · exact isData_of_evaluateIn? h
  | external source =>
    rw [evaluateIn?] at h
    split at h
    · cases h
    · obtain ⟨w, -, h⟩ := exists_of_bind_eq_ok h
      obtain ⟨s, rfl⟩ := exists_of_external?_eq_ok h
      exact .text s
  | list items =>
    rw [evaluateIn?] at h
    obtain ⟨vs, hvs, h⟩ := exists_of_bind_eq_ok h
    exact Except.ok.inj h ▸ .list (isData_of_evaluateItems? hvs)
  | object fields =>
    rw [evaluateIn?] at h
    split at h
    · cases h
    · rename_i hkeys
      obtain ⟨vs, hvs, h⟩ := exists_of_bind_eq_ok h
      obtain ⟨hsame, hdata⟩ := isData_of_evaluateFields? hvs
      have hnodup := duplicate?_eq_none_iff.mp hkeys
      rw [← hsame] at hnodup
      refine Except.ok.inj h ▸ .object (ascending_insertionSort hnodup) fun f hf => ?_
      exact hdata f ((perm_insertionSort _ vs).mem_iff.mp hf)
  | binding frame body =>
    rw [evaluateIn?] at h
    exact isData_of_evaluateIn? h
termination_by (depth, sizeOf x)

theorem isData_of_evaluateItems? {depth : Nat} {scope : Scope} {items : List Document}
    {vs : List Value} (h : evaluateItems? externals depth scope items = .ok vs) :
    ∀ v ∈ vs, v.IsData Value.IsDouble Value.Ascending := by
  cases items with
  | nil =>
    rw [evaluateItems?] at h
    exact Except.ok.inj h ▸ fun _ hv => absurd hv List.not_mem_nil
  | cons x xs =>
    rw [evaluateItems?] at h
    obtain ⟨v, hv, h⟩ := exists_of_bind_eq_ok h
    obtain ⟨vs, hvs, h⟩ := exists_of_bind_eq_ok h
    exact Except.ok.inj h ▸ List.forall_mem_cons.mpr
      ⟨isData_of_evaluateIn? hv, isData_of_evaluateItems? hvs⟩
termination_by (depth, sizeOf items)

theorem isData_of_evaluateFields? {depth : Nat} {scope : Scope}
    {fields : List (String × Document)} {vs : List (String × Value)}
    (h : evaluateFields? externals depth scope fields = .ok vs) :
    vs.map (·.1) = fields.map (·.1) ∧
      ∀ f ∈ vs, f.2.IsData Value.IsDouble Value.Ascending := by
  match fields, h with
  | [], h =>
    rw [evaluateFields?] at h
    exact Except.ok.inj h ▸ ⟨rfl, fun _ hf => absurd hf List.not_mem_nil⟩
  | (k, x) :: fields, h =>
    rw [evaluateFields?] at h
    obtain ⟨v, hv, h⟩ := exists_of_bind_eq_ok h
    obtain ⟨vs, hvs, h⟩ := exists_of_bind_eq_ok h
    obtain ⟨hkeys, hdata⟩ := isData_of_evaluateFields? hvs
    exact Except.ok.inj h ▸ ⟨congrArg (k :: ·) hkeys,
      List.forall_mem_cons.mpr ⟨isData_of_evaluateIn? hv, hdata⟩⟩
termination_by (depth, sizeOf fields)

end

end Document

/-! ### Infinity -/

section Infinity

open Json (positionAfter? positionAfterItems? positionAfterFields? firstInfinity? Position)

variable {AreKeys : List String → Prop} {x : Value}

theorem exists_positionAfter?_of_items {items : List Value} {depth : Nat} {p q : Position}
    {first : Bool} (h : positionAfterItems? depth p first items = .ok q) :
    ∀ x ∈ items, ∃ depth p q, positionAfter? depth p x = .ok q := by
  induction items generalizing p first with
  | nil => exact fun _ hx => absurd hx List.not_mem_nil
  | cons x xs ih =>
    rw [positionAfterItems?] at h
    obtain ⟨p', hp, h⟩ := exists_of_bind_eq_ok h
    exact List.forall_mem_cons.mpr ⟨⟨_, _, p', hp⟩, ih h⟩

theorem exists_positionAfter?_of_fields {fields : List (String × Value)} {depth : Nat}
    {p q : Position} {first : Bool} (h : positionAfterFields? depth p first fields = .ok q) :
    ∀ f ∈ fields, ∃ depth p q, positionAfter? depth p f.2 = .ok q := by
  induction fields generalizing p first with
  | nil => exact fun _ hf => absurd hf List.not_mem_nil
  | cons field fields ih =>
    rw [positionAfterFields?] at h
    obtain ⟨p', hp, h⟩ := exists_of_bind_eq_ok h
    exact List.forall_mem_cons.mpr ⟨⟨_, _, p', hp⟩, ih h⟩

/-- Data that have a last position hold no infinity. -/
theorem Value.IsData.isFinite (hx : x.IsData Value.IsDouble AreKeys) {depth : Nat} {p q : Position}
    (h : positionAfter? depth p x = .ok q) : x.IsData Value.IsFinite AreKeys := by
  induction hx generalizing depth p q with
  | null => exact .null
  | bool b => exact .bool b
  | text s => exact .text s
  | number hx =>
    obtain ⟨d, hd, rfl⟩ := hx
    cases d with
    | infinite => cases h
    | nan tag => exact hd.elim
    | finite | negativeZero => exact .number ⟨_, hd, rfl, rfl⟩
  | @list items _ ih =>
    refine .list fun x hx => ?_
    cases items with
    | nil => cases hx
    | cons y ys =>
      simp only [positionAfter?] at h
      obtain ⟨_, hitems, -⟩ := exists_of_bind_eq_ok h
      obtain ⟨_, _, _, hp⟩ := exists_positionAfter?_of_items hitems x hx
      exact ih x hx hp
  | @object fields hkeys _ ih =>
    refine .object hkeys fun f hf => ?_
    cases fields with
    | nil => cases hf
    | cons field fields =>
      simp only [positionAfter?] at h
      obtain ⟨_, hfields, -⟩ := exists_of_bind_eq_ok h
      obtain ⟨_, _, _, hp⟩ := exists_positionAfter?_of_fields hfields f hf
      exact ih f hf hp

theorem exists_positionAfterItems? {items : List Value}
    (h : ∀ x ∈ items, ∀ depth p, ∃ q, positionAfter? depth p x = .ok q) (depth : Nat)
    (p : Position) (first : Bool) : ∃ q, positionAfterItems? depth p first items = .ok q := by
  induction items generalizing p first with
  | nil => exact ⟨p, rfl⟩
  | cons x xs ih =>
    rw [List.forall_mem_cons] at h
    obtain ⟨q, hq⟩ := h.1 depth (p.after (Json.separator first depth))
    rw [positionAfterItems?, hq]
    exact ih h.2 q false

theorem exists_positionAfterFields? {fields : List (String × Value)}
    (h : ∀ f ∈ fields, ∀ depth p, ∃ q, positionAfter? depth p f.2 = .ok q) (depth : Nat)
    (p : Position) (first : Bool) : ∃ q, positionAfterFields? depth p first fields = .ok q := by
  induction fields generalizing p first with
  | nil => exact ⟨p, rfl⟩
  | cons f fields ih =>
    rw [List.forall_mem_cons] at h
    obtain ⟨q, hq⟩ := h.1 depth
      ((p.after (Json.separator first depth)).after (Json.writePlainText f.1 ++ ": ".toList))
    rw [positionAfterFields?, hq]
    exact ih h.2 q false

/-- Data without infinity have a last position. -/
theorem Value.IsData.exists_positionAfter? (hx : x.IsData Value.IsFinite AreKeys) (depth : Nat)
    (p : Position) : ∃ q, positionAfter? depth p x = .ok q := by
  induction hx generalizing depth p with
  | null | bool | text => exact ⟨_, rfl⟩
  | number hx =>
    obtain ⟨d, -, hfinite, rfl⟩ := hx
    cases d with
    | infinite | nan => cases hfinite
    | finite | negativeZero => exact ⟨_, rfl⟩
  | @list items _ ih =>
    cases items with
    | nil => exact ⟨_, rfl⟩
    | cons x xs =>
      obtain ⟨q, hq⟩ := exists_positionAfterItems? ih (depth + 1) (p.after ['[']) true
      simp only [positionAfter?, hq]
      exact ⟨_, rfl⟩
  | @object fields _ _ ih =>
    cases fields with
    | nil => exact ⟨_, rfl⟩
    | cons f fields =>
      obtain ⟨q, hq⟩ := exists_positionAfterFields? ih (depth + 1) (p.after ['\x7b']) true
      simp only [positionAfter?, hq]
      exact ⟨_, rfl⟩

theorem firstInfinity?_eq_none_iff (hx : x.IsData Value.IsDouble AreKeys) :
    firstInfinity? x = none ↔ x.IsData Value.IsFinite AreKeys := by
  rw [firstInfinity?]
  constructor
  · intro h
    split at h
    · rename_i hposition
      exact hx.isFinite hposition
    · cases h
  · intro h
    obtain ⟨q, hq⟩ := h.exists_positionAfter? 0 .start
    rw [hq]

end Infinity

/-! ### Whole numbers -/

namespace Value

variable {AreKeys AreKeys' : List String → Prop} {x : Value}

theorem withIntegersItems_eq_map (xs : List Value) :
    withIntegersItems xs = xs.map withIntegers := by
  induction xs with
  | nil => rfl
  | cons x xs ih => rw [withIntegersItems, ih, List.map_cons]

theorem withIntegersFields_eq_map (fields : List (String × Value)) :
    withIntegersFields fields = fields.map fun f => (f.1, f.2.withIntegers) := by
  induction fields with
  | nil => rfl
  | cons field fields ih => rw [withIntegersFields, ih, List.map_cons]

theorem isRead_ofWholeDouble {d : Double} (hd : d.Representable)
    (hfinite : d.toRat?.isSome = true) :
    IsRead (ofWholeDouble d) := by
  cases d with
  | finite r => exact ⟨r, hd, rfl⟩
  | negativeZero => exact ⟨0, Double.representable_zero false, rfl⟩
  | infinite | nan => cases hfinite

theorem IsData.withIntegers (hx : x.IsData IsFinite AreKeys) :
    x.withIntegers.IsData IsRead AreKeys := by
  induction hx with
  | null => exact .null
  | bool b => exact .bool b
  | text s => exact .text s
  | number hx =>
    obtain ⟨d, hd, hfinite, rfl⟩ := hx
    exact .number (isRead_ofWholeDouble hd hfinite)
  | list _ ih =>
    rw [Value.withIntegers, withIntegersItems_eq_map]
    exact .list (List.forall_mem_map.mpr ih)
  | object hkeys _ ih =>
    rw [Value.withIntegers, withIntegersFields_eq_map]
    refine .object ?_ (List.forall_mem_map.mpr ih)
    rw [List.map_map]
    exact hkeys

theorem IsData.imp_keys {IsNumber : Value → Prop} (hx : x.IsData IsNumber AreKeys)
    (h : ∀ keys, AreKeys keys → AreKeys' keys) : x.IsData IsNumber AreKeys' := by
  induction hx with
  | null => exact .null
  | bool b => exact .bool b
  | text s => exact .text s
  | number hx => exact .number hx
  | list _ ih => exact .list ih
  | object hkeys _ ih => exact .object (h _ hkeys) ih

theorem Ascending.nodup {keys : List String} (h : Ascending keys) : keys.Nodup :=
  h.imp ne_of_lt

end Value

/-- What a text denotes is data whose keys are in ascending order. -/
theorem isData_of_evaluateText? {s : String} {x : Value} (h : evaluateText? externals s = .ok x) :
    x.IsData Value.IsRead Value.Ascending := by
  rw [evaluateText?] at h
  split at h
  · cases h
  · obtain ⟨y, hy, h⟩ := exists_of_bind_eq_ok h
    have hdata := Document.isData_of_evaluateIn? hy
    split at h
    · cases h
    · rename_i hfinite
      exact Except.ok.inj h ▸ ((firstInfinity?_eq_none_iff hdata).mp hfinite).withIntegers

/-! ### Loaded data -/

namespace Value

variable {x y v : Value} {p : Place} {ps : List Place}

theorem IsRead.cases (h : IsRead x) : (∃ n, x = int n) ∨ ∃ d, x = real d := by
  obtain ⟨r, -, rfl⟩ := h
  rw [ofWholeDouble, Double.toRat?]
  dsimp only
  split
  · exact .inl ⟨_, rfl⟩
  · split
    · exact .inl ⟨_, rfl⟩
    · exact .inr ⟨_, rfl⟩

/-- Numbers that are read do not have too many digits. -/
theorem IsRead.excess?_eq_none (h : IsRead x) : x.excess? = none := by
  obtain ⟨r, hr, rfl⟩ := h
  rcases IsRead.cases ⟨r, hr, rfl⟩ with ⟨n, hn⟩ | ⟨d, hd⟩
  · rw [hn]
    exact excessDigits?_of_lt ((natAbs_lt_of_ofWholeDouble hr hn).trans_le
      (Nat.pow_le_pow_right (by decide) (by decide)))
  · have hreal : ofWholeDouble (.finite r) = real (.finite r) := by
      rw [ofWholeDouble, Double.toRat?] at hd ⊢
      dsimp only at hd ⊢
      split_ifs at hd ⊢
      rfl
    rw [hreal]
    exact Option.isNone_iff_eq_none.mp (writable_real hr)

theorem IsData.excess?_eq_none {AreKeys : List String → Prop} (hx : x.IsData IsRead AreKeys) :
    x.excess? = none := by
  induction hx with
  | null | bool | text => rfl
  | number hx => exact hx.excess?_eq_none
  | list _ ih => exact itemExcess?_eq_none_iff.mpr ih
  | object _ _ ih => exact fieldExcess?_eq_none_iff.mpr ih

theorem isLoaded_list_iff {items : List Value} :
    (list items).IsLoaded ↔ ∀ x ∈ items, x.IsLoaded := by
  refine ⟨fun h => ?_, .list⟩
  cases h with
  | number h => rcases h.cases with ⟨_, h⟩ | ⟨_, h⟩ <;> cases h
  | list h => exact h

theorem isLoaded_object_iff {fields : List (String × Value)} :
    (object fields).IsLoaded ↔ (fields.map (·.1)).Nodup ∧ ∀ f ∈ fields, f.2.IsLoaded := by
  refine ⟨fun h => ?_, fun h => .object h.1 h.2⟩
  cases h with
  | number h => rcases h.cases with ⟨_, h⟩ | ⟨_, h⟩ <;> cases h
  | object hkeys h => exact ⟨hkeys, h⟩

theorem mem_setField {k : String} {f : String × Value} {fields : List (String × Value)}
    (h : f ∈ setField k v fields) : f = (k, v) ∨ f ∈ fields := by
  induction fields with
  | nil => exact .inl (List.mem_singleton.mp h)
  | cons field fields ih =>
    rw [setField] at h
    split at h
    · rename_i hk
      rcases List.mem_cons.mp h with rfl | h
      · exact .inl (by rw [hk])
      · exact .inr (List.mem_cons_of_mem _ h)
    · rcases List.mem_cons.mp h with rfl | h
      · exact .inr List.mem_cons_self
      · exact (ih h).imp_right (List.mem_cons_of_mem _)

theorem IsLoaded.at? (hx : x.IsLoaded) (h : x.at? p = some y) : y.IsLoaded := by
  cases admits_of_at? h with
  | field => exact (isLoaded_object_iff.mp hx).2 _ (mem_of_lookup h)
  | item => exact isLoaded_list_iff.mp hx y (List.mem_of_getElem? h)

theorem IsLoaded.write (hx : x.IsLoaded) (hp : x.Admits p) (hv : v.IsLoaded) :
    (x.write p v).IsLoaded := by
  cases hp with
  | field fields key =>
    obtain ⟨hkeys, hfields⟩ := isLoaded_object_iff.mp hx
    refine isLoaded_object_iff.mpr ⟨?_, fun f hf => ?_⟩
    · rw [map_fst_setField]
      split
      · exact hkeys
      · rename_i hkey
        refine List.nodup_append.mpr ⟨hkeys, List.nodup_singleton key, fun k hk k' hk' => ?_⟩
        rw [List.mem_singleton.mp hk']
        exact fun heq => hkey (heq ▸ hk)
    · rcases mem_setField hf with rfl | hf
      · exact hv
      · exact hfields f hf
  | item =>
    refine isLoaded_list_iff.mpr fun y hy => ?_
    rcases List.mem_or_eq_of_mem_set hy with hy | rfl
    · exact isLoaded_list_iff.mp hx y hy
    · exact hv

theorem IsLoaded.writeAt (hx : x.IsLoaded) (hps : x.Room ps) (hv : v.IsLoaded) :
    (x.writeAt ps v).IsLoaded := by
  induction hps with
  | last hp => exact hx.write hp hv
  | inner hy _ ih =>
    rw [writeAt_cons hy]
    exact hx.write (admits_of_at? hy) (ih (hx.at? hy))

end Value

/-- Overrides with data make data of data. -/
theorem isLoaded_of_applyOverrides? {x m : Value} {os : List (String × Value)} (hx : x.IsLoaded)
    (hos : ∀ o ∈ os, o.2.IsLoaded) (h : applyOverrides? x os = .ok m) : m.IsLoaded := by
  induction os generalizing x with
  | nil => exact Except.ok.inj h ▸ hx
  | cons o os ih =>
    rw [List.forall_mem_cons] at hos
    obtain ⟨y, hy, h⟩ := applyOverrides?_cons_eq_ok_iff.mp h
    obtain ⟨ps, hps, rfl⟩ := applyOverride?_eq_ok_iff.mp hy
    exact ih (hx.writeAt hps.room hos.1) hos.2 h

/-! ### Loading -/

theorem mapError_eq_ok_iff {ε ε' α : Type} {f : ε → ε'} {x : Except ε α} {a : α} :
    x.mapError f = .ok a ↔ x = .ok a := by
  cases x <;> simp [Except.mapError]

/-- What is known of an evaluator: it delivers data with the numbers that are read from JSON, the keys of
each object being in ascending order. -/
def Evaluator.DeliversData (evaluate : Evaluator) : Prop :=
  ∀ externals s x, evaluate externals s = .ok x → x.IsData Value.IsRead Value.Ascending

theorem deliversData_evaluateText? : Evaluator.DeliversData evaluateText? :=
  fun _ _ _ => isData_of_evaluateText?

section Loading

variable {evaluate : Evaluator} {externals : List (String × String)} {s overrides : String}
  {x m : Value} {os : List (String × Value)}

theorem readData?_eq_ok_iff : readData? evaluate externals s = .ok x ↔
    evaluate externals s = .ok x ∧ x.excess? = none := by
  rw [readData?, bind_eq_ok_iff]
  simp only [mapError_eq_ok_iff]
  constructor
  · rintro ⟨y, hy, h⟩
    split at h
    · cases h
    · rename_i hnone
      obtain ⟨⟩ := h
      exact ⟨hy, hnone⟩
  · rintro ⟨hx, hnone⟩
    refine ⟨x, hx, ?_⟩
    rw [hnone]
    rfl

/-- Data with numbers that are read from JSON are not refused. -/
theorem readData?_of_isData (hx : x.IsData Value.IsRead Value.Ascending)
    (h : evaluate externals s = .ok x) : readData? evaluate externals s = .ok x :=
  readData?_eq_ok_iff.mpr ⟨h, hx.excess?_eq_none⟩

theorem parseOverrides?_of_readData? (hs : s.isEmpty = false)
    (h : readData? evaluate externals s = .ok (.object os)) :
    parseOverrides? evaluate externals s = .ok os := by
  rw [parseOverrides?, hs, if_neg Bool.false_ne_true, h]
  rfl

theorem load?_eq_ok_iff : load? evaluate externals s overrides = .ok m ↔
    ∃ x os, readData? evaluate externals s = .ok x ∧
      parseOverrides? evaluate externals overrides = .ok os ∧ applyOverrides? x os = .ok m := by
  simp only [load?, bind_eq_ok_iff, mapError_eq_ok_iff]
  exact ⟨fun ⟨x, hx, os, h⟩ => ⟨x, os, hx, h⟩, fun ⟨x, os, hx, h⟩ => ⟨x, hx, os, h⟩⟩

section Delivered

variable (hevaluate : evaluate.DeliversData)

include hevaluate

theorem Evaluator.DeliversData.isData_of_readData? (h : readData? evaluate externals s = .ok x) :
    x.IsData Value.IsRead Value.Ascending :=
  hevaluate _ _ _ (readData?_eq_ok_iff.mp h).1

/-- What overrides are written in an object. -/
theorem Evaluator.DeliversData.isData_of_parseOverrides?
    (h : parseOverrides? evaluate externals s = .ok os) :
    (Value.object os).IsData Value.IsRead Value.Ascending := by
  rw [parseOverrides?] at h
  split at h
  · exact Except.ok.inj h ▸ .object .nil fun _ ho => absurd ho List.not_mem_nil
  · obtain ⟨x, hx, h⟩ := exists_of_bind_eq_ok h
    split at h
    · exact Except.ok.inj h ▸ hevaluate.isData_of_readData? hx
    · cases h

/-- Overrides come in ascending order. -/
theorem Evaluator.DeliversData.pairwise_lt_of_parseOverrides?
    (h : parseOverrides? evaluate externals s = .ok os) : os.Pairwise fun o o' => o.1 < o'.1 := by
  cases hevaluate.isData_of_parseOverrides? h with
  | number h => rcases h.cases with ⟨_, h⟩ | ⟨_, h⟩ <;> cases h
  | object hkeys => exact List.pairwise_map.mp hkeys

/-- What is loaded is data. -/
theorem Evaluator.DeliversData.isLoaded_of_load?
    (h : load? evaluate externals s overrides = .ok m) : m.IsLoaded := by
  obtain ⟨x, os, hx, hos, hm⟩ := load?_eq_ok_iff.mp h
  have hx := (hevaluate.isData_of_readData? hx).imp_keys fun _ => Value.Ascending.nodup
  have hos := (hevaluate.isData_of_parseOverrides? hos).imp_keys fun _ => Value.Ascending.nodup
  exact isLoaded_of_applyOverrides? hx (Value.isLoaded_object_iff.mp hos).2 hm

end Delivered

end Loading

end Determinize
