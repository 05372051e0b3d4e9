import Determinize.Proofs.Config.Position
import Determinize.Proofs.Number.Text
import Determinize.Proofs.Value.Hashable
import Mathlib.Data.List.Forall2
import Mathlib.Data.List.TakeWhile

/-!
# Segments and the places they select

A segment of a key names the field that has it as its key, and it names an item of a list if it
consists of decimal digits: of any script, and with zeros in front or without. An item is selected
by such digits unless there are more of them than an integer can have. The segments of a key lead
through some data to a position if each of them selects a place there, and there is room at the
position. Where they lead, and only there, an override writes its value.

Positions have keys: the keys and indices of the places, joined by dots. As long as no key of a
place has a dot of its own, the segments of the key are those of the places.

## Main definitions

* `decimalNumber?` — the number that decimal digits denote.
* `Place.IsNamed`, `Place.IsSelected` — a segment and a place.
* `Value.LeadsTo` — segments and a position.
* `Place.segment`, `dottedKey` — the key of a position.

## Main results

* `segmentIndex?_eq_ok_some_iff`, `Value.put?_eq_ok_iff` — what overrides write.
* `Value.leads_dottedKey` — positions have keys.
-/

namespace Determinize

/-! ### Numbers -/

/-- The number that decimal digits of any script denote. Other texts denote none. -/
def decimalNumber? (key : String) : Option Nat :=
  if key.toList.isEmpty then none else (key.toList.mapM Text.decimalDigit?).map ofDigits

theorem isSome_of_mapM_decimalDigit? {cs : List Char} {ds : List Nat}
    (h : cs.mapM Text.decimalDigit? = some ds) : ∀ c ∈ cs, (Text.decimalDigit? c).isSome := by
  induction cs generalizing ds with
  | nil => exact fun _ hc => absurd hc List.not_mem_nil
  | cons c cs ih =>
    rw [List.mapM_cons] at h
    obtain ⟨d, hd, h⟩ := Option.bind_eq_some_iff.mp h
    obtain ⟨ds', hds, -⟩ := Option.bind_eq_some_iff.mp h
    exact List.forall_mem_cons.mpr ⟨Option.isSome_of_eq_some hd, ih hds⟩

/-- A segment is read as the index of an item if it has decimal digits, and not too many. -/
theorem segmentIndex?_eq_ok_some_iff {key : String} {i : Nat} :
    segmentIndex? key = .ok (some i) ↔
      decimalNumber? key = some i ∧ key.toList.length ≤ digitLimit := by
  rw [segmentIndex?, decimalNumber?]
  dsimp only
  cases hds : key.toList.mapM Text.decimalDigit? with
  | none =>
    simp only [Option.map_none, ite_self, reduceCtorEq, false_and, iff_false]
    split
    · simp
    · split <;> simp
  | some ds =>
    have hdigits := isSome_of_mapM_decimalDigit? hds
    have hall : key.toList.all Text.isDigit = true :=
      List.all_eq_true.mpr fun c hc => by rw [Text.isDigit, hdigits c hc, Bool.true_or]
    have htake : (key.toList.takeWhile fun c => (Text.decimalDigit? c).isSome) = key.toList :=
      List.takeWhile_eq_self_iff.mpr hdigits
    rw [hall, htake, Bool.not_true, Bool.or_false]
    split
    · simp
    · split
      · simp; omega
      · simp; omega

theorem decimalDigit?_of_isDigit {c : Char} (h : c.isDigit = true) :
    Text.decimalDigit? c = some (c.toNat - '0'.toNat) := by
  simp only [Char.isDigit, Bool.and_eq_true, decide_eq_true_eq] at h
  have hrange : 0x30 ≤ c.toNat ∧ c.toNat < 0x30 + 10 := ⟨h.1, Nat.lt_succ_of_le h.2⟩
  rw [Text.decimalDigit?, Text.decimalZeros, List.find?_cons_of_pos (by simpa using hrange)]
  rfl

theorem mapM_decimalDigit?_of_isDigit {cs : List Char} (h : ∀ c ∈ cs, c.isDigit = true) :
    cs.mapM Text.decimalDigit? = some (cs.map fun c => c.toNat - '0'.toNat) := by
  induction cs with
  | nil => rfl
  | cons c cs ih =>
    rw [List.forall_mem_cons] at h
    rw [List.mapM_cons, decimalDigit?_of_isDigit h.1, ih h.2]
    rfl

theorem decimalNumber?_of_isDigit {key : String} (hne : key.toList ≠ [])
    (h : ∀ c ∈ key.toList, c.isDigit = true) :
    decimalNumber? key = some (Nat.ofDigitChars 10 key.toList 0) := by
  rw [decimalNumber?, if_neg (by simpa using hne), mapM_decimalDigit?_of_isDigit h,
    Option.map_some, Numeral.ofDigits_map]

/-- The digits of a number denote the number. -/
theorem decimalNumber?_toString (n : Nat) : decimalNumber? (toString n) = some n := by
  have hdigits : (toString n).toList = Nat.toDigits 10 n := Nat.toList_repr
  rw [decimalNumber?_of_isDigit (hdigits ▸ Nat.toDigits_ne_nil)
    (hdigits ▸ Numeral.isDigit_toDigits n), hdigits, Nat.ofDigitChars_ten_toDigits]

/-! ### Segments that select places -/

/-- A segment names a place: it is the key of a field, or it denotes the index of an item. -/
def Place.IsNamed (key : String) : Place → Prop
  | field k => k = key
  | item i => decimalNumber? key = some i

/-- A segment selects a place: it names it, and an index has not more digits than an integer can
have. -/
def Place.IsSelected (key : String) : Place → Prop
  | field k => k = key
  | item i => decimalNumber? key = some i ∧ key.toList.length ≤ digitLimit

theorem Place.IsSelected.isNamed {key : String} {p : Place} (h : p.IsSelected key) :
    p.IsNamed key := by
  cases p with
  | field => exact h
  | item => exact h.1

/-- The segments of a key lead to a position: each selects a place, and there is room. -/
structure Value.LeadsTo (x : Value) (keys : List String) (ps : List Place) : Prop where
  selected : List.Forall₂ (fun key p => Place.IsSelected key p) keys ps
  room : x.Room ps

namespace Value

variable {x y v m : Value} {p : Place} {ps : List Place} {key : String} {keys path : List String}

theorem place?_eq_ok_iff :
    x.place? path key = .ok p ↔ p.IsSelected key ∧ x.Admits p := by
  cases x with
  | object fields =>
    rw [place?]
    constructor
    · intro h
      obtain rfl := Except.ok.inj h
      exact ⟨rfl, .field fields key⟩
    · rintro ⟨hkey, hadmits⟩
      cases hadmits
      rw [show key = _ from hkey.symm]
  | list items =>
    rw [place?, bind_eq_ok_iff]
    constructor
    · rintro ⟨index, hindex, h⟩
      cases index with
      | none => cases h
      | some i =>
        dsimp only at h
        split at h
        · rename_i hi
          obtain rfl := Except.ok.inj h
          exact ⟨segmentIndex?_eq_ok_some_iff.mp hindex, .item hi⟩
        · cases h
    · rintro ⟨hkey, hadmits⟩
      cases hadmits with
      | item hi => exact ⟨some _, segmentIndex?_eq_ok_some_iff.mpr hkey, if_pos hi⟩
  | null | bool | int | real | text | tuple =>
    constructor
    · intro h
      cases h
    · rintro ⟨-, hadmits⟩
      cases hadmits

theorem leads_singleton_iff :
    x.LeadsTo [key] ps ↔ ∃ p, ps = [p] ∧ p.IsSelected key ∧ x.Admits p := by
  constructor
  · rintro ⟨hselected, hroom⟩
    cases hselected with
    | cons hkey hnil =>
      cases hnil
      cases hroom with
      | last hadmits => exact ⟨_, rfl, hkey, hadmits⟩
      | inner _ hrest => cases hrest
  · rintro ⟨p, rfl, hkey, hadmits⟩
    exact ⟨.cons hkey .nil, .last hadmits⟩

theorem leads_cons_iff (hne : keys ≠ []) :
    x.LeadsTo (key :: keys) ps ↔ ∃ p y qs, ps = p :: qs ∧ p.IsSelected key ∧ x.at? p = some y ∧
      y.LeadsTo keys qs := by
  constructor
  · rintro ⟨hselected, hroom⟩
    cases hselected with
    | cons hkey hrest =>
      cases hroom with
      | last =>
        cases hrest
        exact absurd rfl hne
      | inner hy hroom => exact ⟨_, _, _, rfl, hkey, hy, hrest, hroom⟩
  · rintro ⟨p, y, qs, rfl, hkey, hy, hrest, hroom⟩
    exact ⟨.cons hkey hrest, .inner hy hroom⟩

/-- A value is written where the segments lead, and only there. -/
theorem put?_eq_ok_iff (hne : keys ≠ []) :
    x.put? path keys v = .ok m ↔ ∃ ps, x.LeadsTo keys ps ∧ m = x.writeAt ps v := by
  induction keys generalizing x path m with
  | nil => exact absurd rfl hne
  | cons key keys ih =>
    cases keys with
    | nil =>
      simp only [leads_singleton_iff, put?, bind_eq_ok_iff, place?_eq_ok_iff]
      constructor
      · rintro ⟨p, hp, h⟩
        exact ⟨[p], ⟨p, rfl, hp⟩, (Except.ok.inj h).symm⟩
      · rintro ⟨_, ⟨p, rfl, hp⟩, rfl⟩
        exact ⟨p, hp, rfl⟩
    | cons next rest =>
      have hrest : next :: rest ≠ [] := List.cons_ne_nil _ _
      simp only [leads_cons_iff hrest, put?, bind_eq_ok_iff, place?_eq_ok_iff]
      constructor
      · rintro ⟨p, hp, h⟩
        cases hy : x.at? p with
        | none => simp only [hy] at h; cases h
        | some y =>
          simp only [hy] at h
          obtain ⟨y', hput, h⟩ := bind_eq_ok_iff.mp h
          obtain ⟨qs, hqs, rfl⟩ := (ih hrest).mp hput
          refine ⟨p :: qs, ⟨p, y, qs, rfl, hp.1, hy, hqs⟩, ?_⟩
          rw [writeAt_cons hy]
          exact (Except.ok.inj h).symm
      · rintro ⟨_, ⟨p, y, qs, rfl, hkey, hy, hqs⟩, rfl⟩
        refine ⟨p, ⟨hkey, admits_of_at? hy⟩, ?_⟩
        simp only [hy, writeAt_cons hy]
        exact bind_eq_ok_iff.mpr ⟨_, (ih hrest).mpr ⟨qs, hqs, rfl⟩, rfl⟩

end Value

/-! ### Keys -/

theorem segments_ne_nil (key : String) : segments key ≠ [] := by
  rw [segments, Ne, List.map_eq_nil_iff]
  exact List.splitOn_ne_nil _ _

/-- A key is its segments, joined by dots. -/
theorem dotted_segments (key : String) : dotted (segments key) = key := by
  rw [dotted, segments, ← String.toList_inj, String.toList_intercalate, List.map_map]
  simp [Function.comp_def]

/-- Segments without dots are those of the key that joins them. -/
theorem segments_dotted {keys : List String} (hne : keys ≠ [])
    (hdot : ∀ key ∈ keys, '.' ∉ key.toList) : segments (dotted keys) = keys := by
  rw [segments, dotted, String.toList_intercalate]
  have hdot' : ∀ cs ∈ keys.map String.toList, '.' ∉ cs := List.forall_mem_map.mpr hdot
  have hsplit := List.splitOn_intercalate '.' hdot' (by simpa using hne)
  rw [show ".".toList = ['.'] from rfl, hsplit, List.map_map]
  simp [Function.comp_def]

/-- The segment that a place is written as. -/
def Place.segment : Place → String
  | field key => key
  | item i => toString i

/-- The key of a position. -/
def dottedKey (ps : List Place) : String := dotted (ps.map Place.segment)

/-- What the segment of a place has to be: without a dot, and as an index not too long. -/
def Place.IsPlain : Place → Prop
  | field key => '.' ∉ key.toList
  | item i => (toString i).toList.length ≤ digitLimit

theorem Place.isSelected_segment {p : Place} (h : p.IsPlain) : p.IsSelected p.segment := by
  cases p with
  | field => rfl
  | item i => exact ⟨decimalNumber?_toString i, h⟩

theorem Place.not_mem_segment {p : Place} (h : p.IsPlain) : '.' ∉ p.segment.toList := by
  cases p with
  | field => exact h
  | item i =>
    intro hdot
    have hdigits : (toString i).toList = Nat.toDigits 10 i := Nat.toList_repr
    have := Numeral.isDigit_toDigits i '.' (hdigits ▸ hdot)
    exact absurd this (by decide)

/-- The key of a position leads to the position. -/
theorem Value.leads_dottedKey {x y : Value} {ps : List Place} (hne : ps ≠ [])
    (h : x.read? ps = some y) (hplain : ∀ p ∈ ps, p.IsPlain) :
    x.LeadsTo (segments (dottedKey ps)) ps := by
  have hdot : ∀ key ∈ ps.map Place.segment, '.' ∉ key.toList := by
    intro key hkey
    obtain ⟨p, hp, rfl⟩ := List.mem_map.mp hkey
    exact Place.not_mem_segment (hplain p hp)
  rw [dottedKey, segments_dotted (by simpa using hne) hdot]
  refine ⟨?_, room_of_read? hne h⟩
  rw [List.forall₂_map_left_iff]
  exact List.forall₂_same.mpr fun q hq => Place.isSelected_segment (hplain q hq)

end Determinize
