import Determinize.Config.Override
import Mathlib.Data.List.Basic

/-!
# Positions in data

A position in nested data is a sequence of places: the keys and indices that lead to it from the
root through the fields of objects and the items of lists. There is room at a position if every
place but the last one holds something, and the last one can be written: a field of an object that
may be new, or an item that a list has.

Writing at a position and reading form a lens. What was written is read back; a second write at the
same position is all that counts; writing what is there changes nothing; and at a position that
neither contains the written one nor is inside it nothing has changed. All this holds of the data
themselves, the order of the fields included. Only writes that both add a field to one object leave
their order behind, so two writes at positions apart commute if something is at one of them.

## Main definitions

* `Value.Admits` — a place can be written in a list or an object.
* `Value.read?`, `Value.writeAt`, `Value.Room`.

## Main results

* `Value.read?_writeAt`, `Value.writeAt_writeAt`, `Value.writeAt_eq_self` — the laws of a lens.
* `Value.read?_writeAt_of_apart`, `Value.read?_writeAt_cases` — reading elsewhere.
* `Value.writeAt_comm`, `Value.writeAt_append` — two writes.
-/

namespace Determinize.Value

variable {x y z v w : Value} {p q : Place} {ps qs rs : List Place}

/-! ### Fields -/

section Fields

variable {k l : String} {fields : List (String × Value)}

theorem lookup_cons_eq_ite (k l : String) (x : Value) (fields : List (String × Value)) :
    ((k, x) :: fields).lookup l = if l = k then some x else fields.lookup l := by
  rw [List.lookup_cons]
  by_cases h : l = k
  · rw [if_pos h, beq_iff_eq.mpr h]
  · rw [if_neg h, beq_false_of_ne h]

theorem lookup_setField (k l : String) (y : Value) (fields : List (String × Value)) :
    (setField k y fields).lookup l = if l = k then some y else fields.lookup l := by
  induction fields with
  | nil => exact lookup_cons_eq_ite k l y []
  | cons field fields ih =>
    obtain ⟨k', x⟩ := field
    rw [setField, lookup_cons_eq_ite]
    split
    · rename_i hk
      subst hk
      rw [lookup_cons_eq_ite]
      split <;> rfl
    · rename_i hk
      rw [lookup_cons_eq_ite, ih]
      by_cases hl : l = k'
      · rw [if_pos hl, if_pos hl, if_neg (hl ▸ hk)]
      · rw [if_neg hl, if_neg hl]

theorem setField_setField (k : String) (y z : Value) (fields : List (String × Value)) :
    setField k z (setField k y fields) = setField k z fields := by
  induction fields with
  | nil => simp [setField]
  | cons field fields ih =>
    obtain ⟨k', x⟩ := field
    by_cases hk : k' = k <;> simp [setField, hk, ih]

theorem setField_eq_self (h : fields.lookup k = some y) : setField k y fields = fields := by
  induction fields with
  | nil => cases h
  | cons field fields ih =>
    obtain ⟨k', x⟩ := field
    rw [lookup_cons_eq_ite] at h
    rw [setField]
    split at h
    · rename_i hk
      rw [if_pos hk.symm, Option.some.inj h]
    · rename_i hk
      rw [if_neg (Ne.symm hk), ih h]

/-- Two fields are set in any order if one of them is there. -/
theorem setField_comm (hkl : k ≠ l) (h : fields.lookup k = some x) (y z : Value) :
    setField l z (setField k y fields) = setField k y (setField l z fields) := by
  induction fields with
  | nil => cases h
  | cons field fields ih =>
    obtain ⟨k', x'⟩ := field
    rw [lookup_cons_eq_ite] at h
    by_cases hk : k' = k
    · subst hk
      simp [setField, hkl]
    · rw [if_neg (Ne.symm hk)] at h
      by_cases hl : k' = l
      · subst hl
        simp [setField, hk]
      · simp [setField, hk, hl, ih h]

/-- Setting a field keeps the keys, and adds the key if it is new. -/
theorem map_fst_setField (k : String) (y : Value) (fields : List (String × Value)) :
    (setField k y fields).map (·.1) =
      if k ∈ fields.map (·.1) then fields.map (·.1) else fields.map (·.1) ++ [k] := by
  induction fields with
  | nil => rfl
  | cons field fields ih =>
    obtain ⟨k', x⟩ := field
    by_cases hk : k' = k
    · subst hk
      simp [setField]
    · simp only [setField, if_neg hk, List.map_cons, ih, List.mem_cons, Ne.symm hk, false_or]
      split <;> rfl

theorem mem_of_lookup (h : fields.lookup k = some y) : (k, y) ∈ fields := by
  obtain ⟨before, after, rfl, -⟩ := List.lookup_eq_some_iff.mp h
  exact List.mem_append_right before List.mem_cons_self

end Fields

/-! ### Places -/

/-- A place can be written in a value: any field of an object, and the items that a list has. -/
inductive Admits : Value → Place → Prop
  | field (fields : List (String × Value)) (key : String) : Admits (object fields) (.field key)
  | item {items : List Value} {i : Nat} (h : i < items.length) : Admits (list items) (.item i)

theorem admits_of_at? (h : x.at? p = some y) : x.Admits p := by
  cases x with
  | object fields =>
    cases p with
    | field key => exact .field fields key
    | item i => cases h
  | list items =>
    cases p with
    | field key => cases h
    | item i => exact .item (List.getElem?_eq_some_iff.mp h).1
  | null | bool | int | real | text | tuple => cases h

theorem at?_write (h : x.Admits p) (v : Value) : (x.write p v).at? p = some v := by
  cases h with
  | field fields key =>
    rw [write, at?, lookup_setField, if_pos rfl]
  | item h =>
    rw [write, at?, List.getElem?_set_self h]

theorem at?_write_of_ne (h : x.Admits p) (hpq : p ≠ q) (v : Value) :
    (x.write p v).at? q = x.at? q := by
  cases h with
  | field fields key =>
    cases q with
    | field key' =>
      rw [write, at?, at?, lookup_setField, if_neg fun h => hpq (congrArg Place.field h.symm)]
    | item => rfl
  | item h =>
    cases q with
    | field => rfl
    | item j =>
      rw [write, at?, at?, List.getElem?_set_ne fun h => hpq (congrArg Place.item h)]

theorem write_write (h : x.Admits p) (v w : Value) : (x.write p v).write p w = x.write p w := by
  cases h with
  | field fields key => simp only [write, setField_setField]
  | item h => simp only [write, List.set_set]

theorem write_eq_self (h : x.at? p = some y) : x.write p y = x := by
  cases admits_of_at? h with
  | field fields key => rw [write, setField_eq_self h]
  | item hi =>
    obtain ⟨hi, hget⟩ := List.getElem?_eq_some_iff.mp h
    rw [write, ← hget, List.set_getElem_self]

theorem write_comm (h : x.at? p = some y) (hq : x.Admits q) (hpq : p ≠ q) (v w : Value) :
    (x.write p v).write q w = (x.write q w).write p v := by
  cases hq with
  | field fields key =>
    cases admits_of_at? h with
    | field _ key' =>
      simp only [write, setField_comm (fun hk => hpq (congrArg Place.field hk)) h]
  | item hj =>
    cases admits_of_at? h with
    | item hi => simp only [write, List.set_comm _ _ fun hk => hpq (congrArg Place.item hk)]

/-! ### Positions -/

/-- The value at a position. -/
def read? (x : Value) : List Place → Option Value
  | [] => some x
  | p :: ps => (x.at? p).bind (·.read? ps)

/-- The value after another one was written at a position. -/
def writeAt (x : Value) : List Place → Value → Value
  | [], v => v
  | p :: ps, v => x.write p (((x.at? p).getD null).writeAt ps v)

/-- There is room at a position: every place but the last holds something, and the last can be
written. -/
inductive Room : Value → List Place → Prop
  | last {x : Value} {p : Place} (h : x.Admits p) : Room x [p]
  | inner {x y : Value} {p : Place} {ps : List Place} (h : x.at? p = some y) (rest : Room y ps) :
      Room x (p :: ps)

theorem read?_cons_eq_some_iff :
    x.read? (p :: ps) = some z ↔ ∃ y, x.at? p = some y ∧ y.read? ps = some z := by
  rw [read?, Option.bind_eq_some_iff]

theorem read?_append (x : Value) (ps qs : List Place) :
    x.read? (ps ++ qs) = (x.read? ps).bind (·.read? qs) := by
  induction ps generalizing x with
  | nil => rfl
  | cons p ps ih =>
    rw [List.cons_append, read?, read?]
    cases x.at? p with
    | none => rfl
    | some y => exact ih y

theorem writeAt_cons (h : x.at? p = some y) (ps : List Place) (v : Value) :
    x.writeAt (p :: ps) v = x.write p (y.writeAt ps v) := by
  rw [writeAt, h, Option.getD_some]

theorem writeAt_singleton (x : Value) (p : Place) (v : Value) :
    x.writeAt [p] v = x.write p v := rfl

theorem room_of_read? (hne : ps ≠ []) (h : x.read? ps = some y) : x.Room ps := by
  induction ps generalizing x with
  | nil => exact absurd rfl hne
  | cons p ps ih =>
    obtain ⟨z, hz, hrest⟩ := read?_cons_eq_some_iff.mp h
    cases ps with
    | nil => exact .last (admits_of_at? hz)
    | cons => exact .inner hz (ih (List.cons_ne_nil _ _) hrest)

theorem Room.append (h : x.read? ps = some y) (hqs : y.Room qs) : x.Room (ps ++ qs) := by
  induction ps generalizing x with
  | nil =>
    obtain rfl := Option.some.inj h
    exact hqs
  | cons p ps ih =>
    obtain ⟨z, hz, hrest⟩ := read?_cons_eq_some_iff.mp h
    exact .inner hz (ih hrest)

/-- There is something at every place before the last. -/
theorem Room.exists_read? (h : x.Room (ps ++ qs)) (hqs : qs ≠ []) :
    ∃ y, x.read? ps = some y ∧ y.Room qs := by
  induction ps generalizing x with
  | nil => exact ⟨x, rfl, h⟩
  | cons p ps ih =>
    cases hps : ps ++ qs with
    | nil => exact absurd (List.append_eq_nil_iff.mp hps).2 hqs
    | cons q rest =>
      rw [List.cons_append, hps] at h
      cases h with
      | inner hz hrest =>
        obtain ⟨y, hy, hroom⟩ := ih (hps ▸ hrest)
        exact ⟨y, read?_cons_eq_some_iff.mpr ⟨_, hz, hy⟩, hroom⟩

theorem room_append_singleton_iff :
    x.Room (ps ++ [p]) ↔ ∃ y, x.read? ps = some y ∧ y.Admits p := by
  constructor
  · intro h
    obtain ⟨y, hy, hroom⟩ := h.exists_read? (List.cons_ne_nil p [])
    cases hroom with
    | last h => exact ⟨y, hy, h⟩
    | inner _ hrest => cases hrest
  · rintro ⟨y, hy, h⟩
    exact .append hy (.last h)

theorem Room.ne_nil (h : x.Room ps) : ps ≠ [] := by
  cases h <;> exact List.cons_ne_nil _ _

/-! ### Reading after writing -/

/-- What was written is read. -/
theorem read?_writeAt (h : x.Room ps) (v : Value) : (x.writeAt ps v).read? ps = some v := by
  induction h with
  | last h => exact read?_cons_eq_some_iff.mpr ⟨v, at?_write h v, rfl⟩
  | inner hy _ ih =>
    rw [writeAt_cons hy]
    exact read?_cons_eq_some_iff.mpr ⟨_, at?_write (admits_of_at? hy) _, ih⟩

/-- Inside of what was written, the written value is read. -/
theorem read?_writeAt_append (h : x.Room ps) (qs : List Place) (v : Value) :
    (x.writeAt ps v).read? (ps ++ qs) = v.read? qs := by
  rw [read?_append, read?_writeAt h, Option.bind_some]

/-- Where a position neither contains the written one nor is inside it, nothing has changed. -/
theorem read?_writeAt_of_apart (h : x.Room ps) (hpq : ¬ ps <+: qs) (hqp : ¬ qs <+: ps)
    (v : Value) : (x.writeAt ps v).read? qs = x.read? qs := by
  induction h generalizing qs with
  | @last x p h =>
    cases qs with
    | nil => exact absurd List.nil_prefix hqp
    | cons q qs =>
      have hne : p ≠ q := fun hpq' => hpq (List.cons_prefix_cons.mpr ⟨hpq', List.nil_prefix⟩)
      rw [writeAt_singleton, read?, at?_write_of_ne h hne, read?]
  | @inner x y p ps hy _ ih =>
    cases qs with
    | nil => exact absurd List.nil_prefix hqp
    | cons q qs =>
      rw [writeAt_cons hy, read?, read?]
      by_cases hne : p = q
      · subst hne
        rw [List.cons_prefix_cons, and_iff_right rfl] at hpq hqp
        rw [at?_write (admits_of_at? hy), hy, Option.bind_some, Option.bind_some, ih hpq hqp]
      · rw [at?_write_of_ne (admits_of_at? hy) hne]

/-- A second write at the same position is all that counts. -/
theorem writeAt_writeAt (h : x.Room ps) (v w : Value) :
    (x.writeAt ps v).writeAt ps w = x.writeAt ps w := by
  induction h with
  | last h => exact write_write h v w
  | inner hy _ ih =>
    have hadmits := admits_of_at? hy
    rw [writeAt_cons hy, writeAt_cons (at?_write hadmits _), write_write hadmits, ih,
      writeAt_cons hy]

/-- Writing what is there changes nothing. -/
theorem writeAt_eq_self (h : x.read? ps = some y) : x.writeAt ps y = x := by
  induction ps generalizing x with
  | nil => exact (Option.some.inj h).symm
  | cons p ps ih =>
    obtain ⟨z, hz, hrest⟩ := read?_cons_eq_some_iff.mp h
    rw [writeAt_cons hz, ih hrest, write_eq_self hz]

/-- A write inside of what is at a position writes there what it makes of it. -/
theorem writeAt_append (h : x.read? ps = some y) (qs : List Place) (v : Value) :
    x.writeAt (ps ++ qs) v = x.writeAt ps (y.writeAt qs v) := by
  induction ps generalizing x with
  | nil =>
    obtain rfl := Option.some.inj h
    rfl
  | cons p ps ih =>
    obtain ⟨z, hz, hrest⟩ := read?_cons_eq_some_iff.mp h
    rw [List.cons_append, writeAt_cons hz, writeAt_cons hz, ih hrest]

/-- Where a position is not inside of the written one, there is what was there, or, if it contains
the written one, what was there with the value written inside. -/
theorem read?_writeAt_cases (h : x.Room ps) (hpq : ¬ ps <+: qs) (v : Value) :
    (x.writeAt ps v).read? qs = x.read? qs ∨
      ∃ rs y, ps = qs ++ rs ∧ x.read? qs = some y ∧ y.Room rs ∧
        (x.writeAt ps v).read? qs = some (y.writeAt rs v) := by
  by_cases hqp : qs <+: ps
  · obtain ⟨rs, rfl⟩ := hqp
    have hne : rs ≠ [] := by
      rintro rfl
      exact hpq (by simp)
    obtain ⟨y, hy, hroom⟩ := h.exists_read? hne
    refine .inr ⟨rs, y, rfl, hy, hroom, ?_⟩
    rw [writeAt_append hy]
    cases qs with
    | nil => rfl
    | cons q qs => exact read?_writeAt (room_of_read? (List.cons_ne_nil q qs) hy) _
  · exact .inl (read?_writeAt_of_apart h hpq hqp v)

/-- Two writes at positions apart commute if something is at one of them. -/
theorem writeAt_comm (hp : x.read? ps = some y) (hq : x.Room qs) (hpq : ¬ ps <+: qs)
    (hqp : ¬ qs <+: ps) (v w : Value) :
    (x.writeAt ps v).writeAt qs w = (x.writeAt qs w).writeAt ps v := by
  induction hq generalizing ps with
  | @last x q h =>
    cases ps with
    | nil => exact absurd List.nil_prefix hpq
    | cons p ps =>
      obtain ⟨z, hz, -⟩ := read?_cons_eq_some_iff.mp hp
      have hne : q ≠ p := fun hpq' => hqp (List.cons_prefix_cons.mpr ⟨hpq', List.nil_prefix⟩)
      have hz' : (x.write q w).at? p = some z := by rw [at?_write_of_ne h hne, hz]
      rw [writeAt_cons hz, writeAt_singleton, writeAt_singleton, writeAt_cons hz',
        write_comm hz h hne.symm]
  | @inner x u q qs hu hroom ih =>
    cases ps with
    | nil => exact absurd List.nil_prefix hpq
    | cons p ps =>
      obtain ⟨z, hz, hrest⟩ := read?_cons_eq_some_iff.mp hp
      have hadmits := admits_of_at? hz
      have hadmits' := admits_of_at? hu
      rw [writeAt_cons hz, writeAt_cons hu]
      by_cases hne : p = q
      · subst hne
        obtain rfl := Option.some.inj (hz.symm.trans hu)
        rw [List.cons_prefix_cons, and_iff_right rfl] at hpq hqp
        rw [writeAt_cons (at?_write hadmits _), writeAt_cons (at?_write hadmits _),
          write_write hadmits, write_write hadmits, ih hrest hpq hqp]
      · have hu' : (x.write p (z.writeAt ps v)).at? q = some u := by
          rw [at?_write_of_ne hadmits hne, hu]
        have hz' : (x.write q (u.writeAt qs w)).at? p = some z := by
          rw [at?_write_of_ne hadmits' (Ne.symm hne), hz]
        rw [writeAt_cons hu', writeAt_cons hz', write_comm hz hadmits' hne]

end Determinize.Value
