import Determinize.Proofs.Collection.Related
import Determinize.Proofs.Config.Override

/-!
# The same data, up to the order of fields

Data have an outline at a position: the value that is there, or the length of a list, or just that
there is an object. Two data are the same up to the order of fields if they have the same outline at
every position. What a write does to the outlines depends on the outlines only: those at and inside
of the written position are those of the written value, and the others stay as they were. So the
same overrides succeed for the same data, and make the same data of them.

## Main definitions

* `Outline`, `Value.outline?` — what is at a position, without what is inside it.
* `Value.SameData`.

## Main results

* `Value.outline?_writeAt_append`, `Value.outline?_writeAt_of_not_isPrefix` — outlines after a
  write.
* `Value.leads_writeAt_iff` — segments lead to the same positions after a write that is not on the
  way.
* `Value.SameData.exists_applyOverrides?` — overrides of the same data.
-/

namespace Determinize

/-- What is found at a position, without what is inside it. -/
inductive Outline where
  | leaf (x : Value)
  | list (size : Nat)
  | object

namespace Value

/-- A value without what is inside it. -/
def outline : Value → Outline
  | .list items => .list items.length
  | .object _ => .object
  | x => .leaf x

/-- The outline at a position. -/
def outline? (x : Value) (ps : List Place) : Option Outline := (x.read? ps).map outline

/-- The same data, up to the order of the fields of objects. -/
def SameData (x y : Value) : Prop := ∀ ps, x.outline? ps = y.outline? ps

variable {x y z v m : Value} {p : Place} {ps qs rs : List Place} {keys : List String}

theorem SameData.refl (x : Value) : x.SameData x := fun _ => rfl

theorem SameData.symm (h : x.SameData y) : y.SameData x := fun ps => (h ps).symm

theorem SameData.trans (h : x.SameData y) (h' : y.SameData z) : x.SameData z :=
  fun ps => (h ps).trans (h' ps)

/-! ### Outlines after a write -/

/-- Which places can be written is read off the outline. -/
theorem Admits.of_outline_eq (hp : x.Admits p) (h : x.outline = y.outline) : y.Admits p := by
  cases hp with
  | field fields key =>
    cases y with
    | object fields' => exact .field fields' key
    | null | bool | int | real | text | tuple | list => cases h
  | item hi =>
    cases y with
    | list items' =>
      obtain hlength := Outline.list.inj h
      exact .item (hlength ▸ hi)
    | null | bool | int | real | text | tuple | object => cases h

theorem outline_write (h : x.Admits p) (v : Value) : (x.write p v).outline = x.outline := by
  cases h with
  | field => rfl
  | item => rw [write, outline, outline, List.length_set]

theorem outline_writeAt (h : x.Room ps) (v : Value) : (x.writeAt ps v).outline = x.outline := by
  cases h with
  | last h => exact outline_write h v
  | inner hy =>
    rw [writeAt_cons hy]
    exact outline_write (admits_of_at? hy) _

/-- Inside of what was written, the outlines are those of the written value. -/
theorem outline?_writeAt_append (h : x.Room ps) (qs : List Place) (v : Value) :
    (x.writeAt ps v).outline? (ps ++ qs) = v.outline? qs := by
  rw [outline?, read?_writeAt_append h, outline?]

/-- All other outlines stay as they were. -/
theorem outline?_writeAt_of_not_isPrefix (h : x.Room ps) (hpq : ¬ ps <+: qs) (v : Value) :
    (x.writeAt ps v).outline? qs = x.outline? qs := by
  obtain hread | ⟨rs, y, -, hy, hroom, hread⟩ := read?_writeAt_cases h hpq v
  · rw [outline?, hread, outline?]
  · rw [outline?, hread, outline?, hy, Option.map_some, Option.map_some, outline_writeAt hroom]

/-- Whether there is room at a position depends on the outline of what contains it. -/
theorem Room.of_outline?_eq (hx : x.Room (ps ++ [p])) (h : x.outline? ps = y.outline? ps) :
    y.Room (ps ++ [p]) := by
  obtain ⟨u, hu, hadmits⟩ := room_append_singleton_iff.mp hx
  rw [outline?, hu, Option.map_some] at h
  obtain ⟨w, hw, houtline⟩ := Option.map_eq_some_iff.mp h.symm
  exact room_append_singleton_iff.mpr ⟨w, hw, hadmits.of_outline_eq houtline.symm⟩

/-- A write that is not on the way, or at its end, does not change where segments lead. -/
theorem leads_writeAt_iff (h : x.Room ps) (hpq : ¬ ps <+: qs) (v : Value) :
    (x.writeAt ps v).LeadsTo keys qs ↔ x.LeadsTo keys qs := by
  rcases List.eq_nil_or_concat' qs with rfl | ⟨qs, q, rfl⟩
  · exact ⟨fun hnil => absurd rfl hnil.room.ne_nil, fun hnil => absurd rfl hnil.room.ne_nil⟩
  · have houtline := outline?_writeAt_of_not_isPrefix h
      (fun hstart => hpq (hstart.trans (List.prefix_append qs [q]))) v
    exact ⟨fun hqs => ⟨hqs.selected, hqs.room.of_outline?_eq houtline⟩,
      fun hqs => ⟨hqs.selected, hqs.room.of_outline?_eq houtline.symm⟩⟩

/-! ### Overrides of the same data -/

theorem SameData.room (h : x.SameData y) (hx : x.Room ps) : y.Room ps := by
  rcases List.eq_nil_or_concat' ps with rfl | ⟨ps, p, rfl⟩
  · exact absurd rfl hx.ne_nil
  · exact hx.of_outline?_eq (h ps)

theorem SameData.writeAt (h : x.SameData y) (hx : x.Room ps) (v : Value) :
    (x.writeAt ps v).SameData (y.writeAt ps v) := by
  intro qs
  have hy := h.room hx
  by_cases hpq : ps <+: qs
  · obtain ⟨rs, rfl⟩ := hpq
    rw [outline?_writeAt_append hx, outline?_writeAt_append hy]
  · rw [outline?_writeAt_of_not_isPrefix hx hpq, outline?_writeAt_of_not_isPrefix hy hpq, h qs]

theorem SameData.exists_applyOverride? (h : x.SameData y) {o : String × Value}
    (hx : applyOverride? x o = .ok m) : ∃ m', applyOverride? y o = .ok m' ∧ m.SameData m' := by
  obtain ⟨ps, hps, rfl⟩ := applyOverride?_eq_ok_iff.mp hx
  exact ⟨_, applyOverride?_eq_ok_iff.mpr ⟨ps, ⟨hps.selected, h.room hps.room⟩, rfl⟩,
    h.writeAt hps.room o.2⟩

/-- Overrides make the same data of the same data. -/
theorem SameData.exists_applyOverrides? (h : x.SameData y) {os : List (String × Value)}
    (hx : applyOverrides? x os = .ok m) : ∃ m', applyOverrides? y os = .ok m' ∧ m.SameData m' := by
  induction os generalizing x y with
  | nil =>
    obtain rfl := Except.ok.inj hx
    exact ⟨y, rfl, h⟩
  | cons o os ih =>
    obtain ⟨x', hx', hrest⟩ := applyOverrides?_cons_eq_ok_iff.mp hx
    obtain ⟨y', hy', h'⟩ := h.exists_applyOverride? hx'
    obtain ⟨m', hm', hm⟩ := ih h' hrest
    exact ⟨m', applyOverrides?_cons_eq_ok_iff.mpr ⟨y', hy', hm'⟩, hm⟩

/-! ### The same data place by place -/

section Places

variable {R : Value → Value → Prop} {k : String} {fields fields' fields'' : List (String × Value)}

theorem rel_lookup (h : List.Forall₂ (fun f g => f.1 = g.1 ∧ R f.2 g.2) fields fields')
    (k : String) : Option.Rel R (fields.lookup k) (fields'.lookup k) := by
  induction h with
  | nil => exact .none
  | @cons f g fields fields' hfg _ ih =>
    obtain ⟨hkey, hvalue⟩ := hfg
    rw [lookup_cons_eq_ite f.1 k f.2, lookup_cons_eq_ite g.1 k g.2, hkey]
    split
    · exact .some hvalue
    · exact ih

theorem lookup_eq_some_iff_mem (h : (fields.map (·.1)).Nodup) :
    fields.lookup k = some x ↔ (k, x) ∈ fields := by
  refine ⟨mem_of_lookup, fun hmem => ?_⟩
  obtain ⟨before, after, rfl⟩ := List.append_of_mem hmem
  refine List.lookup_eq_some_iff.mpr ⟨before, after, rfl, fun f hf => ?_⟩
  rw [List.map_append, List.map_cons] at h
  have hne := (List.nodup_append.mp h).2.2 f.1 (List.mem_map_of_mem hf) k List.mem_cons_self
  exact bne_iff_ne.mpr hne.symm

/-- Fields with different keys are found in any order. -/
theorem lookup_perm (hperm : fields.Perm fields') (h : (fields.map (·.1)).Nodup) (k : String) :
    fields.lookup k = fields'.lookup k := by
  have h' := (hperm.map (·.1)).nodup_iff.mp h
  ext x
  rw [lookup_eq_some_iff_mem h, lookup_eq_some_iff_mem h', hperm.mem_iff]

theorem outline?_cons (x : Value) (p : Place) (ps : List Place) :
    x.outline? (p :: ps) = (x.at? p).bind (·.outline? ps) := by
  rw [outline?, read?]
  cases x.at? p <;> rfl

theorem SameData.of_at? (houtline : x.outline = y.outline)
    (h : ∀ p, Option.Rel SameData (x.at? p) (y.at? p)) : x.SameData y := by
  intro ps
  cases ps with
  | nil => exact congrArg some houtline
  | cons p ps =>
    have hp := h p
    rw [outline?_cons, outline?_cons]
    generalize x.at? p = a at hp ⊢
    generalize y.at? p = b at hp ⊢
    cases hp with
    | none => rfl
    | some h => exact h ps

theorem sameData_list {xs ys : List Value} (h : List.Forall₂ SameData xs ys) :
    (list xs).SameData (list ys) := by
  refine .of_at? (congrArg Outline.list h.length_eq) fun p => ?_
  cases p with
  | field => exact .none
  | item i => exact rel_getElem? h i

/-- Objects are the same data if their fields are, in some order. -/
theorem sameData_object (hperm : fields.Perm fields') (hkeys : (fields.map (·.1)).Nodup)
    (h : List.Forall₂ (fun f g => f.1 = g.1 ∧ f.2.SameData g.2) fields' fields'') :
    (object fields).SameData (object fields'') := by
  refine .of_at? rfl fun p => ?_
  cases p with
  | field key =>
    rw [at?, at?, lookup_perm hperm hkeys]
    exact rel_lookup h key
  | item => exact .none

end Places

end Value

end Determinize
