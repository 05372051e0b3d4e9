import Determinize.Proofs.Config.Segment

/-!
# An override writes one place

An override succeeds if the segments of its key lead somewhere: every segment but the last selects
something that is there, and the last one selects a field, new or not, or an item. Then the value is
found where the segments led, and they lead there still. Every list keeps its length, every object
that is not inside of the value keeps its keys and their order, apart from the last segment, which
may be new; and where a position neither contains the written one nor is inside it, nothing has
changed. In all other cases the override is refused.

Every position below the root can be written in this way, as long as no key on the way has a dot of
its own. Digits are read as an index only up to a limit of their number, so there are segments of
digits with the number of an item that do not select it.

## Main definitions

* `Value.Written` — nothing but one position has been written.

## Main results

* `Value.LeadsTo.unique` — segments lead to one position.
* `Value.Room.written` — what a write leaves behind.
* `applyOverrides?_writes_one_place`.
* `applyOverrides?_zeros` — too many digits.
-/

namespace Determinize

/-- The data `m` are the data `x` with `v` at the position `ps`, and nothing else has changed. -/
structure Value.Written (x : Value) (ps : List Place) (v m : Value) : Prop where
  written : m.read? ps = some v
  /-- Lists keep their length. -/
  lists : ∀ qs items, ¬ ps <+: qs → x.read? qs = some (.list items) →
    ∃ items', m.read? qs = some (.list items') ∧ items'.length = items.length
  /-- Objects keep their keys, and one of them may have a further one. -/
  objects : ∀ qs fields, ¬ ps <+: qs → x.read? qs = some (.object fields) →
    ∃ fields', m.read? qs = some (.object fields') ∧
      (fields'.map (·.1) = fields.map (·.1) ∨
        ∃ key, ps = qs ++ [.field key] ∧ key ∉ fields.map (·.1) ∧
          fields'.map (·.1) = fields.map (·.1) ++ [key])
  elsewhere : ∀ qs, ¬ ps <+: qs → ¬ qs <+: ps → m.read? qs = x.read? qs

namespace Value

variable {x y v m : Value} {ps qs rs : List Place} {keys : List String}

/-! ### Containers -/

/-- A list in which something is written keeps its length. -/
theorem exists_writeAt_list {items : List Value} (h : (list items).Room rs) (v : Value) :
    ∃ items', (list items).writeAt rs v = list items' ∧ items'.length = items.length := by
  have hwrite (i : Nat) (y : Value) : ∃ items', (list items).write (.item i) y = list items' ∧
      items'.length = items.length := ⟨items.set i y, rfl, List.length_set⟩
  cases h with
  | last hadmits =>
    cases hadmits with
    | item => exact hwrite _ _
  | inner hy =>
    cases admits_of_at? hy with
    | item =>
      rw [writeAt_cons hy]
      exact hwrite _ _

/-- An object in which something is written keeps its keys, unless a field is added. -/
theorem exists_writeAt_object {fields : List (String × Value)} (h : (object fields).Room rs)
    (v : Value) :
    ∃ fields', (object fields).writeAt rs v = object fields' ∧
      (fields'.map (·.1) = fields.map (·.1) ∨
        ∃ key, rs = [.field key] ∧ key ∉ fields.map (·.1) ∧
          fields'.map (·.1) = fields.map (·.1) ++ [key]) := by
  cases h with
  | last hadmits =>
    cases hadmits with
    | field _ key =>
      refine ⟨setField key v fields, rfl, ?_⟩
      rw [map_fst_setField]
      split
      · exact .inl rfl
      · rename_i hkey
        exact .inr ⟨key, rfl, hkey, rfl⟩
  | @inner _ y _ rs hy =>
    cases admits_of_at? hy with
    | field _ key =>
      refine ⟨setField key (y.writeAt rs v) fields, writeAt_cons hy rs v, .inl ?_⟩
      rw [map_fst_setField, if_pos (List.mem_map_of_mem (mem_of_lookup hy))]

/-- A write changes one position. -/
theorem Room.written (h : x.Room ps) (v : Value) : x.Written ps v (x.writeAt ps v) where
  written := read?_writeAt h v
  lists qs items hps hqs := by
    obtain hread | ⟨rs, y, -, hy, hroom, hread⟩ := read?_writeAt_cases h hps v
    · exact ⟨items, hread.trans hqs, rfl⟩
    · obtain rfl := Option.some.inj (hy.symm.trans hqs)
      obtain ⟨items', hitems, hlength⟩ := exists_writeAt_list hroom v
      exact ⟨items', hread.trans (congrArg some hitems), hlength⟩
  objects qs fields hps hqs := by
    obtain hread | ⟨rs, y, rfl, hy, hroom, hread⟩ := read?_writeAt_cases h hps v
    · exact ⟨fields, hread.trans hqs, .inl rfl⟩
    · obtain rfl := Option.some.inj (hy.symm.trans hqs)
      obtain ⟨fields', hfields, hkeys⟩ := exists_writeAt_object hroom v
      refine ⟨fields', hread.trans (congrArg some hfields), hkeys.imp_right ?_⟩
      rintro ⟨key, rfl, hkey⟩
      exact ⟨key, rfl, hkey⟩
  elsewhere _ hps hqp := read?_writeAt_of_apart h hps hqp v

/-! ### Segments -/

/-- A segment selects one place of a value. -/
theorem Admits.eq_of_isSelected {p q : Place} {key : String} (hp : x.Admits p) (hq : x.Admits q)
    (hpkey : p.IsSelected key) (hqkey : q.IsSelected key) : p = q := by
  cases hp with
  | field =>
    cases hq with
    | field =>
      rw [show _ = key from hpkey, show _ = key from hqkey]
  | item =>
    cases hq with
    | item => rw [Option.some.inj (hpkey.1.symm.trans hqkey.1)]

/-- Segments lead to one position. -/
theorem LeadsTo.unique (hp : x.LeadsTo keys ps) (hq : x.LeadsTo keys qs) : ps = qs := by
  induction keys generalizing x ps qs with
  | nil => exact absurd (List.forall₂_nil_left_iff.mp hp.selected) hp.room.ne_nil
  | cons key keys ih =>
    cases keys with
    | nil =>
      obtain ⟨p, rfl, hpkey, hpadmits⟩ := leads_singleton_iff.mp hp
      obtain ⟨q, rfl, hqkey, hqadmits⟩ := leads_singleton_iff.mp hq
      rw [hpadmits.eq_of_isSelected hqadmits hpkey hqkey]
    | cons next rest =>
      have hne : next :: rest ≠ [] := List.cons_ne_nil _ _
      obtain ⟨p, y, ps, rfl, hpkey, hy, hps⟩ := (leads_cons_iff hne).mp hp
      obtain ⟨q, z, qs, rfl, hqkey, hz, hqs⟩ := (leads_cons_iff hne).mp hq
      obtain rfl := (admits_of_at? hy).eq_of_isSelected (admits_of_at? hz) hpkey hqkey
      obtain rfl := Option.some.inj (hy.symm.trans hz)
      rw [ih hps hqs]

/-- The segments lead there still after a write. -/
theorem LeadsTo.writeAt (h : x.LeadsTo keys ps) (v : Value) : (x.writeAt ps v).LeadsTo keys ps :=
  ⟨h.selected, room_of_read? h.room.ne_nil (read?_writeAt h.room v)⟩

end Value

/-! ### Overrides -/

/-- An override writes where the segments of its key lead. -/
theorem applyOverride?_eq_ok_iff {x m : Value} {o : String × Value} :
    applyOverride? x o = .ok m ↔ ∃ ps, x.LeadsTo (segments o.1) ps ∧ m = x.writeAt ps o.2 :=
  Value.put?_eq_ok_iff (segments_ne_nil o.1)

theorem applyOverrides?_singleton (x : Value) (o : String × Value) :
    applyOverrides? x [o] = applyOverride? x o := by
  rw [applyOverrides?, List.foldlM_cons]
  exact bind_pure _

theorem applyOverrides?_cons_eq_ok_iff {x m : Value} {o : String × Value}
    {os : List (String × Value)} :
    applyOverrides? x (o :: os) = .ok m ↔
      ∃ y, applyOverride? x o = .ok y ∧ applyOverrides? y os = .ok m := by
  rw [applyOverrides?, List.foldlM_cons]
  exact bind_eq_ok_iff

/-- An override succeeds if its segments lead somewhere, and it writes there and nowhere else. All
positions below the root without dots in their keys can be written. -/
theorem applyOverrides?_writes_one_place (x : Value) (key : String) (v : Value) :
    ((∃ m, applyOverrides? x [(key, v)] = .ok m) ↔ ∃ ps, x.LeadsTo (segments key) ps) ∧
    ((¬ ∃ ps, x.LeadsTo (segments key) ps) → ∃ e, applyOverrides? x [(key, v)] = .error e) ∧
    (∀ m ps, applyOverrides? x [(key, v)] = .ok m → x.LeadsTo (segments key) ps →
      m.LeadsTo (segments key) ps ∧ x.Written ps v m) ∧
    ∀ ps y, ps ≠ [] → x.read? ps = some y → (∀ p ∈ ps, p.IsPlain) →
      ∃ m, applyOverrides? x [(dottedKey ps, v)] = .ok m ∧ x.Written ps v m := by
  simp only [applyOverrides?_singleton]
  refine ⟨?_, fun hnot => ?_, fun m ps hm hps => ?_, fun ps y hne hy hplain => ?_⟩
  · simp only [applyOverride?_eq_ok_iff]
    exact ⟨fun ⟨_, ps, hps, _⟩ => ⟨ps, hps⟩, fun ⟨ps, hps⟩ => ⟨_, ps, hps, rfl⟩⟩
  · cases happly : applyOverride? x (key, v) with
    | error e => exact ⟨e, rfl⟩
    | ok m =>
      obtain ⟨ps, hps, -⟩ := applyOverride?_eq_ok_iff.mp happly
      exact absurd ⟨ps, hps⟩ hnot
  · obtain ⟨qs, hqs, rfl⟩ := applyOverride?_eq_ok_iff.mp hm
    obtain rfl := hps.unique hqs
    exact ⟨hps.writeAt v, hps.room.written v⟩
  · have hleads := Value.leads_dottedKey hne hy hplain
    exact ⟨_, applyOverride?_eq_ok_iff.mpr ⟨ps, hleads, rfl⟩, hleads.room.written v⟩

/-- An index that is written in digits of another script. -/
example : applyOverrides? (.object [("a", .list [.int 1, .int 2])]) [("a.٠١", .null)] =
    .ok (.object [("a", .list [.int 1, .null])]) := by
  rfl

/-- As many zeros as no integer can have. -/
def manyZeros : String := String.ofList (List.replicate (digitLimit + 1) '0')

/-- Too many zeros do not select the first item of a list, though they denote its index. -/
theorem applyOverrides?_zeros :
    ¬ ((∃ m, applyOverrides? (.list [.int 1, .int 2]) [(manyZeros, .int 5)] = .ok m) ↔
      ∃ ps, List.Forall₂ (fun key p => Place.IsNamed key p) (segments manyZeros) ps ∧
        (Value.list [.int 1, .int 2]).Room ps) := by
  have hlist : manyZeros.toList = List.replicate (digitLimit + 1) '0' := String.toList_ofList
  have hsegments : segments manyZeros = [manyZeros] := by
    have hdot : ∀ key ∈ [manyZeros], '.' ∉ key.toList := by
      intro key hkey hmem
      rw [List.mem_singleton.mp hkey, hlist] at hmem
      exact absurd (List.eq_of_mem_replicate hmem) (by decide)
    simpa [dotted] using segments_dotted (List.cons_ne_nil manyZeros []) hdot
  have hnumber : decimalNumber? manyZeros = some 0 := by
    rw [decimalNumber?_of_isDigit (by simp [hlist])
      (hlist ▸ Numeral.isDigit_replicate _), hlist, Nat.ofDigitChars_replicate_zero, Nat.mul_zero]
  intro h
  obtain ⟨m, hm⟩ := h.mpr ⟨[.item 0], hsegments ▸ .cons hnumber .nil, .last (.item (by decide))⟩
  rw [applyOverrides?_singleton, applyOverride?_eq_ok_iff] at hm
  obtain ⟨ps, hps, -⟩ := hm
  rw [hsegments] at hps
  obtain ⟨p, -, hselected, hadmits⟩ := Value.leads_singleton_iff.mp hps
  cases hadmits with
  | item =>
    have hlength := hselected.2
    rw [hlist, List.length_replicate] at hlength
    omega

end Determinize
