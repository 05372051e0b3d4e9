import Determinize.Collection.OrderedMap
import Mathlib.Data.List.Induction
import Mathlib.Data.List.Pairwise
import Mathlib.Data.List.Perm.Subperm

/-!
# Members of ordered sets and entries of ordered maps

Reading a set or a map answers with a member or an entry that is stored, up to the equality `==` of
the members. A set whose members are covered by a list is not longer than the list, so equal sets
have the same size.

## Main results

* `OrderedSet.toList_insertAll_of_new`, `OrderedSet.insertAll_filter_new` — adding members.
* `OrderedSet.size_le_of_covered`, `OrderedSet.size_eq_of_beq` — sizes.
* `OrderedMap.find?_eq_some_iff`, `OrderedMap.find?_ofKeys` — reading a map.
* `OrderedMap.eq_ofKeys`, `OrderedMap.insert_ofKeys` — maps that are given by functions.
* `OrderedMap.agreesWith_iff` — agreement of two maps is agreement of what they answer.
-/

namespace Determinize

/-! ### Sets -/

namespace OrderedSet

variable {α : Type} [BEq α]

theorem eq_of_toList_eq {s t : OrderedSet α} (h : s.toList = t.toList) : s = t := by
  cases s
  cases t
  cases h
  rfl

theorem mem_toList_insert {s : OrderedSet α} {a x : α} (hx : x ∈ (s.insert a).toList) :
    x ∈ s.toList ∨ x = a := by
  rw [toList_insert] at hx
  split at hx
  · exact Or.inl hx
  · exact (List.mem_append.mp hx).imp_right List.mem_singleton.mp

theorem mem_toList_insertAll {s : OrderedSet α} {as : List α} {x : α}
    (hx : x ∈ (s.insertAll as).toList) : x ∈ s.toList ∨ x ∈ as := by
  induction as generalizing s with
  | nil => exact Or.inl hx
  | cons a as ih =>
    rcases ih (s := s.insert a) hx with hx | hx
    · exact (mem_toList_insert hx).imp_right fun h => List.mem_cons.mpr (Or.inl h)
    · exact Or.inr (List.mem_cons_of_mem a hx)

theorem mem_of_mem_toList_ofList {as : List α} {x : α} (hx : x ∈ (ofList as).toList) : x ∈ as :=
  (mem_toList_insertAll hx).resolve_left List.not_mem_nil

theorem contains_ofList_iff [EquivBEq α] {as : List α} {b : α} :
    (ofList as).contains b = true ↔ ∃ a ∈ as, (a == b) = true := by
  rw [contains_ofList, List.any_eq_true]

theorem contains_ofList_of_mem [EquivBEq α] {as : List α} {a : α} (ha : a ∈ as) :
    (ofList as).contains a = true :=
  contains_ofList_iff.mpr ⟨a, ha, BEq.rfl⟩

theorem contains_ofList_eq_false [EquivBEq α] {as : List α} {b : α}
    (h : ∀ a ∈ as, (a == b) = false) : (ofList as).contains b = false := by
  rw [contains_ofList, List.any_eq_false]
  exact fun a ha => by simp [h a ha]

theorem ofList_append_singleton (as : List α) (a : α) :
    ofList (as ++ [a]) = (ofList as).insert a :=
  List.foldl_append

theorem insert_eq_self {s : OrderedSet α} {a : α} (h : s.contains a = true) : s.insert a = s :=
  dif_pos h

theorem toList_insert_of_new {s : OrderedSet α} {a : α} (h : s.contains a = false) :
    (s.insert a).toList = s.toList ++ [a] := by
  rw [toList_insert, h, if_neg Bool.false_ne_true]

/-- Members are added at the end. -/
theorem prefix_insertAll (s : OrderedSet α) (as : List α) :
    s.toList <+: (s.insertAll as).toList := by
  induction as generalizing s with
  | nil => exact List.prefix_refl _
  | cons a as ih =>
    refine List.IsPrefix.trans ?_ (ih (s.insert a))
    rw [toList_insert]
    split
    · exact List.prefix_refl _
    · exact List.prefix_append ..

/-- Members that are new and distinct are added at the end, in order. -/
theorem toList_insertAll_of_new [EquivBEq α] {s : OrderedSet α} {as : List α}
    (hd : as.Pairwise fun a b => (a == b) = false) (hn : ∀ a ∈ as, s.contains a = false) :
    (s.insertAll as).toList = s.toList ++ as := by
  induction as generalizing s with
  | nil => exact (List.append_nil _).symm
  | cons a as ih =>
    rw [List.pairwise_cons] at hd
    have ha : (s.insert a).toList = s.toList ++ [a] := toList_insert_of_new (hn a List.mem_cons_self)
    have hrest : ∀ b ∈ as, (s.insert a).contains b = false := by
      intro b hb
      rw [contains_insert, hn b (List.mem_cons_of_mem a hb), hd.1 b hb, Bool.or_false]
    calc (s.insertAll (a :: as)).toList = ((s.insert a).insertAll as).toList := rfl
      _ = s.toList ++ [a] ++ as := by rw [ih hd.2 hrest, ha]
      _ = s.toList ++ a :: as := by rw [List.append_assoc, List.singleton_append]

/-- Adding what is there already changes nothing. -/
theorem insertAll_eq_self {s : OrderedSet α} {as : List α} (h : ∀ a ∈ as, s.contains a = true) :
    s.insertAll as = s := by
  induction as with
  | nil => rfl
  | cons a as ih =>
    rw [List.forall_mem_cons] at h
    rw [insertAll, List.foldl_cons, insert_eq_self h.1]
    exact ih h.2

theorem insertAll_append (s : OrderedSet α) (as bs : List α) :
    s.insertAll (as ++ bs) = (s.insertAll as).insertAll bs :=
  List.foldl_append

theorem insertAll_append_singleton (s : OrderedSet α) (as : List α) (a : α) :
    s.insertAll (as ++ [a]) = (s.insertAll as).insert a :=
  insertAll_append ..

/-- Items that are members or repeated are not added. -/
theorem insertAll_filter_new [EquivBEq α] (s : OrderedSet α) (as : List α) :
    s.insertAll ((ofList as).toList.filter fun a => !s.contains a) = s.insertAll as := by
  induction as using List.reverseRecOn with
  | nil => rfl
  | append_singleton as a ih =>
    rw [insertAll_append_singleton, ofList_append_singleton]
    have hcontains := contains_insertAll s as a
    cases hrepeated : as.any (· == a) with
    | true =>
      rw [hrepeated, Bool.or_true] at hcontains
      rw [insert_eq_self ((contains_ofList ..).trans hrepeated), insert_eq_self hcontains, ih]
    | false =>
      rw [hrepeated, Bool.or_false] at hcontains
      rw [toList_insert_of_new ((contains_ofList ..).trans hrepeated), List.filter_append,
        List.filter_singleton]
      cases hold : s.contains a with
      | true => rw [insert_eq_self (hcontains.trans hold), Bool.not_true, cond_false,
          List.append_nil, ih]
      | false => rw [Bool.not_false, cond_true, insertAll_append_singleton, ih]

/-- Adding each item of a list several times in a row adds it once. -/
theorem insertAll_flatMap_const [EquivBEq α] {β : Type} {ys : List β} (hys : ys ≠ [])
    (s : OrderedSet α) (xs : List α) :
    s.insertAll (xs.flatMap fun x => ys.map fun _ => x) = s.insertAll xs := by
  obtain ⟨y, ys, rfl⟩ := List.exists_cons_of_ne_nil hys
  induction xs generalizing s with
  | nil => rfl
  | cons x xs ih =>
    have hagain : ∀ z ∈ ys.map (fun _ => x), (s.insert x).contains z = true := by
      intro z hz
      obtain ⟨-, -, rfl⟩ := List.mem_map.mp hz
      rw [contains_insert, BEq.rfl, Bool.or_true]
    calc s.insertAll ((x :: xs).flatMap fun x => (y :: ys).map fun _ => x)
        = ((s.insert x).insertAll (ys.map fun _ => x)).insertAll
            (xs.flatMap fun x => (y :: ys).map fun _ => x) := insertAll_append ..
      _ = (s.insert x).insertAll (xs.flatMap fun x => (y :: ys).map fun _ => x) := by
          rw [insertAll_eq_self hagain]
      _ = s.insertAll (x :: xs) := ih (s.insert x)

theorem ofList_toList [EquivBEq α] (s : OrderedSet α) : ofList s.toList = s :=
  eq_of_toList_eq (toList_insertAll_of_new s.distinct fun _ _ => rfl)

theorem find?_eq_some {s : OrderedSet α} {a x : α} (h : s.find? a = some x) :
    x ∈ s.toList ∧ (x == a) = true :=
  ⟨List.mem_of_find?_eq_some h, List.find?_some (p := (· == a)) h⟩

theorem find?_eq_none_iff {s : OrderedSet α} {a : α} :
    s.find? a = none ↔ s.contains a = false := by
  simp [find?, contains]

/-- A member is read as it is stored. -/
theorem exists_find?_of_contains {s : OrderedSet α} {a : α} (h : s.contains a = true) :
    ∃ x ∈ s.toList, (x == a) = true ∧ s.find? a = some x := by
  cases hx : s.find? a with
  | none => simp [find?_eq_none_iff.mp hx] at h
  | some x => exact ⟨x, (find?_eq_some hx).1, (find?_eq_some hx).2, rfl⟩

/-- A member differs from what is not a member. -/
theorem beq_eq_false_of_contains [EquivBEq α] {s : OrderedSet α} {a b : α}
    (ha : s.contains a = true) (hb : s.contains b = false) : (a == b) = false := by
  rw [← Bool.not_eq_true]
  intro hab
  rw [← contains_congr s hab, ha] at hb
  exact Bool.noConfusion hb

/-- Equal members of a set are the same member. -/
theorem eq_of_beq_of_mem [PartialEquivBEq α] {s : OrderedSet α} {x y : α} (hx : x ∈ s.toList)
    (hy : y ∈ s.toList) (h : (x == y) = true) : x = y := by
  by_contra hne
  have : Std.Symm fun x y : α => (x == y) = false := ⟨fun _ _ h => BEq.comm.trans h⟩
  rw [s.distinct.forall hx hy hne] at h
  cases h

/-- A value is found as it is given if it is a member in this spelling. -/
theorem find?_eq_some_self_iff [EquivBEq α] {s : OrderedSet α} {a : α} :
    s.find? a = some a ↔ a ∈ s.toList := by
  refine ⟨fun h => (find?_eq_some h).1, fun ha => ?_⟩
  obtain ⟨x, hx, hxa, hfind⟩ := exists_find?_of_contains (contains_of_mem ha)
  rw [hfind, eq_of_beq_of_mem hx ha hxa]

theorem find?_congr [EquivBEq α] (s : OrderedSet α) {a b : α} (h : (a == b) = true) :
    s.find? a = s.find? b := by
  have : (fun x : α => x == a) = fun x => x == b := by
    funext x
    exact Bool.eq_iff_iff.mpr ⟨fun hx => BEq.trans hx h, fun hx => BEq.trans hx (BEq.symm h)⟩
  rw [find?, this, find?]

/-- What is found stays found when members are added at the end. -/
theorem find?_of_initial {s t : OrderedSet α} (h : s.toList <+: t.toList) {a x : α}
    (hx : s.find? a = some x) : t.find? a = some x := by
  obtain ⟨rest, hrest⟩ := h
  rw [find?] at hx ⊢
  rw [← hrest, List.find?_append, hx, Option.some_or]

/-- A member is found as it was spelled first. -/
theorem find?_insert [EquivBEq α] (s : OrderedSet α) (a b : α) :
    (s.insert a).find? b = if a == b then some ((s.find? a).getD a) else s.find? b := by
  rw [find?, toList_insert]
  split
  · rename_i ha
    change s.find? b = _
    split
    · rename_i hab
      obtain ⟨x, -, -, hx⟩ := exists_find?_of_contains ha
      rw [← find?_congr s hab, hx]
      rfl
    · rfl
  · rename_i ha
    rw [List.find?_append, List.find?_singleton]
    change (s.find? b).or _ = _
    split
    · rename_i hab
      rw [← find?_congr s hab, find?_eq_none_iff.mpr (Bool.eq_false_iff.mpr ha)]
      rfl
    · exact Option.or_none

theorem nodup_toList [ReflBEq α] (s : OrderedSet α) : s.toList.Nodup := by
  refine s.distinct.imp fun hne => ?_
  rintro rfl
  rw [BEq.rfl] at hne
  cases hne

theorem eq_empty_of_forall [ReflBEq α] {s : OrderedSet α} (h : ∀ a, s.contains a = false) :
    s = empty := by
  obtain ⟨members, hdistinct⟩ := s
  cases members with
  | nil => rfl
  | cons a members =>
    have ha := h a
    rw [contains_of_mem List.mem_cons_self] at ha
    exact Bool.noConfusion ha

/-- A set is not longer than a list that covers its members. -/
theorem size_le_of_covered [EquivBEq α] {s : OrderedSet α} {xs : List α}
    (h : ∀ a ∈ s.toList, ∃ x ∈ xs, (a == x) = true) : s.size ≤ xs.length := by
  classical
  let cover (a : α) : α := (xs.find? (a == ·)).getD a
  have hcover : ∀ a ∈ s.toList, cover a ∈ xs ∧ (a == cover a) = true := by
    intro a ha
    obtain ⟨x, hx, hax⟩ := h a ha
    cases hf : xs.find? (a == ·) with
    | none => exact absurd hax (List.find?_eq_none.mp hf x hx)
    | some y =>
      have hy : cover a = y := by simp only [cover, hf, Option.getD_some]
      rw [hy]
      exact ⟨List.mem_of_find?_eq_some hf, List.find?_some hf⟩
  -- Members with the same cover are equal, and the members of a set are not.
  have hnodup : (s.toList.map cover).Nodup := by
    rw [List.Nodup, List.pairwise_map]
    refine s.distinct.imp_of_mem fun {a b} ha hb hab hsame => ?_
    have : (a == b) = true := BEq.trans (hcover a ha).2 (hsame ▸ BEq.symm (hcover b hb).2)
    rw [this] at hab
    exact Bool.noConfusion hab
  have hsub : s.toList.map cover ⊆ xs := by
    intro y hy
    obtain ⟨a, ha, rfl⟩ := List.mem_map.mp hy
    exact (hcover a ha).1
  calc s.size = (s.toList.map cover).length := (List.length_map cover).symm
    _ ≤ xs.length := (hnodup.subperm hsub).length_le

theorem size_le_of_isSubset [EquivBEq α] {s t : OrderedSet α} (h : s.isSubset t = true) :
    s.size ≤ t.size := by
  refine size_le_of_covered fun a ha => ?_
  obtain ⟨x, hx, hxa⟩ := contains_iff.mp (isSubset_iff.mp h a (contains_of_mem ha))
  exact ⟨x, hx, BEq.symm hxa⟩

/-- A subset of a set has the members of a part of its list. -/
theorem exists_sublist_of_isSubset [EquivBEq α] {s t : OrderedSet α}
    (h : s.isSubset t = true) :
    ∃ xs, xs.Sublist t.toList ∧ (s == ofList xs) = true := by
  refine ⟨t.toList.filter s.contains, List.filter_sublist, beq_iff.mpr fun a => ?_⟩
  rw [Bool.eq_iff_iff, contains_ofList_iff]
  constructor
  · intro ha
    obtain ⟨x, hx, hxa⟩ := contains_iff.mp (isSubset_iff.mp h a ha)
    exact ⟨x, List.mem_filter.mpr ⟨hx, by rwa [contains_congr s hxa]⟩, hxa⟩
  · rintro ⟨x, hx, hxa⟩
    rw [← contains_congr s hxa]
    exact (List.mem_filter.mp hx).2

/-- Equal sets have the same number of members. -/
theorem size_eq_of_beq [EquivBEq α] {s t : OrderedSet α} (h : (s == t) = true) :
    s.size = t.size := by
  have h' : (s.isSubset t && t.isSubset s) = true := h
  rw [Bool.and_eq_true] at h'
  exact Nat.le_antisymm (size_le_of_isSubset h'.1) (size_le_of_isSubset h'.2)

/-- Equal sets have the same members if equal members are spelled alike. -/
theorem perm_of_beq [EquivBEq α] {s t : OrderedSet α} (h : (s == t) = true)
    (hspelled : ∀ x ∈ s.toList, ∀ y ∈ t.toList, (x == y) = true → x = y) :
    s.toList.Perm t.toList := by
  refine (List.perm_ext_iff_of_nodup s.nodup_toList t.nodup_toList).mpr fun x => ?_
  rw [beq_iff] at h
  constructor
  · intro hx
    obtain ⟨y, hy, hyx⟩ := contains_iff.mp ((h x).symm.trans (contains_of_mem hx))
    exact hspelled x hx y hy (BEq.symm hyx) ▸ hy
  · intro hx
    obtain ⟨y, hy, hyx⟩ := contains_iff.mp ((h x).trans (contains_of_mem hx))
    exact hspelled y hy x hx hyx ▸ hy

end OrderedSet

/-! ### Maps -/

namespace OrderedMap

variable {κ ν : Type} [BEq κ]

/-- What holds of all entries still holds after writing if it holds of the entry that is written. -/
theorem forall_mem_alterEntries {P : κ → ν → Prop} {k : κ} {f : Option ν → ν}
    {entries : List (κ × ν)} (h : ∀ e ∈ entries, P e.1 e.2) (hnew : P k (f none))
    (hold : ∀ l v, P l v → P l (f (some v))) :
    ∀ e ∈ alterEntries k f entries, P e.1 e.2 := by
  induction entries with
  | nil => exact List.forall_mem_singleton.mpr hnew
  | cons first entries ih =>
    obtain ⟨l, v⟩ := first
    rw [List.forall_mem_cons] at h
    rw [alterEntries]
    split
    · exact List.forall_mem_cons.mpr ⟨hold l v h.1, h.2⟩
    · exact List.forall_mem_cons.mpr ⟨h.1, ih h.2⟩

theorem find?_eq_some_of_mem [EquivBEq κ] {m : OrderedMap κ ν} {k k' : κ} {v : ν}
    (he : (k', v) ∈ m.entries) (hk : (k' == k) = true) : m.find? k = some v := by
  rw [← find?_congr m hk, find?]
  obtain ⟨entries, hd⟩ := m
  induction entries with
  | nil => exact absurd he List.not_mem_nil
  | cons first entries ih =>
    rw [List.pairwise_cons] at hd
    rcases List.mem_cons.mp he with rfl | he
    · simp
    · have : (first.1 == k') = false := hd.1 _ he
      rw [List.find?_cons_of_neg (by simp [this])]
      exact ih hd.2 he

/-- A map answers with the value of the entry whose key is equal. -/
theorem find?_eq_some_iff [EquivBEq κ] {m : OrderedMap κ ν} {k : κ} {v : ν} :
    m.find? k = some v ↔ ∃ k', (k', v) ∈ m.entries ∧ (k' == k) = true := by
  constructor
  · intro h
    obtain ⟨e, he, rfl⟩ := Option.map_eq_some_iff.mp h
    exact ⟨e.1, List.mem_of_find?_eq_some he, List.find?_some (p := fun e : κ × ν => e.1 == k) he⟩
  · rintro ⟨k', he, hk⟩
    exact find?_eq_some_of_mem he hk

/-- The order of the entries does not matter for lookups. -/
theorem find?_perm [EquivBEq κ] {m n : OrderedMap κ ν} (h : m.entries.Perm n.entries) (k : κ) :
    m.find? k = n.find? k := by
  refine Option.ext fun v => ?_
  rw [find?_eq_some_iff, find?_eq_some_iff]
  simp only [h.mem_iff]

@[simp] theorem keys_ofKeys (ks : OrderedSet κ) (f : κ → ν) : (ofKeys ks f).keys = ks := by
  cases ks
  simp [keys, ofKeys, Function.comp_def]

theorem find?_ofKeys (ks : OrderedSet κ) (f : κ → ν) (k : κ) :
    (ofKeys ks f).find? k = (ks.find? k).map f := by
  simp only [find?, ofKeys, OrderedSet.find?, List.find?_map, Option.map_map]
  rfl

theorem ofKeys_congr {ks : OrderedSet κ} {f g : κ → ν} (h : ∀ k ∈ ks.toList, f k = g k) :
    ofKeys ks f = ofKeys ks g := by
  have hentries : ks.toList.map (fun k => (k, f k)) = ks.toList.map fun k => (k, g k) :=
    List.map_congr_left fun k hk => by rw [h k hk]
  simp only [ofKeys, hentries]

theorem isSome_find? (m : OrderedMap κ ν) (k : κ) : (m.find? k).isSome = m.contains k := by
  rw [Bool.eq_iff_iff, Option.isSome_iff_ne_none, ne_eq, find?_eq_none_iff, Bool.not_eq_false]

/-- A map is made of its keys and of what it answers. -/
theorem eq_ofKeys [EquivBEq κ] (m : OrderedMap κ ν) (v : ν) :
    m = ofKeys m.keys fun k => (m.find? k).getD v := by
  have hentries : m.entries = (m.entries.map (·.1)).map fun k => (k, (m.find? k).getD v) := by
    rw [List.map_map]
    refine (List.map_id _).symm.trans (List.map_congr_left fun e he => ?_)
    rw [Function.comp_apply, find?_eq_some_of_mem he BEq.rfl]
    rfl
  obtain ⟨entries, hdistinct⟩ := m
  simp only [ofKeys, OrderedMap.mk.injEq]
  exact hentries

/-- Setting the value of a key of a map that is given by a function. -/
theorem insert_ofKeys [EquivBEq κ] (ks : OrderedSet κ) (f : κ → ν) (k : κ) (v : ν) :
    (ofKeys ks f).insert k v = ofKeys (ks.insert k) fun l => if k == l then v else f l := by
  have hkeys : ((ofKeys ks f).insert k v).keys = ks.insert k := by
    refine OrderedSet.eq_of_toList_eq ((toList_keys_alter ..).trans ?_)
    rw [keys_ofKeys]
  rw [eq_ofKeys ((ofKeys ks f).insert k v) v, hkeys]
  refine ofKeys_congr fun l hl => ?_
  rw [find?_insert]
  split
  · rfl
  · rename_i hne
    have hmem : l ∈ ks.toList :=
      (OrderedSet.mem_toList_insert hl).resolve_right fun h => hne (h ▸ BEq.rfl)
    rw [find?_ofKeys, OrderedSet.find?_eq_some_self_iff.mpr hmem]
    rfl

/-- Two maps agree if they answer alike under every key. -/
theorem agreesWith_iff [EquivBEq κ] {m n : OrderedMap κ ν} {agree : ν → ν → Bool} :
    m.agreesWith n agree = true ↔
      ∀ k, Option.Rel (fun v w => agree v w = true) (m.find? k) (n.find? k) := by
  rw [agreesWith, Bool.and_eq_true, List.all_eq_true, List.all_eq_true]
  constructor
  · rintro ⟨hn, hm⟩ k
    cases hv : m.find? k with
    | none =>
      cases hw : n.find? k with
      | none => exact .none
      | some w =>
        obtain ⟨k', he, hk⟩ := find?_eq_some_iff.mp hw
        have : m.contains k' = false := by rw [← find?_eq_none_iff, find?_congr m hk, hv]
        exact absurd (hn _ he) (by simp [this])
    | some v =>
      obtain ⟨k', he, hk⟩ := find?_eq_some_iff.mp hv
      have hv' := hm _ he
      rw [find?_congr n hk] at hv'
      cases hw : n.find? k with
      | none => simp [hw] at hv'
      | some w => exact .some (by simpa [hw] using hv')
  · intro h
    refine ⟨fun e he => ?_, fun e he => ?_⟩
    · have hrel := h e.1
      rw [find?_eq_some_iff.mpr ⟨e.1, he, BEq.rfl⟩] at hrel
      refine Bool.eq_false_imp_eq_true.mp fun hc => ?_
      rw [find?_eq_none_iff.mpr hc] at hrel
      cases hrel
    · have hrel := h e.1
      rw [find?_eq_some_iff.mpr ⟨e.1, he, BEq.rfl⟩] at hrel
      cases hw : n.find? e.1 with
      | none => rw [hw] at hrel; cases hrel
      | some w =>
        rw [hw] at hrel
        cases hrel with
        | some hvw => exact hvw

theorem mem_keys_iff {m : OrderedMap κ ν} {k : κ} :
    k ∈ m.keys.toList ↔ ∃ v, (k, v) ∈ m.entries := by
  simp [keys]

/-- A key is found as it was spelled first. -/
theorem find?_keys_alter [EquivBEq κ] (m : OrderedMap κ ν) (k l : κ) (f : Option ν → ν) :
    (m.alter k f).keys.find? l =
      if k == l then some ((m.keys.find? k).getD k) else m.keys.find? l := by
  rw [OrderedSet.eq_of_toList_eq (m.toList_keys_alter k f), OrderedSet.find?_insert]

theorem alterEntries_eq_self {k : κ} {v : ν} {f : Option ν → ν} (hf : f (some v) = v)
    {entries : List (κ × ν)} (h : (entries.find? fun e => e.1 == k).map (·.2) = some v) :
    alterEntries k f entries = entries := by
  induction entries with
  | nil => cases h
  | cons first entries ih =>
    obtain ⟨l, w⟩ := first
    rw [alterEntries]
    cases hl : l == k with
    | true =>
      obtain rfl : w = v := by simpa [hl] using h
      rw [if_pos rfl, hf]
    | false => rw [if_neg Bool.false_ne_true, ih (by simpa [hl] using h)]

/-- Writing what is stored already changes nothing. -/
theorem alter_eq_self {m : OrderedMap κ ν} {k : κ} {v : ν} {f : Option ν → ν}
    (h : m.find? k = some v) (hf : f (some v) = v) : m.alter k f = m := by
  obtain ⟨entries, hdistinct⟩ := m
  have hentries : alterEntries k f entries = entries := alterEntries_eq_self hf h
  simp only [alter, hentries]

/-- Writing keeps what is read off from the entries if it keeps what is read off from the entry that
is written. -/
theorem flatMap_alterEntries {α : Type} {k : κ} {f : Option ν → ν} {g : κ × ν → List α}
    (hnew : g (k, f none) = []) (hold : ∀ l v, g (l, f (some v)) = g (l, v))
    (entries : List (κ × ν)) : (alterEntries k f entries).flatMap g = entries.flatMap g := by
  induction entries with
  | nil => simp [alterEntries, hnew]
  | cons first entries ih =>
    rw [alterEntries]
    split
    · rw [List.flatMap_cons, List.flatMap_cons, hold]
    · rw [List.flatMap_cons, List.flatMap_cons, ih]

end OrderedMap

end Determinize
