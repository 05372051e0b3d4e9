import Determinize.Collection.OrderedSet

/-!
# Ordered maps

A finite map whose keys are compared by `==`, stored as a list of entries in the order in which the
keys were added. Setting a key that is present already replaces its value and keeps the key as it
was spelled first.

## Main definitions

* `OrderedMap` — lists of entries with distinct keys.
* `OrderedMap.find?`, `OrderedMap.alter`, `OrderedMap.insert`, `OrderedMap.keys`,
  `OrderedMap.ofKeys`, `OrderedMap.mapValues`, `OrderedMap.agreesWith`.

## Main results

* `OrderedMap.find?_alter`, `OrderedMap.find?_insert` — reading after writing.
* `OrderedMap.toList_keys_alter` — the order of the keys after writing.
-/

namespace Determinize

/-- A list of entries whose keys are distinct up to `==`. -/
structure OrderedMap (κ ν : Type) [BEq κ] where
  /-- The entries, in the order in which their keys were added. -/
  entries : List (κ × ν)
  distinct : entries.Pairwise fun a b => (a.1 == b.1) = false

/-- Replaces the value of the key `k` by `f (some v)`, or adds the key with the value `f none`. -/
def alterEntries {κ ν : Type} [BEq κ] (k : κ) (f : Option ν → ν) : List (κ × ν) → List (κ × ν)
  | [] => [(k, f none)]
  | (k', v) :: entries =>
    if k' == k then (k', f (some v)) :: entries else (k', v) :: alterEntries k f entries

namespace OrderedMap

variable {κ ν : Type} [BEq κ]

theorem mem_alterEntries {k : κ} {f : Option ν → ν} {entries : List (κ × ν)} {e : κ × ν}
    (h : e ∈ alterEntries k f entries) : e.1 = k ∨ ∃ e' ∈ entries, e'.1 = e.1 := by
  induction entries with
  | nil => exact Or.inl (by simp_all [alterEntries])
  | cons first entries ih =>
    rw [alterEntries] at h
    split at h
    · rcases List.mem_cons.mp h with rfl | h
      · exact Or.inr ⟨first, List.mem_cons_self .., rfl⟩
      · exact Or.inr ⟨e, List.mem_cons_of_mem _ h, rfl⟩
    · rcases List.mem_cons.mp h with rfl | h
      · exact Or.inr ⟨first, List.mem_cons_self .., rfl⟩
      · exact (ih h).imp_right fun ⟨e', he', hk⟩ => ⟨e', List.mem_cons_of_mem _ he', hk⟩

theorem pairwise_alterEntries {k : κ} {f : Option ν → ν} {entries : List (κ × ν)}
    (h : entries.Pairwise fun a b => (a.1 == b.1) = false) :
    (alterEntries k f entries).Pairwise fun a b => (a.1 == b.1) = false := by
  induction entries with
  | nil => exact List.pairwise_singleton ..
  | cons first entries ih =>
    rw [List.pairwise_cons] at h
    rw [alterEntries]
    split
    · exact List.pairwise_cons.mpr h
    · rename_i hk
      refine List.pairwise_cons.mpr ⟨fun e he => ?_, ih h.2⟩
      rcases mem_alterEntries he with he | ⟨e', he', hk'⟩
      · rw [he]
        exact Bool.eq_false_iff.mpr hk
      · rw [← hk']
        exact h.1 e' he'

/-- The map without keys. -/
def empty : OrderedMap κ ν := ⟨[], .nil⟩

instance : Inhabited (OrderedMap κ ν) := ⟨empty⟩

/-- The value of a key. -/
def find? (m : OrderedMap κ ν) (k : κ) : Option ν :=
  (m.entries.find? fun e => e.1 == k).map (·.2)

/-- Whether the map has the key. -/
def contains (m : OrderedMap κ ν) (k : κ) : Bool := m.entries.any fun e => e.1 == k

/-- The keys, in the order in which they were added. -/
def keys (m : OrderedMap κ ν) : OrderedSet κ :=
  ⟨m.entries.map (·.1), m.distinct.map _ fun _ _ h => h⟩

/-- The number of keys. -/
def size (m : OrderedMap κ ν) : Nat := m.entries.length

/-- Replaces the value `v` of the key `k` by `f (some v)`, or adds the key with the value
`f none`. -/
def alter (m : OrderedMap κ ν) (k : κ) (f : Option ν → ν) : OrderedMap κ ν :=
  ⟨alterEntries k f m.entries, pairwise_alterEntries m.distinct⟩

/-- Sets the value of a key. -/
def insert (m : OrderedMap κ ν) (k : κ) (v : ν) : OrderedMap κ ν := m.alter k fun _ => v

/-- The map with the keys `ks` and the values `f k`. -/
def ofKeys (ks : OrderedSet κ) (f : κ → ν) : OrderedMap κ ν :=
  ⟨ks.toList.map fun k => (k, f k), ks.distinct.map _ fun _ _ h => h⟩

/-- The map with the same keys and other values. -/
def mapValues {μ : Type} (m : OrderedMap κ ν) (f : κ → ν → μ) : OrderedMap κ μ :=
  ⟨m.entries.map fun e => (e.1, f e.1 e.2), m.distinct.map _ fun _ _ h => h⟩

/-- Whether two maps have the same keys, with values that agree. -/
def agreesWith (m n : OrderedMap κ ν) (agree : ν → ν → Bool) : Bool :=
  n.entries.all (fun e => m.contains e.1) &&
    m.entries.all fun e => (n.find? e.1).any (agree e.2)

/-! ### Reading after writing -/

@[simp] theorem find?_empty (k : κ) : (empty : OrderedMap κ ν).find? k = none := rfl

@[simp] theorem contains_empty (k : κ) : (empty : OrderedMap κ ν).contains k = false := rfl

theorem find?_eq_none_iff {m : OrderedMap κ ν} {k : κ} :
    m.find? k = none ↔ m.contains k = false := by
  simp [find?, contains]

theorem find?_congr [EquivBEq κ] (m : OrderedMap κ ν) {k l : κ} (h : (k == l) = true) :
    m.find? k = m.find? l := by
  have : (fun e : κ × ν => e.1 == k) = fun e => e.1 == l := by
    funext e
    exact Bool.eq_iff_iff.mpr ⟨fun he => BEq.trans he h, fun he => BEq.trans he (BEq.symm h)⟩
  rw [find?, this, find?]

theorem find?_alter [EquivBEq κ] (m : OrderedMap κ ν) (k l : κ) (f : Option ν → ν) :
    (m.alter k f).find? l = if k == l then some (f (m.find? k)) else m.find? l := by
  simp only [find?, alter]
  induction m.entries with
  | nil => cases hkl : k == l <;> simp [alterEntries, hkl]
  | cons first entries ih =>
    obtain ⟨k', v⟩ := first
    by_cases hk : (k' == k) = true
    · have hl : (k' == l) = (k == l) :=
        Bool.eq_iff_iff.mpr ⟨BEq.trans (BEq.symm hk), BEq.trans hk⟩
      cases hkl : k == l <;> simp [alterEntries, hk, hl, hkl]
    · have hk' : (k' == k) = false := Bool.eq_false_iff.mpr hk
      by_cases hl : (k' == l) = true
      · have hkl : (k == l) = false := by
          refine Bool.eq_false_iff.mpr fun hkl => ?_
          rw [BEq.trans hl (BEq.symm hkl)] at hk'
          exact Bool.noConfusion hk'
        simp [alterEntries, hk', hl, hkl]
      · have hl' : (k' == l) = false := Bool.eq_false_iff.mpr hl
        simpa [alterEntries, hk', hl'] using ih

theorem find?_insert [EquivBEq κ] (m : OrderedMap κ ν) (k l : κ) (v : ν) :
    (m.insert k v).find? l = if k == l then some v else m.find? l :=
  find?_alter ..

theorem map_fst_alterEntries (entries : List (κ × ν)) (k : κ) (f : Option ν → ν) :
    (alterEntries k f entries).map (·.1) =
      if entries.any (fun e => e.1 == k) then entries.map (·.1) else entries.map (·.1) ++ [k] := by
  induction entries with
  | nil => rfl
  | cons first entries ih =>
    obtain ⟨k', v⟩ := first
    by_cases hk : (k' == k) = true
    · simp [alterEntries, hk]
    · have hk' : (k' == k) = false := Bool.eq_false_iff.mpr hk
      simp only [alterEntries, hk', Bool.false_eq_true, if_false, List.map_cons, List.any_cons,
        Bool.false_or, ih]
      split <;> rfl

theorem contains_keys (m : OrderedMap κ ν) (k : κ) : m.keys.contains k = m.contains k :=
  List.any_map ..

/-- Writing adds the key after the others, unless it is present. -/
theorem toList_keys_alter (m : OrderedMap κ ν) (k : κ) (f : Option ν → ν) :
    (m.alter k f).keys.toList = (m.keys.insert k).toList := by
  rw [OrderedSet.toList_insert, contains_keys]
  exact map_fst_alterEntries m.entries k f

end OrderedMap

end Determinize
