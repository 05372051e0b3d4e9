/-!
# Ordered sets

A finite set up to an equality `==`, stored as a list without repetitions in the order in which the
members were added. Adding a member that is present already changes nothing, so of several equal
spellings the set keeps the first.

Two ordered sets are equal, `s == t`, when they have the same members, whatever the order and the
spelling. Under an equivalence relation on the members this is an equivalence relation again.

## Main definitions

* `OrderedSet` — lists without repetitions.
* `OrderedSet.contains`, `OrderedSet.find?`, `OrderedSet.insert`, `OrderedSet.insertAll`,
  `OrderedSet.ofList`, `OrderedSet.union`, `OrderedSet.erase`, `OrderedSet.isDisjoint`.

## Main results

* `OrderedSet.contains_insert`, `OrderedSet.contains_insertAll`, `OrderedSet.contains_ofList`,
  `OrderedSet.contains_erase`.
* `OrderedSet.beq_iff`, and equality of sets is an equivalence relation.
-/

namespace Determinize

/-- A list without repetitions up to `==`. -/
structure OrderedSet (α : Type) [BEq α] where
  /-- The members, in the order in which they were added. -/
  toList : List α
  distinct : toList.Pairwise fun a b => (a == b) = false

namespace OrderedSet

variable {α : Type} [BEq α]

/-- The set without members. -/
def empty : OrderedSet α := ⟨[], .nil⟩

instance : Inhabited (OrderedSet α) := ⟨empty⟩

/-- Whether a member of the set equals `a`. -/
def contains (s : OrderedSet α) (a : α) : Bool := s.toList.any (· == a)

/-- The member of the set that equals `a`. -/
def find? (s : OrderedSet α) (a : α) : Option α := s.toList.find? (· == a)

/-- The number of members. -/
def size (s : OrderedSet α) : Nat := s.toList.length

/-- Whether the set has no members. -/
def isEmpty (s : OrderedSet α) : Bool := s.toList.isEmpty

/-- Adds `a` at the end, unless a member equals it. -/
def insert (s : OrderedSet α) (a : α) : OrderedSet α :=
  if h : s.contains a then s
  else
    ⟨s.toList ++ [a], List.pairwise_append.mpr ⟨s.distinct, List.pairwise_singleton .., by
      intro x hx y hy
      obtain rfl := List.mem_singleton.mp hy
      simp only [contains, List.any_eq_true, not_exists, not_and, Bool.not_eq_true] at h
      exact h x hx⟩⟩

/-- Adds the members of a list, one after the other. -/
def insertAll (s : OrderedSet α) (as : List α) : OrderedSet α := as.foldl insert s

/-- The set of the members of a list. -/
def ofList (as : List α) : OrderedSet α := empty.insertAll as

/-- The members of `s`, then the further members of `t`. -/
def union (s t : OrderedSet α) : OrderedSet α := s.insertAll t.toList

/-- The set of the members with a property. -/
def filter (s : OrderedSet α) (p : α → Bool) : OrderedSet α :=
  ⟨s.toList.filter p, s.distinct.sublist List.filter_sublist⟩

/-- The set without the member that equals `a`. -/
def erase (s : OrderedSet α) (a : α) : OrderedSet α := s.filter fun x => !(x == a)

/-- Whether the sets have no common member. -/
def isDisjoint (s t : OrderedSet α) : Bool := !s.toList.any t.contains

/-- Whether every member of `s` equals a member of `t`. -/
def isSubset (s t : OrderedSet α) : Bool := s.toList.all t.contains

instance : BEq (OrderedSet α) := ⟨fun s t => s.isSubset t && t.isSubset s⟩

/-! ### Membership -/

theorem contains_iff {s : OrderedSet α} {a : α} :
    s.contains a = true ↔ ∃ x ∈ s.toList, (x == a) = true := by
  simp [contains]

@[simp] theorem contains_empty (a : α) : (empty : OrderedSet α).contains a = false := rfl

theorem contains_of_mem [ReflBEq α] {s : OrderedSet α} {a : α} (h : a ∈ s.toList) :
    s.contains a = true :=
  contains_iff.mpr ⟨a, h, BEq.rfl⟩

theorem contains_congr [EquivBEq α] (s : OrderedSet α) {a b : α} (h : (a == b) = true) :
    s.contains a = s.contains b := by
  rw [Bool.eq_iff_iff, contains_iff, contains_iff]
  exact ⟨fun ⟨x, hx, hxa⟩ => ⟨x, hx, BEq.trans hxa h⟩,
    fun ⟨x, hx, hxb⟩ => ⟨x, hx, BEq.trans hxb (BEq.symm h)⟩⟩

theorem toList_insert (s : OrderedSet α) (a : α) :
    (s.insert a).toList = if s.contains a then s.toList else s.toList ++ [a] := by
  unfold insert
  split <;> rfl

theorem contains_insert [EquivBEq α] (s : OrderedSet α) (a b : α) :
    (s.insert a).contains b = (s.contains b || a == b) := by
  rw [contains, toList_insert]
  split
  · rename_i h
    change s.contains b = (s.contains b || a == b)
    by_cases hab : (a == b) = true
    · rw [← contains_congr s hab, h, Bool.true_or]
    · rw [Bool.eq_false_iff.mpr hab, Bool.or_false]
  · simp [contains]

theorem contains_insertAll [EquivBEq α] (s : OrderedSet α) (as : List α) (b : α) :
    (s.insertAll as).contains b = (s.contains b || as.any (· == b)) := by
  induction as generalizing s with
  | nil => simp [insertAll]
  | cons a as ih =>
    have hstep : s.insertAll (a :: as) = (s.insert a).insertAll as := rfl
    rw [hstep, ih, contains_insert, List.any_cons, Bool.or_assoc]

theorem contains_ofList [EquivBEq α] (as : List α) (b : α) :
    (ofList as).contains b = as.any (· == b) := by
  simp [ofList, contains_insertAll]

theorem contains_union [EquivBEq α] (s t : OrderedSet α) (b : α) :
    (s.union t).contains b = (s.contains b || t.contains b) :=
  contains_insertAll ..

theorem contains_filter (s : OrderedSet α) (p : α → Bool) (b : α) :
    (s.filter p).contains b = s.toList.any fun x => p x && x == b := by
  simp [contains, filter, List.any_filter]

theorem contains_erase [EquivBEq α] (s : OrderedSet α) (a b : α) :
    (s.erase a).contains b = (s.contains b && !(a == b)) := by
  rw [erase, contains_filter, Bool.eq_iff_iff, Bool.and_eq_true, contains_iff]
  simp only [List.any_eq_true, Bool.and_eq_true, Bool.not_eq_true']
  constructor
  · rintro ⟨x, hx, hxa, hxb⟩
    refine ⟨⟨x, hx, hxb⟩, Bool.eq_false_iff.mpr fun hab => ?_⟩
    rw [BEq.trans hxb (BEq.symm hab)] at hxa
    exact Bool.noConfusion hxa
  · rintro ⟨⟨x, hx, hxb⟩, hab⟩
    refine ⟨x, hx, Bool.eq_false_iff.mpr fun hxa => ?_, hxb⟩
    rw [BEq.trans (BEq.symm hxa) hxb] at hab
    exact Bool.noConfusion hab

/-! ### Equality of sets -/

theorem isSubset_iff [EquivBEq α] {s t : OrderedSet α} :
    s.isSubset t = true ↔ ∀ a, s.contains a = true → t.contains a = true := by
  rw [isSubset, List.all_eq_true]
  constructor
  · intro h a ha
    obtain ⟨x, hx, hxa⟩ := contains_iff.mp ha
    rw [← contains_congr t hxa]
    exact h x hx
  · exact fun h x hx => h x (contains_of_mem hx)

theorem beq_iff [EquivBEq α] {s t : OrderedSet α} :
    (s == t) = true ↔ ∀ a, s.contains a = t.contains a := by
  change (s.isSubset t && t.isSubset s) = true ↔ _
  rw [Bool.and_eq_true, isSubset_iff, isSubset_iff]
  exact ⟨fun h a => Bool.eq_iff_iff.mpr ⟨h.1 a, h.2 a⟩,
    fun h => ⟨fun a ha => h a ▸ ha, fun a ha => (h a).symm ▸ ha⟩⟩

instance [EquivBEq α] : EquivBEq (OrderedSet α) where
  rfl := beq_iff.mpr fun _ => rfl
  symm h := beq_iff.mpr fun a => (beq_iff.mp h a).symm
  trans h h' := beq_iff.mpr fun a => (beq_iff.mp h a).trans (beq_iff.mp h' a)

end OrderedSet

end Determinize
