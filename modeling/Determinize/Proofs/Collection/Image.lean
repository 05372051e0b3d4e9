import Determinize.Proofs.Collection.Related

/-!
# Images of sets

The image of a set under a function consists of the images of its members. Different members can have
equal images. On a set that the function is faithful to, they do not: there, images are equal exactly
if what they are images of is equal, whatever its spelling, and subsets are equal exactly if their
images are.

## Main definitions

* `OrderedSet.image`, `OrderedSet.Faithful`.

## Main results

* `OrderedSet.Faithful.contains_image_iff`, `OrderedSet.Faithful.beq_image` — images of subsets.
* `OrderedSet.Faithful.toList_ofList_map` — images in their order.
* `OrderedSet.faithful_of_forall_mem` — faithfulness by the members as they are stored.
-/

namespace Determinize.OrderedSet

variable {α β : Type} [BEq α] [BEq β] {s t u : OrderedSet α} {f : α → β} {x : α} {y : β}

/-- The images of the members. -/
def image (f : α → β) (s : OrderedSet α) : OrderedSet β := ofList (s.toList.map f)

/-- The images of two members are equal if and only if the members are. -/
def Faithful (s : OrderedSet α) (f : α → β) : Prop :=
  ∀ x y, s.contains x = true → s.contains y = true → (f x == f y) = (x == y)

/-- A function that respects equality is faithful to a set if it tells its members apart. -/
theorem faithful_of_forall_mem [EquivBEq α] [EquivBEq β]
    (hf : ∀ x y, (x == y) = true → (f x == f y) = true)
    (h : ∀ x ∈ s.toList, ∀ y ∈ s.toList, (f x == f y) = true → (x == y) = true) :
    s.Faithful f := by
  intro x y hx hy
  obtain ⟨x', hx', hxx'⟩ := contains_iff.mp hx
  obtain ⟨y', hy', hyy'⟩ := contains_iff.mp hy
  rw [Bool.eq_iff_iff]
  refine ⟨fun hxy => ?_, hf x y⟩
  have himages : (f x' == f y') = true :=
    BEq.trans (hf _ _ hxx') (BEq.trans hxy (BEq.symm (hf _ _ hyy')))
  exact BEq.trans (BEq.symm hxx') (BEq.trans (h x' hx' y' hy' himages) hyy')

namespace Faithful

variable [EquivBEq α] [EquivBEq β] (hf : u.Faithful f)

include hf

omit [EquivBEq β] in
theorem beq_of_beq (hx : u.contains x = true) {x' : α} (h : (x == x') = true) :
    (f x == f x') = true := by
  rw [hf x x' hx (u.contains_congr h ▸ hx), h]

/-- The images of what a subset contains, whatever its spelling. -/
theorem contains_image_iff (hs : s.isSubset u = true) :
    (s.image f).contains y = true ↔ ∃ x, s.contains x = true ∧ (f x == y) = true := by
  rw [image, contains_ofList_iff]
  constructor
  · rintro ⟨_, hmem, hy⟩
    obtain ⟨x, hx, rfl⟩ := List.mem_map.mp hmem
    exact ⟨x, contains_of_mem hx, hy⟩
  · rintro ⟨x, hx, hy⟩
    obtain ⟨x', hx', hxx'⟩ := contains_iff.mp hx
    have himages := hf.beq_of_beq (isSubset_iff.mp hs x' (contains_of_mem hx')) hxx'
    exact ⟨f x', List.mem_map_of_mem hx', BEq.trans himages hy⟩

/-- What has its image in that of a subset is in the subset. -/
theorem contains_image (hs : s.isSubset u = true) (hx : u.contains x = true) :
    (s.image f).contains (f x) = s.contains x := by
  rw [Bool.eq_iff_iff, hf.contains_image_iff hs]
  constructor
  · rintro ⟨x', hx', himages⟩
    rw [hf x' x (isSubset_iff.mp hs x' hx') hx] at himages
    rwa [← s.contains_congr himages]
  · exact fun hxs => ⟨x, hxs, BEq.rfl⟩

/-- Subsets are equal if and only if their images are. -/
theorem beq_image (hs : s.isSubset u = true) (ht : t.isSubset u = true) :
    (s.image f == t.image f) = (s == t) := by
  rw [Bool.eq_iff_iff, beq_iff, beq_iff]
  constructor
  · intro h x
    have hcontains (hx : u.contains x = true) : s.contains x = t.contains x := by
      rw [← hf.contains_image hs hx, ← hf.contains_image ht hx, h]
    rw [Bool.eq_iff_iff]
    exact ⟨fun hx => hcontains (isSubset_iff.mp hs x hx) ▸ hx,
      fun hx => hcontains (isSubset_iff.mp ht x hx) ▸ hx⟩
  · intro h y
    rw [Bool.eq_iff_iff, hf.contains_image_iff hs, hf.contains_image_iff ht]
    simp only [h]

omit [EquivBEq α] [EquivBEq β] in
/-- The images of the members of a list make a set in the same order as the members. -/
theorem toList_ofList_map {xs : List α} (hxs : ∀ x ∈ xs, u.contains x = true) :
    (ofList (xs.map f)).toList = (ofList xs).toList.map f := by
  let R (x : α) (y : β) : Prop := u.contains x = true ∧ f x = y
  have hR : RespectsBEq R := by
    rintro x _ x' _ ⟨hx, rfl⟩ ⟨hx', rfl⟩
    exact (hf x x' hx hx').symm
  have hsets : List.Forall₂ R (ofList xs).toList (ofList (xs.map f)).toList :=
    forall₂_ofList hR (List.forall₂_map_right_iff.mpr
      (List.forall₂_same.mpr fun x hx => ⟨hxs x hx, rfl⟩))
  have himages := List.forall₂_map_left_iff.mpr (hsets.imp fun _ _ hxy => hxy.2)
  exact (List.forall₂_eq_eq_eq ▸ himages : _ = _).symm

end Faithful

end Determinize.OrderedSet
