import Determinize.Proofs.Collection.Member
import Mathlib.Data.List.Forall2

/-!
# Related lists, sets and maps

Lists are related by a relation of their members if they have the same length and the members at the
same place are related. Functions that treat related members alike treat related lists alike.

Sets and maps are lists in which members are looked up by equality. So what is asked of the relation
is that it respects equality.

## Main definitions

* `RespectsBEq` — related members are equal on one side if they are on the other.

## Main results

* `forall₂_find?`, `map_eq_map_of_forall₂`, `mapM_eq_mapM_of_forall₂` — lists.
* `OrderedSet.forall₂_insertAll`, `OrderedSet.rel_find?_of_beq`, `OrderedMap.rel_find?` — sets and
  maps.
-/

namespace Determinize

variable {σ τ : Type} {R : σ → τ → Prop}

/-! ### Related lists -/

theorem forall₂_any {p : σ → Bool} {q : τ → Bool} {xs : List σ} {ys : List τ}
    (h : List.Forall₂ R xs ys) (hpq : ∀ x y, R x y → p x = q y) : xs.any p = ys.any q := by
  induction h with
  | nil => rfl
  | cons hxy _ ih => rw [List.any_cons, List.any_cons, hpq _ _ hxy, ih]

theorem forall₂_all {p : σ → Bool} {q : τ → Bool} {xs : List σ} {ys : List τ}
    (h : List.Forall₂ R xs ys) (hpq : ∀ x y, R x y → p x = q y) : xs.all p = ys.all q := by
  induction h with
  | nil => rfl
  | cons hxy _ ih => rw [List.all_cons, List.all_cons, hpq _ _ hxy, ih]

theorem forall₂_find? {p : σ → Bool} {q : τ → Bool} {xs : List σ} {ys : List τ}
    (h : List.Forall₂ R xs ys) (hpq : ∀ x y, R x y → p x = q y) :
    Option.Rel R (xs.find? p) (ys.find? q) := by
  induction h with
  | nil => exact .none
  | @cons x y _ _ hxy _ ih =>
    rw [List.find?_cons, List.find?_cons, ← hpq x y hxy]
    cases p x with
    | true => exact .some hxy
    | false => exact ih

/-- A member of one list is related to a member of the other. -/
theorem exists_of_forall₂ {xs : List σ} {ys : List τ} {x : σ} (h : List.Forall₂ R xs ys)
    (hx : x ∈ xs) : ∃ y ∈ ys, R x y := by
  induction h with
  | nil => cases hx
  | @cons x' y _ _ hxy _ ih =>
    rcases List.mem_cons.mp hx with rfl | hx
    · exact ⟨y, List.mem_cons_self, hxy⟩
    · obtain ⟨y', hy', hxy'⟩ := ih hx
      exact ⟨y', List.mem_cons_of_mem y hy', hxy'⟩

/-- What is related in lists are members of the lists. -/
theorem forall₂_mem {xs : List σ} {ys : List τ} (h : List.Forall₂ R xs ys) :
    List.Forall₂ (fun x y => x ∈ xs ∧ y ∈ ys ∧ R x y) xs ys :=
  List.forall₂_iff_zip.mpr ⟨h.length_eq, fun hxy =>
    ⟨(List.of_mem_zip hxy).1, (List.of_mem_zip hxy).2, List.forall₂_zip h hxy⟩⟩

theorem rel_getElem? {xs : List σ} {ys : List τ} (h : List.Forall₂ R xs ys) (i : Nat) :
    Option.Rel R xs[i]? ys[i]? := by
  induction h generalizing i with
  | nil => exact .none
  | cons hxy _ ih =>
    cases i with
    | zero => exact .some hxy
    | succ i => exact ih i

theorem rel_map {α β : Type} {Q : α → β → Prop} {f : σ → α} {g : τ → β} {x : Option σ}
    {y : Option τ} (h : Option.Rel R x y) (hfg : ∀ x y, R x y → Q (f x) (g y)) :
    Option.Rel Q (x.map f) (y.map g) := by
  cases h with
  | none => exact .none
  | some hxy => exact .some (hfg _ _ hxy)

theorem rel_getD {x : Option σ} {y : Option τ} {a : σ} {b : τ} (h : Option.Rel R x y)
    (hab : R a b) : R (x.getD a) (y.getD b) := by
  cases h with
  | none => exact hab
  | some hxy => exact hxy

section Lists

variable {γ ε : Type} {xs : List σ} {ys : List τ}

theorem map_eq_map_of_forall₂ {f : σ → γ} {g : τ → γ} (h : List.Forall₂ R xs ys)
    (hfg : ∀ x y, R x y → f x = g y) : xs.map f = ys.map g := by
  induction h with
  | nil => rfl
  | cons hxy _ ih => rw [List.map_cons, List.map_cons, hfg _ _ hxy, ih]

theorem forall₂_of_map_eq_map {f : σ → γ} {g : τ → γ} (h : xs.map f = ys.map g) :
    List.Forall₂ (fun x y => f x = g y) xs ys := by
  rwa [← List.forall₂_eq_eq_eq, List.forall₂_map_left_iff, List.forall₂_map_right_iff] at h

theorem mapM_eq_mapM_of_forall₂ {f : σ → Except ε γ} {g : τ → Except ε γ}
    (h : List.Forall₂ R xs ys) (hfg : ∀ x y, R x y → f x = g y) : xs.mapM f = ys.mapM g := by
  induction h with
  | nil => rfl
  | cons hxy _ ih => rw [List.mapM_cons, List.mapM_cons, hfg _ _ hxy, ih]

theorem mapM_congr {f g : σ → Except ε γ} (h : ∀ x ∈ xs, f x = g x) : xs.mapM f = xs.mapM g := by
  induction xs with
  | nil => rfl
  | cons x xs ih =>
    rw [List.forall_mem_cons] at h
    rw [List.mapM_cons, List.mapM_cons, h.1, ih h.2]

/-- Attempts that succeed make the list of their results. -/
theorem mapM_eq_ok_map {f : σ → Except ε γ} {g : σ → γ} (h : ∀ x ∈ xs, f x = .ok (g x)) :
    xs.mapM f = .ok (xs.map g) := by
  induction xs with
  | nil => rfl
  | cons x xs ih =>
    rw [List.forall_mem_cons] at h
    rw [List.mapM_cons, h.1, ih h.2]
    rfl

/-- Attempts that fail in one way fail together if one of them does. -/
theorem mapM_eq_ite {f : σ → Except ε γ} {g : σ → γ} {p : σ → Bool} {e : ε}
    (h : ∀ x ∈ xs, f x = if p x then .ok (g x) else .error e) :
    xs.mapM f = if xs.all p then .ok (xs.map g) else .error e := by
  induction xs with
  | nil => rfl
  | cons x xs ih =>
    rw [List.forall_mem_cons] at h
    rw [List.mapM_cons, h.1, ih h.2, List.all_cons, List.map_cons]
    cases p x <;> cases xs.all p <;> rfl

end Lists

variable [BEq σ] [BEq τ]

/-- Related members are equal on one side if they are on the other. -/
def RespectsBEq (R : σ → τ → Prop) : Prop :=
  ∀ ⦃x y x' y'⦄, R x y → R x' y' → (x == x') = (y == y')

/-! ### Related sets and maps -/

theorem respectsBEq_beq {α : Type} [BEq α] [EquivBEq α] :
    RespectsBEq fun x y : α => (x == y) = true := fun _ _ _ _ h h' =>
  (BEq.congr_left h).trans (BEq.congr_right h')

namespace OrderedSet

variable {s : OrderedSet σ} {t : OrderedSet τ} {x : σ} {y : τ} {xs : List σ} {ys : List τ}

theorem contains_eq_of_forall₂ (hR : RespectsBEq R) (h : List.Forall₂ R s.toList t.toList)
    (hxy : R x y) : s.contains x = t.contains y :=
  forall₂_any h fun _ _ hab => hR hab hxy

theorem forall₂_insert (hR : RespectsBEq R) (h : List.Forall₂ R s.toList t.toList) (hxy : R x y) :
    List.Forall₂ R (s.insert x).toList (t.insert y).toList := by
  rw [toList_insert, toList_insert, contains_eq_of_forall₂ hR h hxy]
  split
  · exact h
  · exact List.rel_append h (.cons hxy .nil)

theorem forall₂_insertAll (hR : RespectsBEq R) (h : List.Forall₂ R s.toList t.toList)
    (hxs : List.Forall₂ R xs ys) :
    List.Forall₂ R (s.insertAll xs).toList (t.insertAll ys).toList := by
  induction hxs generalizing s t with
  | nil => exact h
  | cons hxy _ ih => exact ih (forall₂_insert hR h hxy)

theorem forall₂_ofList (hR : RespectsBEq R) (hxs : List.Forall₂ R xs ys) :
    List.Forall₂ R (ofList xs).toList (ofList ys).toList :=
  forall₂_insertAll hR .nil hxs

/-- Equal sets answer with equal members. -/
theorem rel_find?_of_beq {α : Type} [BEq α] [EquivBEq α] {s t : OrderedSet α}
    (h : (s == t) = true) (a : α) :
    Option.Rel (fun x y => x ∈ s.toList ∧ y ∈ t.toList ∧ (x == y) = true) (s.find? a)
      (t.find? a) := by
  cases ha : s.contains a with
  | false =>
    rw [find?_eq_none_iff.mpr ha, find?_eq_none_iff.mpr (beq_iff.mp h a ▸ ha)]
    exact .none
  | true =>
    obtain ⟨x, hx, hxa, hfind⟩ := exists_find?_of_contains ha
    obtain ⟨y, hy, hya, hfind'⟩ := exists_find?_of_contains ((beq_iff.mp h a).symm.trans ha)
    rw [hfind, hfind']
    exact .some ⟨hx, hy, BEq.trans hxa (BEq.symm hya)⟩

end OrderedSet

/-- Maps with related entries answer alike under related keys. -/
theorem OrderedMap.rel_find? {ν ν' : Type} {Q : ν → ν' → Prop} (hR : RespectsBEq R)
    {m : OrderedMap σ ν} {m' : OrderedMap τ ν'}
    (h : List.Forall₂ (fun e e' => R e.1 e'.1 ∧ Q e.2 e'.2) m.entries m'.entries) {k : σ} {k' : τ}
    (hk : R k k') : Option.Rel Q (m.find? k) (m'.find? k') := by
  have hfound := forall₂_find? h (p := (·.1 == k)) (q := (·.1 == k')) fun e e' he => hR he.1 hk
  exact rel_map hfound fun _ _ he => he.2

end Determinize
