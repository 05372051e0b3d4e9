import Determinize.Proofs.Value.Text

/-!
# The order of values

The comparison of values is that of an order, where it is defined: it does not tell equal values
apart, of two values that are comparable and not equal one is less than the other, and what is less
than something less than a value is comparable with the value, and less. Objects that are not a
number are left out of these laws: they are comparable with all numbers and neither less nor greater.

This is inherited by tuples and lists from their members, since the first position with different
members decides: of the two positions that decide in a chain of three, the earlier one decides
between the first and the last.

## Main definitions

* `Value.Compared` — how two values are compared.
* `Value.Turned` — what the answer to a comparison says about the other way round.

## Main results

* `Value.less?_congr` — equal values are compared alike.
* `Value.turned_less?`, `Value.less?_trans`, `Value.less?_eq_false_trans` — the laws of an order.
-/

namespace Determinize

namespace Value

variable {x y z x' y' : Value} {b : Bool}

/-- How two values are compared. -/
inductive Compared : Value → Value → Bool → Prop
  | number {x y : Value} {a b : Double} (hx : x.number? = some a) (hy : y.number? = some b) :
      Compared x y (a.lt b)
  | text (s t : String) : Compared (text s) (text t) (decide (s < t))
  | tuple {xs ys : List Value} {b : Bool} (h : lessItems? xs ys = some b) :
      Compared (tuple xs) (tuple ys) b
  | list {xs ys : List Value} {b : Bool} (h : lessItems? xs ys = some b) :
      Compared (list xs) (list ys) b

theorem less?_eq_some_iff : less? x y = some b ↔ Compared x y b := by
  constructor
  · intro h
    unfold less? at h
    split at h
    · injection h with h
      exact h ▸ .text _ _
    · exact .tuple h
    · exact .list h
    · cases hx : x.number? with
      | none => simp [hx] at h
      | some a =>
        cases hy : y.number? with
        | none => simp [hx, hy] at h
        | some c =>
          simp only [hx, hy] at h
          injection h with h
          exact h ▸ .number hx hy
  · intro h
    cases h with
    | number hx hy =>
      cases x <;> cases y <;> simp_all [less?, number?]
    | text s t => rfl
    | tuple h => exact h
    | list h => exact h

theorem exists_number?_of_beq {a : Double} (h : (x == x') = true) (hx : x.number? = some a) :
    ∃ a', x'.number? = some a' ∧ a'.place = a.place := by
  cases beq_iff_alike.mp h with
  | number hx' hy' h =>
    rw [hx] at hx'
    injection hx' with hx'
    exact ⟨_, hy', hx' ▸ h.symm⟩
  | null | text | tuple | list | object => cases hx

theorem eq_text_of_beq {s : String} (h : (text s == x') = true) : x' = text s := by
  cases beq_iff_alike.mp h with
  | number hx => cases hx
  | text => rfl

theorem exists_tuple_of_beq {xs : List Value} (h : (tuple xs == x') = true) :
    ∃ xs', x' = tuple xs' ∧ List.Forall₂ (fun x y => (x == y) = true) xs xs' := by
  cases beq_iff_alike.mp h with
  | number hx => cases hx
  | tuple hitems => exact ⟨_, rfl, hitems⟩

theorem exists_list_of_beq {xs : List Value} (h : (list xs == x') = true) :
    ∃ xs', x' = list xs' ∧ List.Forall₂ (fun x y => (x == y) = true) xs xs' := by
  cases beq_iff_alike.mp h with
  | number hx => cases hx
  | list hitems => exact ⟨_, rfl, hitems⟩

theorem lt_congr {a b a' b' : Double} (ha : a'.place = a.place) (hb : b'.place = b.place) :
    a.lt b = a'.lt b' := by
  rw [Bool.eq_iff_iff, Double.lt_eq_true_iff, Double.lt_eq_true_iff, ha, hb,
    Double.isNumber_congr ha, Double.isNumber_congr hb]

/-- Sequences are compared alike if their members are. -/
theorem lessItems?_of_forall₂ {xs ys xs' ys' : List Value}
    (hmembers : ∀ x ∈ xs, ∀ {y x' y' b}, less? x y = some b → (x == x') = true → (y == y') = true →
      less? x' y' = some b)
    (h : lessItems? xs ys = some b) (hxs : List.Forall₂ (fun x y => (x == y) = true) xs xs')
    (hys : List.Forall₂ (fun x y => (x == y) = true) ys ys') : lessItems? xs' ys' = some b := by
  induction hxs generalizing ys ys' with
  | nil =>
    cases hys with
    | nil => exact h
    | cons => exact h
  | cons hx hxs ih =>
    cases hys with
    | nil => exact h
    | cons hy hys =>
      rw [List.forall_mem_cons] at hmembers
      have hsame := (BEq.congr_left hx).trans (BEq.congr_right hy)
      rw [lessItems?] at h ⊢
      rw [← hsame]
      split at h
      · rename_i hequal
        rw [if_pos hequal]
        exact ih hmembers.2 h hys
      · rename_i hdiffer
        rw [if_neg hdiffer]
        exact hmembers.1 h hx hy

/-- Values are compared alike if they are equal. -/
theorem less?_of_beq (h : less? x y = some b) (hx : (x == x') = true) (hy : (y == y') = true) :
    less? x' y' = some b := by
  induction x using memberInduction generalizing y x' y' b with
  | step x ih =>
    cases less?_eq_some_iff.mp h with
    | number ha hb =>
      obtain ⟨a', ha', hplace⟩ := exists_number?_of_beq hx ha
      obtain ⟨b', hb', hplace'⟩ := exists_number?_of_beq hy hb
      rw [lt_congr hplace hplace']
      exact less?_eq_some_iff.mpr (.number ha' hb')
    | text s t =>
      rw [eq_text_of_beq hx, eq_text_of_beq hy]
      exact h
    | tuple hitems =>
      obtain ⟨xs', rfl, hxs⟩ := exists_tuple_of_beq hx
      obtain ⟨ys', rfl, hys⟩ := exists_tuple_of_beq hy
      exact lessItems?_of_forall₂ (fun x hx => ih x hx) hitems hxs hys
    | list hitems =>
      obtain ⟨xs', rfl, hxs⟩ := exists_list_of_beq hx
      obtain ⟨ys', rfl, hys⟩ := exists_list_of_beq hy
      exact lessItems?_of_forall₂ (fun x hx => ih x hx) hitems hxs hys

/-- Values are compared alike if they are equal. -/
theorem less?_congr (hx : (x == x') = true) (hy : (y == y') = true) : less? x y = less? x' y' :=
  Option.ext fun _ =>
    ⟨fun h => less?_of_beq h hx hy, fun h => less?_of_beq h (BEq.symm hx) (BEq.symm hy)⟩

/-- What the answer to a comparison says about the comparison the other way round. -/
def Turned {α : Type} (less? : α → α → Option Bool) (equal : α → α → Prop) (x y : α) : Prop :=
  ∀ b, less? x y = some b →
    if b then less? y x = some false else equal x y ∨ less? y x = some true

theorem turned_lessItems? {xs ys : List Value}
    (hmembers : ∀ x ∈ xs, ∀ y ∈ ys, Turned less? (fun x y => (x == y) = true) x y) :
    Turned lessItems? (List.Forall₂ fun x y => (x == y) = true) xs ys := by
  induction xs generalizing ys with
  | nil =>
    intro b h
    cases ys <;> (injection h with h; subst h)
    · exact .inl .nil
    · rfl
  | cons x xs ih =>
    intro b h
    cases ys with
    | nil =>
      injection h with h
      subst h
      exact .inr rfl
    | cons y ys =>
      have htail (w : Value) (hw : w ∈ xs) (z : Value) (hz : z ∈ ys) :=
        hmembers w (List.mem_cons_of_mem x hw) z (List.mem_cons_of_mem y hz)
      rw [lessItems?] at h
      rw [lessItems?, BEq.comm (a := y)]
      by_cases hequal : (x == y) = true
      · rw [if_pos hequal] at h ⊢
        have hturned := ih htail b h
        cases b with
        | true => exact hturned
        | false => exact hturned.imp_left fun hxs => .cons hequal hxs
      · rw [if_neg hequal] at h ⊢
        have hturned := hmembers x List.mem_cons_self y List.mem_cons_self b h
        cases b with
        | true => exact hturned
        | false => exact .inr (hturned.resolve_left hequal)

/-- What a representable value stands for is a number. -/
theorem Representable.isNumber {a : Double} (hx : x.Representable) (ha : x.number? = some a) :
    a.isNumber = true := by
  cases x <;> simp only [number?, Option.some.injEq, reduceCtorEq] at ha
  case real d => exact ha ▸ Double.Representable.isNumber hx
  all_goals exact ha ▸ rfl

/-- The members of representable values are representable. -/
theorem Representable.of_mem_members (hx : x.Representable) (hy : y ∈ x.members) :
    y.Representable := by
  cases x with
  | tuple items | list items => exact representableItems_iff.mp hx y hy
  | object fields =>
    obtain ⟨f, hf, rfl⟩ := List.mem_map.mp hy
    exact representableFields_iff.mp hx f hf
  | null | bool | int | real | text => cases hy

theorem turned_less? (hx : x.Representable) (hy : y.Representable) :
    Turned less? (fun x y => (x == y) = true) x y := by
  induction x using memberInduction generalizing y with
  | step x ih =>
    intro b h
    cases less?_eq_some_iff.mp h with
    | @number _ _ a c ha hc =>
      have hna := hx.isNumber ha
      have hnc := hy.isNumber hc
      rw [less?_eq_some_iff.mpr (.number hc ha)]
      rcases lt_trichotomy a.place c.place with hlt | heq | hgt
      · rw [if_pos (Double.lt_eq_true_iff.mpr ⟨⟨hna, hnc⟩, hlt⟩),
          (Double.lt_eq_false_iff hnc hna).mpr hlt.le]
      · rw [(Double.lt_eq_false_iff hna hnc).mpr heq.ge, if_neg Bool.false_ne_true]
        exact .inl (beq_iff_alike.mpr (.number ha hc heq))
      · rw [(Double.lt_eq_false_iff hna hnc).mpr hgt.le, if_neg Bool.false_ne_true,
          Double.lt_eq_true_iff.mpr ⟨⟨hnc, hna⟩, hgt⟩]
        exact .inr rfl
    | text s t =>
      rw [less?]
      rcases lt_trichotomy s t with hlt | rfl | hgt
      · rw [decide_eq_true hlt, if_pos rfl, decide_eq_false hlt.not_gt]
      · rw [decide_eq_false (lt_irrefl s), if_neg Bool.false_ne_true]
        exact .inl BEq.rfl
      · rw [decide_eq_false hgt.not_gt, if_neg Bool.false_ne_true, decide_eq_true hgt]
        exact .inr rfl
    | tuple hitems =>
      have hturned := turned_lessItems? (fun z hz w hw =>
        ih z hz (hx.of_mem_members hz) (hy.of_mem_members hw)) b hitems
      cases b with
      | true => exact hturned
      | false => exact hturned.imp_left fun hxs => beq_iff_alike.mpr (.tuple hxs)
    | list hitems =>
      have hturned := turned_lessItems? (fun z hz w hw =>
        ih z hz (hx.of_mem_members hz) (hy.of_mem_members hw)) b hitems
      cases b with
      | true => exact hturned
      | false => exact hturned.imp_left fun hxs => beq_iff_alike.mpr (.list hxs)

theorem isSome_lessItems?_symm {xs ys : List Value}
    (hmembers : ∀ x ∈ xs, ∀ y, (less? x y).isSome → (less? y x).isSome)
    (h : (lessItems? xs ys).isSome) : (lessItems? ys xs).isSome := by
  induction xs generalizing ys with
  | nil => cases ys <;> rfl
  | cons x xs ih =>
    cases ys with
    | nil => rfl
    | cons y ys =>
      rw [List.forall_mem_cons] at hmembers
      rw [lessItems?] at h ⊢
      rw [BEq.comm (a := y)]
      split at h
      · rename_i hequal
        rw [if_pos hequal]
        exact ih hmembers.2 h
      · rename_i hdiffer
        rw [if_neg hdiffer]
        exact hmembers.1 y h

/-- If values can be compared, then also the other way round. -/
theorem comparable_symm (h : (less? x y).isSome) : (less? y x).isSome := by
  induction x using memberInduction generalizing y with
  | step x ih =>
    obtain ⟨b, hb⟩ := Option.isSome_iff_exists.mp h
    cases less?_eq_some_iff.mp hb with
    | number hx hy => exact Option.isSome_of_eq_some (less?_eq_some_iff.mpr (.number hy hx))
    | text s t => rfl
    | tuple hitems =>
      exact isSome_lessItems?_symm (fun x hx y => ih x hx) (Option.isSome_of_eq_some hitems)
    | list hitems =>
      exact isSome_lessItems?_symm (fun x hx y => ih x hx) (Option.isSome_of_eq_some hitems)

/-- A value that is less than another one is not equal to it. -/
theorem beq_eq_false_of_less? (hx : x.Representable) (hy : y.Representable)
    (h : less? x y = some true) : (x == y) = false := by
  rw [← Bool.not_eq_true]
  intro hequal
  have hturned : less? y x = some false := turned_less? hx hy true h
  rw [less?_congr (BEq.symm hequal) hequal, h] at hturned
  cases hturned

theorem lessItems?_trans {xs ys zs : List Value}
    (hmembers : ∀ x ∈ xs, ∀ y ∈ ys, ∀ z ∈ zs, less? x y = some true → less? y z = some true →
      less? x z = some true ∧ (x == z) = false)
    (hxy : lessItems? xs ys = some true) (hyz : lessItems? ys zs = some true) :
    lessItems? xs zs = some true := by
  induction xs generalizing ys zs with
  | nil =>
    cases zs with
    | nil => cases ys <;> cases hyz
    | cons z zs => rfl
  | cons x xs ih =>
    cases ys with
    | nil => cases hxy
    | cons y ys =>
      cases zs with
      | nil => cases hyz
      | cons z zs =>
        have htail (u : Value) (hu : u ∈ xs) (v : Value) (hv : v ∈ ys) (w : Value) (hw : w ∈ zs) :=
          hmembers u (List.mem_cons_of_mem x hu) v (List.mem_cons_of_mem y hv) w
            (List.mem_cons_of_mem z hw)
        rw [lessItems?] at hxy hyz ⊢
        by_cases hequal : (x == y) = true
        · rw [if_pos hequal] at hxy
          rw [BEq.congr_left hequal]
          split at hyz
          · rename_i hequal'
            rw [if_pos hequal']
            exact ih htail hxy hyz
          · rename_i hdiffer
            rwa [if_neg hdiffer, less?_congr hequal BEq.rfl]
        · rw [if_neg hequal] at hxy
          split at hyz
          · rename_i hequal'
            rw [BEq.congr_right (BEq.symm hequal'), if_neg hequal,
              less?_congr BEq.rfl (BEq.symm hequal')]
            exact hxy
          · obtain ⟨hxz, hne⟩ := hmembers x List.mem_cons_self y List.mem_cons_self z
              List.mem_cons_self hxy hyz
            rwa [hne, if_neg Bool.false_ne_true]

/-- What is less than something less than a value is comparable with the value, and less. -/
theorem less?_trans (hx : x.Representable) (hy : y.Representable) (hz : z.Representable)
    (hxy : less? x y = some true) (hyz : less? y z = some true) : less? x z = some true := by
  induction x using memberInduction generalizing y z with
  | step x ih =>
    have hitem (u : Value) (hu : u ∈ x.members) (v : Value) (hv : v ∈ y.members) (w : Value)
        (hw : w ∈ z.members) (huv : less? u v = some true) (hvw : less? v w = some true) :
        less? u w = some true ∧ (u == w) = false := by
      have hless := ih u hu (hx.of_mem_members hu) (hy.of_mem_members hv) (hz.of_mem_members hw)
        huv hvw
      exact ⟨hless, beq_eq_false_of_less? (hx.of_mem_members hu) (hz.of_mem_members hw) hless⟩
    generalize hb : true = b at hxy
    generalize hc : true = c at hyz
    cases less?_eq_some_iff.mp hxy with
    | number ha hb' =>
      cases less?_eq_some_iff.mp hyz with
      | number hb'' hd =>
        obtain rfl := Option.some.inj (hb'.symm.trans hb'')
        obtain ⟨⟨hna, -⟩, hlt⟩ := Double.lt_eq_true_iff.mp hb.symm
        obtain ⟨⟨-, hnd⟩, hlt'⟩ := Double.lt_eq_true_iff.mp hc.symm
        rw [← hb, less?_eq_some_iff.mpr (.number ha hd),
          Double.lt_eq_true_iff.mpr ⟨⟨hna, hnd⟩, hlt.trans hlt'⟩]
      | text | tuple | list => cases hb'
    | text s t =>
      cases less?_eq_some_iff.mp hyz with
      | number hb'' => cases hb''
      | text _ u =>
        have hlt := (of_decide_eq_true hb.symm).trans (of_decide_eq_true hc.symm)
        rw [← hb, less?, decide_eq_true hlt]
    | tuple hitems =>
      cases less?_eq_some_iff.mp hyz with
      | number hb'' => cases hb''
      | tuple hitems' =>
        subst hb hc
        exact lessItems?_trans hitem hitems hitems'
    | list hitems =>
      cases less?_eq_some_iff.mp hyz with
      | number hb'' => cases hb''
      | list hitems' =>
        subst hb hc
        exact lessItems?_trans hitem hitems hitems'

/-- What is not less than something that is not less than a value is not less than the value. -/
theorem less?_eq_false_trans (hx : x.Representable) (hy : y.Representable) (hz : z.Representable)
    (hxy : less? y x = some false) (hyz : less? z y = some false) : less? z x = some false := by
  have hyx : (y == x) = true ∨ less? x y = some true := turned_less? hy hx false hxy
  have hzy : (z == y) = true ∨ less? y z = some true := turned_less? hz hy false hyz
  rcases hyx with hequal | hless
  · rwa [less?_congr BEq.rfl (BEq.symm hequal)]
  · rcases hzy with hequal | hless'
    · rwa [less?_congr hequal BEq.rfl]
    · exact turned_less? hx hz true (less?_trans hx hy hz hless hless')

end Value

end Determinize
