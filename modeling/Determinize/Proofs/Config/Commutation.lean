import Determinize.Proofs.Config.Agreement
import Mathlib.Data.List.Infix

/-!
# Independent overrides commute

A sequence of segments covers another one if it is a start of it, where segments of digits with the
same number count as the same segment. If the segments of a key do not cover those of another one,
then the position that they lead to is never on the way of the other one, nor at its end, whatever
the data are: the same digits can be a key in one place and an index in another, but only the same
segment names the same place. So overrides of which none covers another one succeed or fail
independently of each other, and in any order they make the same data, up to the order of the
fields that they add.

## Main definitions

* `SameSegment`, `Covers`, `Independent`.

## Main results

* `covers_of_isPrefix` — positions one inside the other have keys that cover each other.
* `exists_swap` — two independent overrides.
* `applyOverrides?_perm`.
-/

namespace Determinize

/-- Segments count as the same if they are, or if they are digits of the same number. -/
def SameSegment (s t : String) : Prop :=
  s = t ∨ (decimalNumber? s).isSome = true ∧ decimalNumber? s = decimalNumber? t

instance (s t : String) : Decidable (SameSegment s t) := inferInstanceAs (Decidable (_ ∨ _))

/-- Segments are, or count as, a start of others, or all of them. -/
def Covers (keys keys' : List String) : Prop :=
  List.Forall₂ SameSegment keys (keys'.take keys.length)

instance (keys keys' : List String) : Decidable (Covers keys keys') :=
  inferInstanceAs (Decidable (List.Forall₂ _ _ _))

/-- The segments of neither key cover those of the other. -/
def Independent (o o' : String × Value) : Prop :=
  ¬ Covers (segments o.1) (segments o'.1) ∧ ¬ Covers (segments o'.1) (segments o.1)

instance (o o' : String × Value) : Decidable (Independent o o') :=
  inferInstanceAs (Decidable (_ ∧ _))

theorem Independent.symm {o o' : String × Value} (h : Independent o o') : Independent o' o :=
  ⟨h.2, h.1⟩

/-! ### Positions and the keys that lead there -/

variable {x y v m : Value} {p : Place} {ps qs : List Place} {keys keys' : List String}

/-- Segments that name the same place count as the same. -/
theorem Place.IsNamed.sameSegment {s t : String} (hs : p.IsNamed s) (ht : p.IsNamed t) :
    SameSegment s t := by
  cases p with
  | field => exact .inl (hs.symm.trans ht)
  | item i => exact .inr ⟨Option.isSome_of_eq_some hs, hs.trans ht.symm⟩

theorem forall₂_sameSegment
    (h : List.Forall₂ (fun key p => Place.IsSelected key p) keys ps)
    (h' : List.Forall₂ (fun key p => Place.IsSelected key p) keys' ps) :
    List.Forall₂ SameSegment keys keys' := by
  induction h generalizing keys' with
  | nil =>
    rw [List.forall₂_nil_right_iff.mp h']
    exact .nil
  | cons hkey _ ih =>
    cases h' with
    | cons hkey' hrest' => exact .cons (hkey.isNamed.sameSegment hkey'.isNamed) (ih hrest')

/-- Segments that lead to a position on the way of others, or to its end, cover them. -/
theorem covers_of_isPrefix (h : List.Forall₂ (fun key p => Place.IsSelected key p) keys ps)
    (h' : List.Forall₂ (fun key p => Place.IsSelected key p) keys' qs) (hpq : ps <+: qs) :
    Covers keys keys' := by
  obtain ⟨rs, rfl⟩ := hpq
  rw [Covers, h.length_eq]
  exact forall₂_sameSegment h (List.forall₂_take_append _ _ _ h')

/-! ### Two overrides -/

/-- Writes at positions apart make the same data in both orders. -/
theorem Value.sameData_writeAt_comm (hp : x.Room ps) (hq : x.Room qs) (hpq : ¬ ps <+: qs)
    (hqp : ¬ qs <+: ps) (v w : Value) (hp' : (x.writeAt qs w).Room ps)
    (hq' : (x.writeAt ps v).Room qs) :
    ((x.writeAt ps v).writeAt qs w).SameData ((x.writeAt qs w).writeAt ps v) := by
  intro rs
  by_cases hps : ps <+: rs
  · have hqs : ¬ qs <+: rs := fun hqs =>
      (List.prefix_or_prefix_of_prefix hps hqs).elim hpq hqp
    rw [outline?_writeAt_of_not_isPrefix hq' hqs]
    obtain ⟨rest, rfl⟩ := hps
    rw [outline?_writeAt_append hp, outline?_writeAt_append hp']
  · rw [outline?_writeAt_of_not_isPrefix hp' hps]
    by_cases hqs : qs <+: rs
    · obtain ⟨rest, rfl⟩ := hqs
      rw [outline?_writeAt_append hq', outline?_writeAt_append hq]
    · rw [outline?_writeAt_of_not_isPrefix hq' hqs, outline?_writeAt_of_not_isPrefix hp hps,
        outline?_writeAt_of_not_isPrefix hq hqs]

/-- Two independent overrides that succeed do so in the other order, with the same data. -/
theorem exists_swap {o o' : String × Value} (h : Independent o o')
    (hy : applyOverride? x o = .ok y) (hm : applyOverride? y o' = .ok m) :
    ∃ y' m', applyOverride? x o' = .ok y' ∧ applyOverride? y' o = .ok m' ∧ m.SameData m' := by
  obtain ⟨ps, hps, rfl⟩ := applyOverride?_eq_ok_iff.mp hy
  obtain ⟨qs, hqs, rfl⟩ := applyOverride?_eq_ok_iff.mp hm
  have hpq : ¬ ps <+: qs := fun hpq => h.1 (covers_of_isPrefix hps.selected hqs.selected hpq)
  have hqp : ¬ qs <+: ps := fun hqp => h.2 (covers_of_isPrefix hqs.selected hps.selected hqp)
  have hqs' := (Value.leads_writeAt_iff hps.room hpq o.2).mp hqs
  have hps' := (Value.leads_writeAt_iff hqs'.room hqp o'.2).mpr hps
  exact ⟨_, _, applyOverride?_eq_ok_iff.mpr ⟨qs, hqs', rfl⟩,
    applyOverride?_eq_ok_iff.mpr ⟨ps, hps', rfl⟩,
    Value.sameData_writeAt_comm hps.room hqs'.room hpq hqp _ _ hps'.room hqs.room⟩

/-! ### Any order -/

/-- Independent overrides that succeed do so in any order, with the same data. -/
theorem exists_applyOverrides?_perm {os os' : List (String × Value)}
    (hind : os.Pairwise Independent) (hperm : os.Perm os') (hm : applyOverrides? x os = .ok m) :
    ∃ m', applyOverrides? x os' = .ok m' ∧ m.SameData m' := by
  induction hperm generalizing x m with
  | nil => exact ⟨m, hm, .refl m⟩
  | cons o _ ih =>
    obtain ⟨y, hy, hrest⟩ := applyOverrides?_cons_eq_ok_iff.mp hm
    obtain ⟨m', hm', hsame⟩ := ih (List.pairwise_cons.mp hind).2 hrest
    exact ⟨m', applyOverrides?_cons_eq_ok_iff.mpr ⟨y, hy, hm'⟩, hsame⟩
  | swap o o' os =>
    obtain ⟨y, hy, hm⟩ := applyOverrides?_cons_eq_ok_iff.mp hm
    obtain ⟨z, hz, hm⟩ := applyOverrides?_cons_eq_ok_iff.mp hm
    have hfirst := (List.pairwise_cons.mp hind).1 o List.mem_cons_self
    obtain ⟨y', z', hy', hz', hsame⟩ := exists_swap hfirst hy hz
    obtain ⟨m', hm', hsame'⟩ := hsame.exists_applyOverrides? hm
    refine ⟨m', applyOverrides?_cons_eq_ok_iff.mpr ⟨y', hy', ?_⟩, hsame'⟩
    exact applyOverrides?_cons_eq_ok_iff.mpr ⟨z', hz', hm'⟩
  | trans hperm₁ _ ih₁ ih₂ =>
    obtain ⟨m', hm', hsame⟩ := ih₁ hind hm
    obtain ⟨m'', hm'', hsame'⟩ := ih₂ (hperm₁.pairwise hind fun h => h.symm) hm'
    exact ⟨m'', hm'', hsame.trans hsame'⟩

/-- In any order, independent overrides make the same data or are all refused. -/
theorem applyOverrides?_perm (x : Value) {os os' : List (String × Value)}
    (hind : os.Pairwise Independent) (hperm : os.Perm os') :
    (∃ m m', applyOverrides? x os = .ok m ∧ applyOverrides? x os' = .ok m' ∧ m.SameData m') ∨
      ∃ e e', applyOverrides? x os = .error e ∧ applyOverrides? x os' = .error e' := by
  cases hos : applyOverrides? x os with
  | ok m =>
    obtain ⟨m', hm', hsame⟩ := exists_applyOverrides?_perm hind hperm hos
    exact .inl ⟨m, m', rfl, hm', hsame⟩
  | error e =>
    refine .inr ⟨e, ?_⟩
    cases hos' : applyOverrides? x os' with
    | error e' => exact ⟨e', rfl, rfl⟩
    | ok m' =>
      obtain ⟨m, hm, -⟩ := exists_applyOverrides?_perm
        (hperm.pairwise hind fun h => h.symm) hperm.symm hos'
      rw [hos] at hm
      cases hm

/-- The digits of an index can be those of any script, and a field can be new. -/
theorem applyOverrides?_perm_rewritten :
    applyOverrides? (.object [("a", .list [.int 1, .int 2]), ("b", .object [])])
        [("b.0", .int 3), ("a.٠", .int 4), ("b.a", .int 5)] =
      .ok (.object [("a", .list [.int 4, .int 2]), ("b", .object [("0", .int 3), ("a", .int 5)])]) ∧
    applyOverrides? (.object [("a", .list [.int 1, .int 2]), ("b", .object [])])
        [("b.a", .int 5), ("b.0", .int 3), ("a.٠", .int 4)] =
      .ok (.object [("a", .list [.int 4, .int 2]), ("b", .object [("a", .int 5), ("0", .int 3)])]) ∧
    (Value.object [("a", .list [.int 4, .int 2]),
        ("b", .object [("0", .int 3), ("a", .int 5)])]).SameData
      (.object [("a", .list [.int 4, .int 2]), ("b", .object [("a", .int 5), ("0", .int 3)])]) := by
  have hind : List.Pairwise Independent
      [("b.0", .int 3), ("a.٠", .int 4), ("b.a", .int 5)] := by decide
  have hperm : List.Perm [("b.0", Value.int 3), ("a.٠", .int 4), ("b.a", .int 5)]
      [("b.a", .int 5), ("b.0", .int 3), ("a.٠", .int 4)] := by decide
  have h := applyOverrides?_perm (.object [("a", .list [.int 1, .int 2]), ("b", .object [])])
    hind hperm
  refine ⟨rfl, rfl, ?_⟩
  rcases h with ⟨m, m', hm, hm', hsame⟩ | ⟨e, -, he, -⟩
  · obtain rfl := Except.ok.inj hm
    obtain rfl := Except.ok.inj hm'
    exact hsame
  · cases he

end Determinize
