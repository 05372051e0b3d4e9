import Determinize.Proofs.Config.Commutation
import Determinize.Proofs.Config.Document

/-!
# Overrides a second time

Overrides of which no later one covers an earlier one change nothing when they are applied again.
The first override then puts back what it wrote in the first run, and with it whatever was there.
The others follow, and everything that they do inside of that place they do as in the first run,
since they find there what they found there; elsewhere they change nothing, since nothing has
changed.

A key comes after all its beginnings in the order of the keys. So overrides in ascending order are
of this kind, as long as the numbers in their keys are written in one way only. This is the order in
which an evaluator delivers them. If it reads JSON as well, data that are saved as JSON and loaded with
them again are unchanged.

## Main definitions

* `IsPlainSegment` — digits as a number has them.

## Main results

* `Value.leads_append_iff` — segments that lead on from a position.
* `exists_applyOverrides?_writeAt` — two runs that agree at one position.
* `applyOverrides?_self` — overrides a second time.
* `le_of_covers` — a key that covers another one is not after it.
* `applyOverrides?_idempotent`.
-/

namespace Determinize

variable {x y z v w m n : Value} {ps qs : List Place} {keys keys' : List String}

/-! ### Segments that lead on -/

/-- Segments that lead to a position and on lead there from what is at the position. -/
theorem Value.leads_append_iff (hx : x.read? ps = some v)
    (hps : List.Forall₂ (fun key p => Place.IsSelected key p) keys ps) (hne : keys' ≠ []) :
    x.LeadsTo (keys ++ keys') qs ↔ ∃ rs, qs = ps ++ rs ∧ v.LeadsTo keys' rs := by
  induction hps generalizing x qs with
  | nil =>
    obtain rfl := Option.some.inj hx
    simp
  | @cons key p keys ps hkey _ ih =>
    obtain ⟨y, hy, hrest⟩ := Value.read?_cons_eq_some_iff.mp hx
    rw [List.cons_append, Value.leads_cons_iff (by simp [hne])]
    constructor
    · rintro ⟨q, u, rest, rfl, hqkey, hu, hleads⟩
      obtain rfl := (Value.admits_of_at? hy).eq_of_isSelected (Value.admits_of_at? hu) hkey hqkey
      obtain rfl := Option.some.inj (hy.symm.trans hu)
      obtain ⟨rs, rfl, hrs⟩ := (ih hrest).mp hleads
      exact ⟨rs, rfl, hrs⟩
    · rintro ⟨rs, rfl, hrs⟩
      exact ⟨p, y, ps ++ rs, rfl, hkey, hy, (ih hrest).mpr ⟨rs, rfl, hrs⟩⟩

/-! ### Two runs -/

/-- Segments that lead to a position or on from it begin with segments that select its places. -/
theorem exists_forall₂_of_isPrefix
    (hqs : List.Forall₂ (fun key p => Place.IsSelected key p) keys qs) (hpq : ps <+: qs) :
    ∃ rest rest', keys = rest ++ rest' ∧
      List.Forall₂ (fun key p => Place.IsSelected key p) rest ps := by
  obtain ⟨rs, rfl⟩ := hpq
  exact ⟨_, _, (List.take_append_drop ps.length keys).symm, List.forall₂_take_append _ _ _ hqs⟩

/-- An override inside of a position makes the same of the same value there, whatever else the data
are. -/
theorem exists_applyOverride?_inside {o : String × Value} {rest rest' : List String}
    (hrest : List.Forall₂ (fun key p => Place.IsSelected key p) rest ps) (hne : ps ≠ [])
    (hsegments : segments o.1 = rest ++ rest') (hne' : rest' ≠ []) (hx : x.read? ps = some v)
    (hz : z.read? ps = some w) (hm : applyOverride? x o = .ok m) (hn : applyOverride? z o = .ok n) :
    ∃ v' w', m.read? ps = some v' ∧ n.read? ps = some w' ∧
      applyOverride? (z.writeAt ps v) o = .ok (n.writeAt ps v') := by
  simp only [applyOverride?_eq_ok_iff, hsegments] at hm hn ⊢
  obtain ⟨qs, hqs, rfl⟩ := hm
  obtain ⟨qs', hqs', rfl⟩ := hn
  obtain ⟨rs, rfl, hrs⟩ := (Value.leads_append_iff hx hrest hne').mp hqs
  obtain ⟨rs', rfl, -⟩ := (Value.leads_append_iff hz hrest hne').mp hqs'
  have hxroom := Value.room_of_read? hne hx
  have hzroom := Value.room_of_read? hne hz
  have hread : (z.writeAt ps v).read? ps = some v := Value.read?_writeAt hzroom v
  rw [Value.writeAt_append hx, Value.writeAt_append hz]
  refine ⟨_, _, Value.read?_writeAt hxroom _, Value.read?_writeAt hzroom _, ps ++ rs,
    (Value.leads_append_iff hread hrest hne').mpr ⟨rs, rfl, hrs⟩, ?_⟩
  rw [Value.writeAt_append hread, Value.writeAt_writeAt hzroom, Value.writeAt_writeAt hzroom]

/-- A second run that has at a position what the first one has there keeps up with it there, and
elsewhere it goes on as before. -/
theorem exists_applyOverride?_writeAt {o : String × Value}
    (hps : List.Forall₂ (fun key p => Place.IsSelected key p) keys ps) (hne : ps ≠ [])
    (hcovers : ¬ Covers (segments o.1) keys) (hx : x.read? ps = some v)
    (hz : z.read? ps = some w) (hm : applyOverride? x o = .ok m) (hn : applyOverride? z o = .ok n) :
    ∃ v' w', m.read? ps = some v' ∧ n.read? ps = some w' ∧
      applyOverride? (z.writeAt ps v) o = .ok (n.writeAt ps v') := by
  by_cases hinside : ∃ rest rest', segments o.1 = rest ++ rest' ∧
      List.Forall₂ (fun key p => Place.IsSelected key p) rest ps
  · obtain ⟨rest, rest', hsegments, hrest⟩ := hinside
    refine exists_applyOverride?_inside hrest hne hsegments ?_ hx hz hm hn
    rintro rfl
    rw [hsegments, List.append_nil] at hcovers
    exact hcovers (covers_of_isPrefix hrest hps (List.prefix_refl ps))
  · obtain ⟨qs, hqs, rfl⟩ := applyOverride?_eq_ok_iff.mp hm
    obtain ⟨qs', hqs', rfl⟩ := applyOverride?_eq_ok_iff.mp hn
    have hpq : ¬ ps <+: qs := fun h => hinside (exists_forall₂_of_isPrefix hqs.selected h)
    have hpq' : ¬ ps <+: qs' := fun h => hinside (exists_forall₂_of_isPrefix hqs'.selected h)
    have hqp : ¬ qs <+: ps := fun h => hcovers (covers_of_isPrefix hqs.selected hps h)
    have hqp' : ¬ qs' <+: ps := fun h => hcovers (covers_of_isPrefix hqs'.selected hps h)
    rw [Value.read?_writeAt_of_apart hqs.room hqp hpq, hx,
      Value.read?_writeAt_of_apart hqs'.room hqp' hpq', hz]
    refine ⟨v, w, rfl, rfl, applyOverride?_eq_ok_iff.mpr ⟨qs', ?_, ?_⟩⟩
    · exact (Value.leads_writeAt_iff (Value.room_of_read? hne hz) hpq' v).mpr hqs'
    · exact (Value.writeAt_comm hz hqs'.room hpq' hqp' _ _).symm

/-- The same for overrides in turn. -/
theorem exists_applyOverrides?_writeAt {os : List (String × Value)}
    (hps : List.Forall₂ (fun key p => Place.IsSelected key p) keys ps) (hne : ps ≠ [])
    (hcovers : ∀ o ∈ os, ¬ Covers (segments o.1) keys) (hx : x.read? ps = some v)
    (hz : z.read? ps = some w) (hm : applyOverrides? x os = .ok m)
    (hn : applyOverrides? z os = .ok n) :
    ∃ v', m.read? ps = some v' ∧ applyOverrides? (z.writeAt ps v) os = .ok (n.writeAt ps v') := by
  induction os generalizing x z v w with
  | nil =>
    obtain rfl := Except.ok.inj hm
    obtain rfl := Except.ok.inj hn
    exact ⟨v, hx, rfl⟩
  | cons o os ih =>
    obtain ⟨x', hx', hm⟩ := applyOverrides?_cons_eq_ok_iff.mp hm
    obtain ⟨z', hz', hn⟩ := applyOverrides?_cons_eq_ok_iff.mp hn
    rw [List.forall_mem_cons] at hcovers
    obtain ⟨v', w', hv', hw', happly⟩ :=
      exists_applyOverride?_writeAt hps hne hcovers.1 hx hz hx' hz'
    obtain ⟨v'', hv'', hrest⟩ := ih hcovers.2 hv' hw' hm hn
    exact ⟨v'', hv'', applyOverrides?_cons_eq_ok_iff.mpr ⟨_, happly, hrest⟩⟩

/-! ### The same run again -/

/-- Overrides of which no later one covers an earlier one change nothing the second time. -/
theorem applyOverrides?_self {os : List (String × Value)}
    (hcovers : os.Pairwise fun o o' => ¬ Covers (segments o'.1) (segments o.1))
    (hm : applyOverrides? x os = .ok m) : applyOverrides? m os = .ok m := by
  induction os generalizing x with
  | nil => rfl
  | cons o os ih =>
    obtain ⟨hfirst, hcovers⟩ := List.pairwise_cons.mp hcovers
    obtain ⟨y, hy, hm⟩ := applyOverrides?_cons_eq_ok_iff.mp hm
    obtain ⟨ps, hps, rfl⟩ := applyOverride?_eq_ok_iff.mp hy
    have hne := hps.room.ne_nil
    have hread : (x.writeAt ps o.2).read? ps = some o.2 := Value.read?_writeAt hps.room o.2
    have hself := ih hcovers hm
    obtain ⟨v, hv, -⟩ := exists_applyOverrides?_writeAt hps.selected hne hfirst hread hread hm hm
    obtain ⟨v', hv', hagain⟩ :=
      exists_applyOverrides?_writeAt hps.selected hne hfirst hread hv hm hself
    rw [Value.writeAt_eq_self hv'] at hagain
    refine applyOverrides?_cons_eq_ok_iff.mpr ⟨m.writeAt ps o.2, ?_, hagain⟩
    exact applyOverride?_eq_ok_iff.mpr ⟨ps, ⟨hps.selected, Value.room_of_read? hne hv⟩, rfl⟩

/-! ### Ascending order -/

/-- If a segment has decimal digits, they are those that the number has. -/
def IsPlainSegment (key : String) : Prop := ∀ i ∈ decimalNumber? key, key = toString i

instance : DecidablePred IsPlainSegment := fun key =>
  inferInstanceAs (Decidable (∀ i ∈ decimalNumber? key, key = toString i))

theorem SameSegment.eq {s t : String} (h : SameSegment s t) (hs : IsPlainSegment s)
    (ht : IsPlainSegment t) : s = t := by
  rcases h with rfl | ⟨hsome, hsame⟩
  · rfl
  · obtain ⟨i, hi⟩ := Option.isSome_iff_exists.mp hsome
    rw [hs i hi, ht i (hsame ▸ hi)]

/-- Plain segments that cover others are a start of them. -/
theorem Covers.isPrefix (h : Covers keys keys') (hkeys : ∀ key ∈ keys, IsPlainSegment key)
    (hkeys' : ∀ key ∈ keys', IsPlainSegment key) : keys <+: keys' := by
  have heq : List.Forall₂ Eq keys (keys'.take keys.length) := by
    refine (List.forall₂_iff_zip.mpr ⟨h.length_eq, fun {s t} hst => ?_⟩)
    have hmem := List.of_mem_zip hst
    exact ((List.forall₂_iff_zip.mp h).2 hst).eq (hkeys s hmem.1)
      (hkeys' t (List.mem_of_mem_take hmem.2))
  rw [List.forall₂_eq_eq_eq] at heq
  exact heq ▸ List.take_prefix _ _

theorem dotted_isPrefix (hne : keys ≠ []) (h : keys <+: keys') :
    (dotted keys).toList <+: (dotted keys').toList := by
  obtain ⟨rest, rfl⟩ := h
  by_cases hrest : rest = []
  · subst hrest
    rw [List.append_nil]
  · rw [dotted, dotted, String.intercalate_append_of_ne_nil hne hrest, String.toList_append,
      String.toList_append, List.append_assoc]
    exact List.prefix_append _ _

/-- A key whose segments cover those of another one is not after it. -/
theorem le_of_covers {key key' : String} (h : Covers (segments key) (segments key'))
    (hkey : ∀ s ∈ segments key, IsPlainSegment s) (hkey' : ∀ s ∈ segments key', IsPlainSegment s) :
    key ≤ key' := by
  have hstart := dotted_isPrefix (segments_ne_nil key) (h.isPrefix hkey hkey')
  rw [dotted_segments, dotted_segments] at hstart
  exact not_lt.mp fun hlt => hstart.le (String.lt_iff_toList_lt.mp hlt)

/-- Overrides in ascending order change nothing the second time. -/
theorem applyOverrides?_self_of_pairwise_lt {os : List (String × Value)}
    (hplain : ∀ o ∈ os, ∀ key ∈ segments o.1, IsPlainSegment key)
    (hos : os.Pairwise fun o o' => o.1 < o'.1) (hm : applyOverrides? x os = .ok m) :
    applyOverrides? m os = .ok m := by
  refine applyOverrides?_self (hos.imp_of_mem fun {o o'} ho ho' hlt hcovers => ?_) hm
  exact not_lt.mpr (le_of_covers hcovers (hplain o' ho') (hplain o ho)) hlt

/-! ### Loading again -/

variable {evaluate : Evaluator} {externals : List (String × String)} {s overrides : String}
  {os : List (String × Value)}

/-- Data that are loaded with the same overrides again are unchanged, however they are written. -/
theorem Evaluator.DeliversData.exists_load?_of_sameData (hevaluate : evaluate.DeliversData)
    {s' : String} (hplain : ∀ o ∈ os, ∀ key ∈ segments o.1, IsPlainSegment key)
    (hos : parseOverrides? evaluate externals overrides = .ok os)
    (hm : load? evaluate externals s overrides = .ok m) (hy : evaluate externals s' = .ok y)
    (hsame : y.SameData m) :
    ∃ m', load? evaluate externals s' overrides = .ok m' ∧ m'.SameData m := by
  obtain ⟨x, os', -, hos', happly⟩ := load?_eq_ok_iff.mp hm
  obtain rfl := Except.ok.inj (hos.symm.trans hos')
  have hordered := hevaluate.pairwise_lt_of_parseOverrides? hos
  have hself := applyOverrides?_self_of_pairwise_lt hplain hordered happly
  obtain ⟨m', hm', hsame'⟩ := hsame.symm.exists_applyOverrides? hself
  have hdata := readData?_of_isData (hevaluate _ _ _ hy) hy
  exact ⟨m', load?_eq_ok_iff.mpr ⟨y, os, hdata, hos, hm'⟩, hsame'.symm⟩

/-- Overrides in ascending order, in which an evaluator delivers them, change nothing the second time.
Data that are saved as JSON and loaded with the same overrides again are unchanged. -/
theorem applyOverrides?_idempotent {os : List (String × Value)}
    (hplain : ∀ o ∈ os, ∀ key ∈ segments o.1, IsPlainSegment key) :
    (os.Pairwise (fun o o' => o.1 < o'.1) →
      ∀ x m, applyOverrides? x os = .ok m → applyOverrides? m os = .ok m) ∧
    ∀ evaluate : Evaluator, evaluate.DeliversData → evaluate.ReadsJson →
      ∀ externals s overrides m, parseOverrides? evaluate externals overrides = .ok os →
        load? evaluate externals s overrides = .ok m →
          os.Pairwise (fun o o' => o.1 < o'.1) ∧
            ∃ m', load? evaluate externals (Json.render m) overrides = .ok m' ∧ m'.SameData m := by
  refine ⟨fun hos x m => applyOverrides?_self_of_pairwise_lt hplain hos,
    fun evaluate hdelivers hreads externals s overrides m hos hm =>
      ⟨hdelivers.pairwise_lt_of_parseOverrides? hos, ?_⟩⟩
  obtain ⟨y, hy, hsame⟩ := hreads externals m (hdelivers.isLoaded_of_load? hm)
  exact hdelivers.exists_load?_of_sameData hplain hos hm hy hsame

/-- Overrides of which the second one writes inside of what the first one wrote. -/
theorem applyOverrides?_idempotent_nested :
    load? evaluateText? [] "\x7ba: 'x'\x7d" "\x7b'a.b': true, a: \x7bb: null\x7d\x7d" =
      .ok (.object [("a", .object [("b", .bool true)])]) ∧
    applyOverrides? (.object [("a", .object [("b", .bool true)])])
        [("a", .object [("b", .null)]), ("a.b", .bool true)] =
      .ok (.object [("a", .object [("b", .bool true)])]) ∧
    ∃ m', load? evaluateText? [] (Json.render (.object [("a", .object [("b", .bool true)])]))
        "\x7b'a.b': true, a: \x7bb: null\x7d\x7d" = .ok m' ∧
      m'.SameData (.object [("a", .object [("b", .bool true)])]) := by
  have hx : evaluateText? [] "\x7ba: 'x'\x7d" = .ok (.object [("a", .text "x")]) := by
    have hread : Document.ofString? "\x7ba: 'x'\x7d" = some (.object [("a", .text "x")]) := rfl
    have hvalue : (Document.object [("a", .text "x")]).evaluate? [] =
        .ok (.object [("a", .text "x")]) := by
      simp only [Document.evaluate?, Document.evaluateIn?, Document.evaluateFields?]
      rfl
    rw [evaluateText?, hread]
    simp only [hvalue]
    rfl
  have hos : parseOverrides? evaluateText? [] "\x7b'a.b': true, a: \x7bb: null\x7d\x7d" =
      .ok [("a", .object [("b", .null)]), ("a.b", .bool true)] := by
    have hread : Document.ofString? "\x7b'a.b': true, a: \x7bb: null\x7d\x7d" =
        some (.object [("a.b", .bool true), ("a", .object [("b", .null)])]) := rfl
    have hvalue :
        (Document.object [("a.b", .bool true), ("a", .object [("b", .null)])]).evaluate? [] =
          .ok (.object [("a", .object [("b", .null)]), ("a.b", .bool true)]) := by
      simp only [Document.evaluate?, Document.evaluateIn?, Document.evaluateFields?]
      rfl
    refine parseOverrides?_of_readData? (by decide) (readData?_eq_ok_iff.mpr ⟨?_, rfl⟩)
    rw [evaluateText?, hread]
    simp only [hvalue]
    rfl
  have hm : applyOverrides? (.object [("a", .text "x")])
      [("a", .object [("b", .null)]), ("a.b", .bool true)] =
        .ok (.object [("a", .object [("b", .bool true)])]) := rfl
  have hload := load?_eq_ok_iff.mpr ⟨_, _, readData?_eq_ok_iff.mpr ⟨hx, rfl⟩, hos, hm⟩
  have hplain : ∀ o ∈ [("a", Value.object [("b", .null)]), ("a.b", .bool true)],
      ∀ key ∈ segments o.1, IsPlainSegment key := by decide
  obtain ⟨hself, hagain⟩ := applyOverrides?_idempotent hplain
  exact ⟨hload, hself (by decide) _ _ hm,
    (hagain _ deliversData_evaluateText? readsJson_evaluateText? _ _ _ _ hos hload).2⟩

end Determinize
