import Determinize.Dfa.Render
import Determinize.Proofs.Collection.Related
import Determinize.Proofs.Dfa.Equality
import Determinize.Proofs.Value.Writable

/-!
# What is shown of a deterministic automaton

Sets are shown sorted, so sets with the same members in another order are shown alike. The text and
the data of an automaton are made from its states, its alphabet and its transitions in their order,
and from what is shown of sets. So they do not depend on the order of the members of states.

The data of an automaton are those without a limit on digits, unless values have to be sorted by their
texts of which one cannot be written. So is what the text shows of a state or of a transition, unless
it cannot be written.

## Main definitions

* `Value.Legible` — values that are told apart by their texts.
* `ValueSet.Same` — the same members, spelled alike, in any order.
* `Dfa.Same` — the same automaton, the members of its states in any order.
* `Dfa.writable` — the states and the symbols can be written.
* `Dfa.recordable`, `Dfa.listable` — what the records and the data show can be sorted.

## Main results

* `ValueSet.same_of_beq` — equal sets of legible values.
* `ValueSet.Same.sorted_eq`, `ValueSet.Same.render_eq` — sets are shown alike.
* `Dfa.header?_eq`, `Dfa.transitionLine?_eq`, `Dfa.records?_eq`, `Dfa.toValue?_eq` — what is shown if
  there is a limit.
* `Dfa.Same.render?_eq`, `Dfa.Same.toValue?_eq` — automata are shown alike.
-/

namespace Determinize

/-! ### Sets -/

/-- Among the values with a property, equal ones are spelled alike, and their texts can be read. -/
structure Value.Legible (P : Value → Prop) : Prop where
  spelled {x y : Value} (hx : P x) (hy : P y) (h : (x == y) = true) : x = y
  representable {x : Value} (hx : P x) : x.Representable

namespace ValueSet

/-- Two sets have the same members, spelled alike, in any order, and the members can be told apart
by their texts. -/
structure Same (S T : ValueSet) : Prop where
  perm : S.toList.Perm T.toList
  representable : ∀ x ∈ S.toList, x.Representable

variable {S T : ValueSet} {x y : Value}

/-- Equal sets have the same members if their members are legible. -/
theorem same_of_beq {P : Value → Prop} (hP : Value.Legible P) (hS : ∀ x ∈ S.toList, P x)
    (hT : ∀ x ∈ T.toList, P x) (h : (S == T) = true) : S.Same T :=
  ⟨OrderedSet.perm_of_beq h fun x hx y hy => hP.spelled (hS x hx) (hT y hy),
    fun x hx => hP.representable (hS x hx)⟩

namespace Same

variable (h : S.Same T)

include h

theorem beq : (S == T) = true := by
  refine OrderedSet.beq_iff.mpr fun x => ?_
  rw [OrderedSet.contains, OrderedSet.contains, h.perm.any_eq]

theorem sorted_eq : S.sorted = T.sorted :=
  sortSymbols_perm h.perm (fun _ hx _ hy => OrderedSet.eq_of_beq_of_mem hx hy) h.representable

theorem render_eq : S.render = T.render := by
  rw [render, render, h.sorted_eq]

theorem sortable_eq [DigitLimit] : sortable S.toList = sortable T.toList := by
  have hvalues : insertionSort? Value.less? S.toList = insertionSort? Value.less? T.toList :=
    Value.consistent_less?.insertionSort?_perm h.perm h.representable
      fun x hx y hy hxy hyx => OrderedSet.eq_of_beq_of_mem hx hy (Value.beq_of_less?_eq_false
        (h.representable x hx) (h.representable y hy) hxy hyx)
  rw [sortable, sortable, hvalues, h.perm.all_eq]

end Same

theorem respectsBEq_same : RespectsBEq Same := fun _ _ _ _ h h' =>
  (BEq.congr_left h.beq).trans (BEq.congr_right h'.beq)

theorem mem_sorted {x : Value} : x ∈ S.sorted ↔ x ∈ S.toList :=
  (perm_sortSymbols S.toList).mem_iff

end ValueSet

/-! ### Automata -/

namespace Dfa

/-- Two rows accept alike and have the same symbols in the same order, leading to the same sets. -/
structure Row.Same (r s : Row) : Prop where
  accepting : r.accepting = s.accepting
  targets : List.Forall₂ (fun e f => e.1 = f.1 ∧ e.2.Same f.2) r.targets.entries s.targets.entries

/-- Two automata have the same states in the same order with the same rows, the members of states in
any order. -/
structure Same (d e : Dfa) : Prop where
  start : d.start.Same e.start
  alphabet : d.alphabet = e.alphabet
  rows : List.Forall₂ (fun x y => x.1.Same y.1 ∧ x.2.Same y.2) d.rows.entries e.rows.entries

variable {d e : Dfa} {S T : ValueSet} {a : Value} {r s : Row}

theorem Row.Same.rel_find? (h : r.Same s) (a : Value) :
    Option.Rel ValueSet.Same (r.targets.find? a) (s.targets.find? a) :=
  OrderedMap.rel_find? (R := Eq) (fun _ _ _ _ h h' => by rw [h, h']) h.targets rfl

theorem Row.Same.keys_eq (h : r.Same s) : r.targets.keys.toList = s.targets.keys.toList :=
  map_eq_map_of_forall₂ h.targets fun _ _ he => he.1

/-! ### What can be written -/

section Limit

variable [DigitLimit]

/-- The header of a state is that without a limit, if the state can be written. -/
theorem header?_eq (d : Dfa) (S : ValueSet) (accepting : Bool) : d.header? S accepting =
    if S.writable then .ok (d.header S accepting) else .error .tooManyDigits := by
  rw [header?, ValueSet.render?_eq]
  cases S.writable <;> rfl

/-- The line of a transition is that without a limit, if the symbol and the target can be written. -/
theorem transitionLine?_eq (d : Dfa) (S : ValueSet) (a : Value) : d.transitionLine? S a =
    if a.writable then (d.step? S a).bind fun T =>
      if T.writable then .ok (transitionLine a T) else .error .tooManyDigits
    else .error .tooManyDigits := by
  rw [transitionLine?, Value.display?]
  cases a.writable with
  | false => rfl
  | true =>
    refine congrArg (d.step? S a).bind (funext fun T => ?_)
    rw [ValueSet.render?_eq]
    cases T.writable <;> rfl

/-- Whether the states and the symbols can be written. -/
def writable (d : Dfa) : Bool :=
  d.states.toList.all ValueSet.writable && d.alphabet.toList.all Value.writable

/-- Whether the symbols of every state can be sorted. -/
def recordable (d : Dfa) : Bool :=
  d.rows.entries.all fun entry => sortable entry.2.targets.keys.toList

/-- Whether the start, the alphabet, the accepting states and the records can be listed. -/
def listable (d : Dfa) : Bool :=
  sortable d.start.toList && sortable d.alphabet.toList &&
    d.acceptStates.all (fun S => sortable S.toList) && d.recordable &&
    d.records.all fun r => sortable r.1.toList && sortable r.2.2.toList

/-- The records are those without a limit, if the symbols can be sorted. -/
theorem records?_eq (d : Dfa) :
    d.records? = if d.recordable then .ok d.records else .error .tooManyDigits := by
  rw [records?, mapM_eq_ite (p := fun entry => sortable entry.2.targets.keys.toList)
    (g := fun entry => entry.2.records entry.1 (sortSymbols entry.2.targets.keys.toList))
    (e := .tooManyDigits), recordable, records, List.flatMap_def]
  · split <;> rfl
  · rintro ⟨S, row⟩ -
    dsimp only
    rw [sortSymbols?_eq]
    split <;> rfl

theorem eq_records_of_records?_eq_ok {d : Dfa} {rs : List (ValueSet × Value × ValueSet)}
    (h : d.records? = .ok rs) : rs = d.records := by
  rw [records?_eq] at h
  split at h
  · exact (Except.ok.inj h).symm
  · cases h

theorem listed?_eq (S : ValueSet) :
    listed? S = if sortable S.toList then .ok (.list S.sorted) else .error .tooManyDigits := by
  rw [listed?, ValueSet.sorted?_eq]
  split <;> rfl

theorem recordValue?_eq (r : ValueSet × Value × ValueSet) : recordValue? r =
    if sortable r.1.toList && sortable r.2.2.toList then .ok (recordValue r)
    else .error .tooManyDigits := by
  obtain ⟨S, a, T⟩ := r
  rw [recordValue?, listed?_eq, listed?_eq]
  cases sortable S.toList <;> cases sortable T.toList <;> rfl

/-- The data are those without a limit, if everything can be listed. -/
theorem toValue?_eq (d : Dfa) :
    d.toValue? = if d.listable then .ok d.toValue else .error .tooManyDigits := by
  rw [toValue?, listed?_eq, listed?_eq, mapM_eq_ite fun S _ => listed?_eq S, records?_eq, listable]
  cases sortable d.start.toList with
  | false => rfl
  | true =>
    cases sortable d.alphabet.toList with
    | false => rfl
    | true =>
      cases d.acceptStates.all fun S => sortable S.toList with
      | false => rfl
      | true =>
        cases d.recordable with
        | false => rfl
        | true =>
          change (do let transitions ← d.records.mapM recordValue?; _) = _
          rw [mapM_eq_ite fun r _ => recordValue?_eq r]
          cases d.records.all fun r => sortable r.1.toList && sortable r.2.2.toList <;> rfl

theorem eq_toValue_of_toValue?_eq_ok {d : Dfa} {data : Value} (h : d.toValue? = .ok data) :
    data = d.toValue := by
  rw [toValue?_eq] at h
  split at h
  · exact (Except.ok.inj h).symm
  · cases h

end Limit

namespace Same

variable (h : d.Same e)

include h

theorem forall₂_states : List.Forall₂ ValueSet.Same d.states.toList e.states.toList :=
  List.forall₂_map_left_iff.mpr (List.forall₂_map_right_iff.mpr (h.rows.imp fun _ _ he => he.1))

theorem rel_find? (hS : S.Same T) : Option.Rel Row.Same (d.rows.find? S) (e.rows.find? T) :=
  OrderedMap.rel_find? ValueSet.respectsBEq_same h.rows hS

/-! ### The text -/

theorem header_eq (hS : S.Same T) (accepting : Bool) :
    d.header S accepting = e.header T accepting := by
  have hmarkers : d.markers S accepting = e.markers T accepting := by
    rw [markers, markers, ValueSet.respectsBEq_same hS h.start]
  exact congrArg₂ (fun members marks => "From state(s) " ++ members ++ marks ++ ":")
    hS.render_eq hmarkers

theorem exists_rows (hS : S.Same T) (hstate : d.hasState S = true) :
    ∃ r s, d.rows.find? S = some r ∧ e.rows.find? T = some s ∧ r.Same s := by
  obtain ⟨r, hr⟩ := exists_row_of_hasState hstate
  have hrel := h.rel_find? hS
  rw [hr] at hrel
  cases hs : e.rows.find? T with
  | none =>
    rw [hs] at hrel
    cases hrel
  | some s =>
    rw [hs, Option.rel_some_some] at hrel
    exact ⟨r, s, hr, rfl, hrel⟩

variable [DigitLimit]

/-- The line of a transition, or why there is none, is the same. -/
theorem transitionLine?_eq (hS : S.Same T) (hstate : d.hasState S = true)
    (ha : d.alphabet.contains a = true) : d.transitionLine? S a = e.transitionLine? T a := by
  obtain ⟨r, s, hr, hs, hrs⟩ := h.exists_rows hS hstate
  rw [Dfa.transitionLine?_eq, Dfa.transitionLine?_eq]
  by_cases hhash : a.Hashable
  · rw [step?_eq hr hhash, step?_eq hs hhash, ← h.alphabet, if_pos ha, if_pos ha]
    have htarget := hrs.rel_find? a
    generalize r.targets.find? a = target, s.targets.find? a = target' at htarget
    cases htarget with
    | none => rfl
    | @some U U' hU =>
      have hline : transitionLine a U = transitionLine a U' :=
        congrArg ("  --" ++ a.display ++ "--> " ++ ·) hU.render_eq
      have hwritten : (if U.writable then Except.ok (transitionLine a U)
          else .error AutomatonError.tooManyDigits) =
          if U'.writable then .ok (transitionLine a U') else .error .tooManyDigits := by
        rw [hline, ValueSet.writable_congr hU.beq]
      exact congrArg (fun line => if a.writable then line else .error .tooManyDigits) hwritten
  · obtain ⟨fault, hfault⟩ := exists_fault_of_not_hashable hhash
    rw [hfault d S hstate, hfault e T (hasState_of_find?_eq_some hs)]

theorem stateLines?_eq (hS : S.Same T) (hstate : d.hasState S = true) :
    d.stateLines? S = e.stateLines? T := by
  obtain ⟨r, s, hr, hs, hrs⟩ := h.exists_rows hS hstate
  have hlines (symbols : List Value) (hsymbols : ∀ a ∈ symbols, a ∈ d.alphabet.toList) :
      symbols.mapM (d.transitionLine? S) = symbols.mapM (e.transitionLine? T) :=
    mapM_congr fun a ha =>
      h.transitionLine?_eq hS hstate (OrderedSet.contains_of_mem (hsymbols a ha))
  have haccept : d.isAccepting? S = e.isAccepting? T := by
    simp only [isAccepting?, hr, hs, hrs.accepting]
  have hheader (accepting : Bool) : d.header? S accepting = e.header? T accepting := by
    rw [header?_eq, header?_eq, h.header_eq hS, ValueSet.writable_congr hS.beq]
  rw [stateLines?, stateLines?, haccept, ← h.alphabet, ValueSet.sorted?_eq]
  simp only [hheader]
  refine congrArg (_ >>= ·) (funext fun accepting => congrArg (_ >>= ·) (funext fun header => ?_))
  split
  · exact congrArg (fun lines => do return header :: (← lines))
      (hlines _ fun a ha => ValueSet.mem_sorted.mp ha)
  · rfl

/-- The texts of the automata are the same. -/
theorem render?_eq : d.render? = e.render? := by
  have hmem : ∀ S ∈ d.states.toList, d.hasState S = true := fun _ => hasState_of_mem
  have hblocks : d.states.toList.mapM d.stateLines? = e.states.toList.mapM e.stateLines? :=
    mapM_eq_mapM_of_forall₂ ((List.forall₂_and_left ..).mpr ⟨hmem, h.forall₂_states⟩)
      fun S T hS => h.stateLines?_eq hS.2 hS.1
  rw [render?, render?, hblocks]

/-! ### The data -/

omit [DigitLimit] in
theorem forall₂_records :
    List.Forall₂ (fun x y => x.1.Same y.1 ∧ x.2.1 = y.2.1 ∧ x.2.2.Same y.2.2) d.records
      e.records := by
  refine List.rel_flatMap h.rows fun x y hxy => ?_
  dsimp only
  rw [← hxy.2.keys_eq]
  refine List.rel_filterMap (fun a b hab => ?_) (List.forall₂_same.mpr fun a _ => rfl)
  subst hab
  have htarget := hxy.2.rel_find? a
  generalize x.2.targets.find? a = target, y.2.targets.find? a = target' at htarget
  cases htarget with
  | none => exact .none
  | some hU => exact .some ⟨hxy.1, rfl, hU⟩

omit [DigitLimit] in
theorem forall₂_acceptStates : List.Forall₂ ValueSet.Same d.acceptStates e.acceptStates :=
  List.forall₂_map_left_iff.mpr (List.forall₂_map_right_iff.mpr
    ((List.rel_filter (fun _ _ hxy => Bool.coe_iff_coe.mpr hxy.2.accepting) h.rows).imp
      fun _ _ hxy => hxy.1))

omit [DigitLimit] in
/-- Without a limit on digits, the data of the automata are the same. -/
theorem toValue_eq : d.toValue = e.toValue := by
  have hrecords : d.records.map recordValue = e.records.map recordValue :=
    map_eq_map_of_forall₂ h.forall₂_records fun x y hxy => by
      simp only [recordValue, hxy.1.sorted_eq, hxy.2.1, hxy.2.2.sorted_eq]
  have haccept : d.acceptStates.map (fun S => Value.list S.sorted) =
      e.acceptStates.map fun S => Value.list S.sorted :=
    map_eq_map_of_forall₂ h.forall₂_acceptStates fun S T hST => congrArg Value.list hST.sorted_eq
  rw [toValue, toValue, h.start.sorted_eq, h.alphabet, haccept, hrecords]

/-- The data of the automata are the same. -/
theorem toValue?_eq : d.toValue? = e.toValue? := by
  have hrows : d.recordable = e.recordable :=
    forall₂_all h.rows fun x y hxy => by rw [hxy.2.keys_eq]
  have haccept := forall₂_all h.forall₂_acceptStates fun S T hST => hST.sortable_eq
  have hrecords : d.records.all (fun r => sortable r.1.toList && sortable r.2.2.toList) =
      e.records.all fun r => sortable r.1.toList && sortable r.2.2.toList :=
    forall₂_all h.forall₂_records fun x y hxy => by rw [hxy.1.sortable_eq, hxy.2.2.sortable_eq]
  rw [Dfa.toValue?_eq, Dfa.toValue?_eq, h.toValue_eq, listable, listable, h.start.sortable_eq,
    h.alphabet, hrows, haccept, hrecords]

end Same

end Dfa

end Determinize
