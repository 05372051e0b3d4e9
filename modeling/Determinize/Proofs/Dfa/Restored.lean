import Determinize.Proofs.Dfa.Data
import Determinize.Proofs.Dfa.Observation

/-!
# An automaton from its data

The data of an automaton name its start, its symbols, its accepting states and its transitions. An
automaton is made from them by calls: one for every state that is a source, in the order of their first
appearance, and one for every transition. For an automaton with a full table this restores the
automaton. All its states are sources, and in the order of the table, unless there are no symbols; and
a set is restored from the list of its members, up to their order.

Sets are named by lists. Two data may be equal and spell values differently, such as `1` and `True`;
then the automata are equal all the same.

## Main definitions

* `Dfa.statesIn`, `Dfa.additionsIn`, `Dfa.transitionsIn` — what the data name, and the calls for it.
* `Dfa.ofData?` — the automaton that is made from data.

## Main results

* `Dfa.exists_foldlM_call` — calls that write what is permitted succeed one after the other.
* `Dfa.IsTable.statesIn_eq` — the states that the data name are all states, in their order.
* `Dfa.IsTable.exists_ofData?` — the automaton is restored from its data.
* `Dfa.IsTable.beqInOrder_of_toValue_beq` — the data tell automata apart.
-/

namespace Determinize

/-! ### Sets from lists -/

namespace ValueSet

/-- The set with its members in the order in which they are shown. -/
def inOrder (S : ValueSet) : ValueSet := .ofList S.sorted

theorem beq_inOrder (S : ValueSet) : (S == S.inOrder) = true := by
  refine OrderedSet.beq_iff.mpr fun a => ?_
  rw [inOrder, OrderedSet.contains_ofList]
  exact (perm_sortSymbols S.toList).any_eq.symm

theorem ofValue?_sorted {S : ValueSet} (h : ∀ x ∈ S.toList, x.Hashable) :
    ofValue? (.list S.sorted) = .ok S.inOrder :=
  ofValue?_list fun x hx => h x (mem_sorted.mp hx)

end ValueSet

namespace Dfa

/-! ### The automaton that is made from data -/

/-- The lists of the states that the data name: the sources of the transitions, in the order of their
first appearance, or the start alone if there are no symbols. -/
def statesIn (data : Value) : List Value :=
  if (data.field "alphabet").listItems.isEmpty then [data.field "start"]
  else (OrderedSet.ofList ((data.field "transitions").listItems.map (·.field "source"))).toList

/-- The calls that add the states. -/
def additionsIn (data : Value) : List Call :=
  (statesIn data).map fun S =>
    .addState S ((data.field "accept_states").listItems.any (· == S))

/-- The calls that set the targets. -/
def transitionsIn (data : Value) : List Call :=
  (data.field "transitions").listItems.map fun r =>
    .addTransition (r.field "source") (r.field "symbol") (r.field "target")

/-- The automaton that is made from data. -/
def ofData? (data : Value) : Except AutomatonError Dfa := do
  let d ← orShapeError (new? (data.field "start") (data.field "alphabet"))
  (additionsIn data ++ transitionsIn data).foldlM call d

/-- Without symbols, the start is the only state. -/
def StartsAlone (d : Dfa) : Prop := d.alphabet.isEmpty = true → d.states.toList = [d.start]

variable {d e : Dfa} {entries : List Entry} {start alphabet : ValueSet}

/-- An automaton with a given start and a given alphabet can be changed. -/
structure IsOpen (d : Dfa) (start alphabet : ValueSet) : Prop where
  start : d.start = start
  alphabet : d.alphabet = alphabet
  mutable : d.frozen = false

/-! ### Runs of calls -/

/-- Calls succeed one after the other if what they write is permitted as long as a property holds, and
keeps that property. -/
theorem exists_foldlM_call {P : Dfa → Prop} {calls : List Call} {new : List Entry}
    (hcalls : List.Forall₂ (fun c e => c.entry? = some e) calls new)
    (hstep : ∀ e ∈ new, ∀ d, P d → d.Permits e ∧ P (d.write e)) (hP : P d)
    (hd : d.Reflects entries) :
    ∃ d', calls.foldlM call d = .ok d' ∧ P d' ∧ d'.Reflects (entries ++ new) := by
  induction hcalls generalizing d entries with
  | nil => exact ⟨d, rfl, hP, by rwa [List.append_nil]⟩
  | @cons c e calls new hentry _ ih =>
    rw [List.forall_mem_cons] at hstep
    obtain ⟨hpermits, hkept⟩ := hstep.1 d hP
    have hcall : d.call c = .ok (d.write e) := call_eq_ok_iff.mpr ⟨e, hentry, hpermits, rfl⟩
    obtain ⟨d', hrun, hd'⟩ := ih hstep.2 hkept (hd.write hpermits)
    refine ⟨d', ?_, hd'.1, ?_⟩
    · rw [List.foldlM_cons, hcall]
      exact hrun
    · rw [List.append_cons]
      exact hd'.2

theorem IsOpen.write (h : d.IsOpen start alphabet) {entry : Entry} (hentry : entry ≠ .freeze) :
    (d.write entry).IsOpen start alphabet := by
  cases entry with
  | state S accepting => exact ⟨h.start, h.alphabet, h.mutable⟩
  | target S a T => exact ⟨h.start, h.alphabet, h.mutable⟩
  | freeze => exact absurd rfl hentry

/-- The calls that add states succeed. -/
theorem exists_foldlM_additions {states : List ValueSet} (accepting : ValueSet → Bool)
    (hhash : ∀ S ∈ states, ∀ x ∈ S.toList, x.Hashable) (hopen : d.IsOpen start alphabet)
    (hd : d.Reflects entries) :
    ∃ e, (states.map fun S => Call.addState (.list S.sorted) (accepting S)).foldlM call d = .ok e ∧
      e.IsOpen start alphabet ∧
      e.Reflects (entries ++ states.map fun S => .state S.inOrder (accepting S)) := by
  refine exists_foldlM_call (P := (IsOpen · start alphabet)) ?_ ?_ hopen hd
  · rw [List.forall₂_map_left_iff, List.forall₂_map_right_iff, List.forall₂_same]
    intro S hS
    rw [Call.entry?, ValueSet.ofValue?_sorted (hhash S hS)]
    rfl
  · intro entry hentry d hd
    obtain ⟨S, -, rfl⟩ := List.mem_map.mp hentry
    exact ⟨hd.mutable, hd.write Entry.noConfusion⟩

/-- The calls that set targets succeed if the sources are states and the symbols are in the
alphabet. -/
theorem exists_foldlM_transitions {records : List (ValueSet × Value × ValueSet)}
    (hhash : ∀ r ∈ records, (∀ x ∈ r.1.toList, x.Hashable) ∧ r.2.1.Hashable ∧
      ∀ x ∈ r.2.2.toList, x.Hashable)
    (hknown : ∀ r ∈ records, d.hasState r.1 = true ∧ alphabet.contains r.2.1 = true)
    (hopen : d.IsOpen start alphabet) (hd : d.Reflects entries) :
    ∃ e, (records.map fun r =>
        Call.addTransition (.list r.1.sorted) r.2.1 (.list r.2.2.sorted)).foldlM call d = .ok e ∧
      (e.IsOpen start alphabet ∧ e.states = d.states) ∧
      e.Reflects (entries ++ records.map fun r => .target r.1.inOrder r.2.1 r.2.2.inOrder) := by
  refine exists_foldlM_call (P := fun e => e.IsOpen start alphabet ∧ e.states = d.states) ?_ ?_
    ⟨hopen, rfl⟩ hd
  · rw [List.forall₂_map_left_iff, List.forall₂_map_right_iff, List.forall₂_same]
    intro r hr
    rw [Call.entry?, ValueSet.ofValue?_sorted (hhash r hr).1,
      ValueSet.ofValue?_sorted (hhash r hr).2.2]
    rfl
  · intro entry hentry e he
    obtain ⟨r, hr, rfl⟩ := List.mem_map.mp hentry
    have hsource : e.hasState r.1.inOrder = true := by
      rw [← hasState_congr r.1.beq_inOrder, ← contains_states, he.2, contains_states]
      exact (hknown r hr).1
    refine ⟨⟨he.1.mutable, (hhash r hr).2.1, ?_, hsource⟩, he.1.write Entry.noConfusion, ?_⟩
    · rw [he.1.alphabet]
      exact (hknown r hr).2
    · exact (states_setTarget hsource _ _).trans he.2

/-! ### What the calls write -/

theorem transitionsIn_toValue (d : Dfa) : transitionsIn d.toValue =
    d.records.map fun r => .addTransition (.list r.1.sorted) r.2.1 (.list r.2.2.sorted) :=
  List.map_map

/-- What is added by the calls for a list of states, and what is set by the calls for a list of
transitions. -/
def entriesFor (states : List ValueSet) (accepting : ValueSet → Bool)
    (records : List (ValueSet × Value × ValueSet)) : List Entry :=
  states.map (fun S => .state S.inOrder (accepting S)) ++
    records.map fun r => .target r.1.inOrder r.2.1 r.2.2.inOrder

theorem addedStates_entriesFor (states : List ValueSet) (accepting : ValueSet → Bool)
    (records : List (ValueSet × Value × ValueSet)) :
    addedStates (entriesFor states accepting records) = states.map ValueSet.inOrder := by
  rw [addedStates, entriesFor, List.filterMap_append, List.filterMap_map, List.filterMap_map]
  have hstates : (Entry.state? ∘ fun S => .state (ValueSet.inOrder S) (accepting S)) =
      some ∘ ValueSet.inOrder := rfl
  have hrecords : (Entry.state? ∘ fun r : ValueSet × Value × ValueSet =>
      .target r.1.inOrder r.2.1 r.2.2.inOrder) = fun _ => none := rfl
  rw [hstates, hrecords, List.filterMap_eq_map, List.filterMap_none, List.append_nil]

theorem acceptingStates_entriesFor (states : List ValueSet) (accepting : ValueSet → Bool)
    (records : List (ValueSet × Value × ValueSet)) :
    acceptingStates (entriesFor states accepting records) =
      (states.filter accepting).map ValueSet.inOrder := by
  rw [acceptingStates, entriesFor, List.filterMap_append, List.filterMap_map, List.filterMap_map]
  have hrecords : (Entry.accepting? ∘ fun r : ValueSet × Value × ValueSet =>
      .target r.1.inOrder r.2.1 r.2.2.inOrder) = fun _ => none := rfl
  rw [hrecords, List.filterMap_none, List.append_nil]
  induction states with
  | nil => rfl
  | cons S states ih =>
    cases hS : accepting S <;> simp [Entry.accepting?, hS, ih]

/-! ### Equal data -/

/-- Equal data name equal states. -/
theorem forall₂_statesIn {x y : Value} (h : (x == y) = true) :
    List.Forall₂ (fun S T => (S == T) = true) (statesIn x) (statesIn y) := by
  have halphabet := Value.forall₂_listItems (Value.field_beq h "alphabet")
  have hempty : (x.field "alphabet").listItems.isEmpty = (y.field "alphabet").listItems.isEmpty := by
    rw [Bool.eq_iff_iff, List.isEmpty_iff_length_eq_zero, List.isEmpty_iff_length_eq_zero,
      halphabet.length_eq]
  rw [statesIn, statesIn, hempty]
  split
  · exact .cons (Value.field_beq h "start") .nil
  · refine OrderedSet.forall₂_ofList respectsBEq_beq ?_
    rw [List.forall₂_map_left_iff, List.forall₂_map_right_iff]
    exact (Value.forall₂_listItems (Value.field_beq h "transitions")).imp fun _ _ hr =>
      Value.field_beq hr "source"

/-- Equal data have equal records. -/
theorem exists_mem_records_of_toValue_beq (h : (d.toValue == e.toValue) = true)
    {S T : ValueSet} {a : Value} (hr : (S, a, T) ∈ d.records) :
    ∃ S' b T', (S', b, T') ∈ e.records ∧ (S == S') = true ∧ (a == b) = true ∧ (T == T') = true := by
  have hrecords : List.Forall₂ (fun r r' => (recordValue r == recordValue r') = true) d.records
      e.records :=
    List.forall₂_map_left_iff.mp <| List.forall₂_map_right_iff.mp <|
      Value.forall₂_listItems (Value.field_beq h "transitions")
  obtain ⟨⟨S', b, T'⟩, hr', hbeq⟩ := exists_of_forall₂ hrecords hr
  exact ⟨S', b, T', hr', ValueSet.beq_of_list_sorted_beq (Value.field_beq hbeq "source"),
    Value.field_beq hbeq "symbol", ValueSet.beq_of_list_sorted_beq (Value.field_beq hbeq "target")⟩

namespace IsTable

variable {accepting : ValueSet → Bool} {target : ValueSet → Value → ValueSet}

section Restored

variable (h : d.IsTable accepting target)

include h

/-! ### What the data name -/

/-- The states that the data name are all states, in their order. -/
theorem statesIn_eq (hstart : d.StartsAlone) :
    statesIn d.toValue = d.states.toList.map fun S => .list S.sorted := by
  have hsymbols : (d.toValue.field "alphabet").listItems = d.alphabet.sorted := rfl
  have hempty : d.alphabet.sorted.isEmpty = d.alphabet.isEmpty :=
    (perm_sortSymbols d.alphabet.toList).isEmpty_eq
  rw [statesIn, hsymbols]
  split
  · rename_i halphabet
    rw [hstart (hempty ▸ halphabet)]
    rfl
  · rename_i halphabet
    have hne : d.alphabet.sorted ≠ [] := fun h => halphabet (List.isEmpty_iff.mpr h)
    have hsources : (d.toValue.field "transitions").listItems.map (·.field "source") =
        (d.states.toList.map fun S => Value.list S.sorted).flatMap fun x =>
          d.alphabet.sorted.map fun _ => x := by
      rw [h.listItems_transitions, List.map_flatMap, List.flatMap_map]
      simp only [List.map_map]
      rfl
    rw [hsources, OrderedSet.ofList, OrderedSet.insertAll_flatMap_const hne]
    refine OrderedSet.toList_insertAll_of_new ?_ fun _ _ => rfl
    refine d.states.distinct.map _ fun S T hST => ?_
    exact Bool.eq_false_iff.mpr fun hlists => by
      rw [ValueSet.beq_of_list_sorted_beq hlists] at hST
      cases hST

theorem additionsIn_eq (hstart : d.StartsAlone) :
    additionsIn d.toValue =
      d.states.toList.map fun S => .addState (.list S.sorted) (accepting S) := by
  rw [additionsIn, h.statesIn_eq hstart, List.map_map]
  exact List.map_congr_left fun S hS => congrArg (Call.addState _) (h.isAcceptedIn_eq hS)

/-! ### Restoring -/

theorem mem_entriesFor_iff {S T : ValueSet} {a : Value} :
    .target S a T ∈ entriesFor d.states.toList accepting d.records ↔
      ∃ R ∈ d.states.toList, a ∈ d.alphabet.toList ∧ R.inOrder = S ∧ (target R a).inOrder = T := by
  rw [entriesFor, List.mem_append, List.mem_map, List.mem_map]
  constructor
  · rintro (⟨R, -, heq⟩ | ⟨⟨R, b, U⟩, hr, heq⟩)
    · cases heq
    · cases heq
      obtain ⟨hR, hb, rfl⟩ := h.mem_records_iff.mp hr
      exact ⟨R, hR, hb, rfl, rfl⟩
  · rintro ⟨R, hR, ha, rfl, rfl⟩
    exact .inr ⟨(R, a, target R a), h.mem_records_iff.mpr ⟨hR, ha, rfl⟩, rfl⟩

/-- The target that was set last is that of the table. -/
theorem rel_lastTarget? (S : ValueSet) (a : Value) :
    Option.Rel (fun T T' => (T == T') = true) (d.targetAt S a)
      (lastTarget? (entriesFor d.states.toList accepting d.records) S a) := by
  rw [h.targetAt_eq]
  cases hlast : lastTarget? (entriesFor d.states.toList accepting d.records) S a with
  | none =>
    cases hS : d.states.find? S with
    | none => exact .none
    | some R =>
      cases ha : d.alphabet.find? a with
      | none => exact .none
      | some b =>
        obtain ⟨hR, hRS⟩ := OrderedSet.find?_eq_some hS
        obtain ⟨hb, hba⟩ := OrderedSet.find?_eq_some ha
        exact absurd hlast (lastTarget?_ne_none (h.mem_entriesFor_iff.mpr ⟨R, hR, hb, rfl, rfl⟩)
          (BEq.trans (BEq.symm R.beq_inOrder) hRS) hba)
  | some T =>
    obtain ⟨S', b, hentry, hS, hb⟩ := exists_target_of_lastTarget?_eq_some hlast
    obtain ⟨R, hR, hbmem, rfl, rfl⟩ := h.mem_entriesFor_iff.mp hentry
    have hfind : d.states.find? S = some R := by
      rw [← OrderedSet.find?_congr _ (BEq.trans R.beq_inOrder hS)]
      exact OrderedSet.find?_eq_some_self_iff.mpr hR
    have hfind' : d.alphabet.find? a = some b := by
      rw [← OrderedSet.find?_congr _ hb]
      exact OrderedSet.find?_eq_some_self_iff.mpr hbmem
    rw [hfind, Option.bind_some, hfind', Option.map_some]
    exact .some (target R b).beq_inOrder

theorem beqInOrder_of_reflects (hopen : e.IsOpen d.start.inOrder d.alphabet.inOrder)
    (he : e.Reflects (entriesFor d.states.toList accepting d.records)) : d.BeqInOrder e := by
  have hstates : List.Forall₂ (fun S T => (S == T) = true) d.states.toList e.states.toList := by
    rw [he.states, addedStates_entriesFor, ← OrderedSet.ofList_toList d.states]
    refine OrderedSet.forall₂_ofList respectsBEq_beq ?_
    rw [OrderedSet.ofList_toList, List.forall₂_map_right_iff, List.forall₂_same]
    exact fun S _ => S.beq_inOrder
  refine ⟨beq_iff_lookups.mpr ⟨?_, ?_, fun S => ?_, fun S => ?_, fun S a => ?_⟩, hstates⟩
  · rw [hopen.start]
    exact d.start.beq_inOrder
  · rw [hopen.alphabet]
    exact d.alphabet.beq_inOrder
  · rw [← contains_states, ← contains_states]
    exact OrderedSet.contains_eq_of_forall₂ respectsBEq_beq hstates BEq.rfl
  · rw [he.accepting, acceptingStates_entriesFor, acceptsAt_eq_any, h.acceptStates_eq, List.any_map]
    exact congrArg (d.states.toList.filter accepting).any
      (funext fun T => BEq.congr_left T.beq_inOrder)
  · rw [he.target]
    exact h.rel_lastTarget? S a

/-- An automaton with a full table is restored from its data. -/
theorem exists_ofData? (hstart : d.StartsAlone)
    (hhash : ∀ S ∈ d.states.toList, ∀ x ∈ S.toList, x.Hashable) :
    ∃ e, ofData? d.toValue = .ok e ∧ d.BeqInOrder e := by
  have hnew : new? (.list d.start.sorted) (.list d.alphabet.sorted) =
      .ok ⟨d.start.inOrder, d.alphabet.inOrder, .empty, false⟩ := by
    rw [new?, ValueSet.ofValue?_sorted (hhash _ h.start_mem), ValueSet.ofValue?_sorted h.hashable]
    rfl
  obtain ⟨d₁, hrun₁, hopen₁, hd₁⟩ :=
    exists_foldlM_additions accepting hhash ⟨rfl, rfl, rfl⟩ (reflects_of_new? hnew)
  have hrecord : ∀ r ∈ d.records, (∀ x ∈ r.1.toList, x.Hashable) ∧ r.2.1.Hashable ∧
      ∀ x ∈ r.2.2.toList, x.Hashable := by
    intro r hr
    obtain ⟨hS, ha, hT⟩ := h.mem_of_mem_records hr
    exact ⟨hhash _ hS, h.hashable _ ha, hhash _ hT⟩
  have hknown : ∀ r ∈ d.records,
      d₁.hasState r.1 = true ∧ d.alphabet.inOrder.contains r.2.1 = true := by
    intro r hr
    obtain ⟨hS, ha, -⟩ := h.mem_of_mem_records hr
    have hadded : .state r.1.inOrder (accepting r.1) ∈
        [] ++ d.states.toList.map fun S => Entry.state S.inOrder (accepting S) :=
      List.mem_append_right _ (List.mem_map_of_mem hS)
    refine ⟨(hasState_congr r.1.beq_inOrder).trans (hd₁.hasState_of_mem hadded), ?_⟩
    · rw [← OrderedSet.beq_iff.mp d.alphabet.beq_inOrder]
      exact OrderedSet.contains_of_mem ha
  obtain ⟨d₂, hrun₂, ⟨hopen₂, -⟩, hd₂⟩ := exists_foldlM_transitions hrecord hknown hopen₁ hd₁
  refine ⟨d₂, ?_, h.beqInOrder_of_reflects hopen₂ hd₂⟩
  calc ofData? d.toValue
      = (additionsIn d.toValue ++ transitionsIn d.toValue).foldlM call
          ⟨d.start.inOrder, d.alphabet.inOrder, .empty, false⟩ := by
        change orShapeError (new? (.list d.start.sorted) (.list d.alphabet.sorted)) >>= _ = _
        rw [hnew]
        rfl
    _ = .ok d₂ := by
        rw [h.additionsIn_eq hstart, transitionsIn_toValue, List.foldlM_append, hrun₁]
        exact hrun₂

end Restored

/-- Automata with equal data are equal and have the same states in the same order. -/
theorem beqInOrder_of_toValue_beq {accepting' : ValueSet → Bool}
    {target' : ValueSet → Value → ValueSet} (hd : d.IsTable accepting target)
    (he : e.IsTable accepting' target')
    (hdstart : d.StartsAlone) (hestart : e.StartsAlone)
    (h : (d.toValue == e.toValue) = true) : d.BeqInOrder e := by
  have hstates : List.Forall₂ (fun S T => (Value.list S.sorted == Value.list T.sorted) = true)
      d.states.toList e.states.toList := by
    have hnamed := forall₂_statesIn h
    rwa [hd.statesIn_eq hdstart, he.statesIn_eq hestart, List.forall₂_map_left_iff,
      List.forall₂_map_right_iff] at hnamed
  have halphabet : (d.alphabet == e.alphabet) = true :=
    ValueSet.beq_of_list_sorted_beq (Value.field_beq h "alphabet")
  refine hd.beqInOrder he halphabet ((forall₂_mem hstates).imp fun S T hST => ?_)
  obtain ⟨hS, hT, hlists⟩ := hST
  have hbeq : (S == T) = true := ValueSet.beq_of_list_sorted_beq hlists
  refine ⟨hbeq, ?_, fun a ha b hb hab => ?_⟩
  · rw [← hd.isAcceptedIn_eq hS, ← he.isAcceptedIn_eq hT]
    exact forall₂_any (Value.forall₂_listItems (Value.field_beq h "accept_states")) fun _ _ hxy =>
      respectsBEq_beq hxy hlists
  · obtain ⟨S', b', T', hr, hSS', hab', hTT'⟩ :=
      exists_mem_records_of_toValue_beq h (hd.mem_records_iff.mpr ⟨hS, ha, rfl⟩)
    obtain ⟨hS', hb', rfl⟩ := he.mem_records_iff.mp hr
    obtain rfl := OrderedSet.eq_of_beq_of_mem hT hS' (BEq.trans (BEq.symm hbeq) hSS')
    obtain rfl := OrderedSet.eq_of_beq_of_mem hb hb' (BEq.trans (BEq.symm hab) hab')
    exact hTT'

end IsTable

end Dfa

end Determinize
