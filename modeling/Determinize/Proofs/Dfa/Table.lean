import Determinize.Proofs.Dfa.Rendering
import Determinize.Proofs.Dfa.Walk

/-!
# Automata with a full table

The table of an automaton is full if every symbol of the alphabet leads from every state to one of
the states, as it is stored there. The first state is the start. What is read off from such an
automaton, the walks, the text and the data, is made of its states and its symbols as they are stored:
equal states are spelled alike wherever they appear, and so are equal symbols. The text exists if and
only if all of them can be written.

## Main definitions

* `Dfa.IsTable` — an automaton has a full table, with given accepting states and targets.
* `Dfa.SpelledOnce` — every state and every symbol appears in one spelling.

## Main results

* `Dfa.IsTable.records_eq`, `Dfa.IsTable.render?_eq`, `Dfa.IsTable.toValue_eq` — the records, the text
  and the data of a full table.
* `Dfa.IsTable.listable_of_writable` — if there is a text, there are data.
* `Dfa.IsTable.mem_states_of_step?` — steps lead to stored states.
* `Dfa.IsTable.spelledOnce`.
-/

namespace Determinize

namespace Dfa

/-- The rows of all states are full: they say whether the state is accepting and lead to a stored state
for every symbol of the alphabet. -/
structure IsTable (d : Dfa) (accepting : ValueSet → Bool) (target : ValueSet → Value → ValueSet) :
    Prop where
  rows : d.rows = .ofKeys d.states fun S => ⟨accepting S, .ofKeys d.alphabet (target S)⟩
  first : d.states.toList.head? = some d.start
  closed : ∀ S ∈ d.states.toList, ∀ a ∈ d.alphabet.toList, target S a ∈ d.states.toList
  hashable : ∀ a ∈ d.alphabet.toList, a.Hashable

/-- The lines of the text about a state. -/
def block (d : Dfa) (accepting : ValueSet → Bool) (target : ValueSet → Value → ValueSet)
    (S : ValueSet) : List String :=
  d.header S (accepting S) :: d.alphabet.sorted.map fun a => transitionLine a (target S a)

/-- Every state appears in the spelling of the list of states and every symbol in that of the alphabet:
in the start, the accepting states, the table, the records, the steps and the walks, in the text and in
the data. -/
structure SpelledOnce [DigitLimit] (d : Dfa) : Prop where
  states : ∀ S ∈ d.states.toList, ∀ T ∈ d.states.toList, (S == T) = true → S = T
  symbols : ∀ a ∈ d.alphabet.toList, ∀ b ∈ d.alphabet.toList, (a == b) = true → a = b
  start : d.start ∈ d.states.toList
  acceptStates : ∀ S ∈ d.acceptStates, S ∈ d.states.toList
  table : ∀ S row, (S, row) ∈ d.rows.entries → S ∈ d.states.toList ∧
    ∀ a T, (a, T) ∈ row.targets.entries → a ∈ d.alphabet.toList ∧ T ∈ d.states.toList
  records : ∀ rs, d.records? = .ok rs → ∀ S a T, (S, a, T) ∈ rs →
    S ∈ d.states.toList ∧ a ∈ d.alphabet.toList ∧ T ∈ d.states.toList
  step : ∀ S a T, d.step? S a = .ok T → T ∈ d.states.toList
  walk : ∀ word, ∀ S ∈ (d.walk word).path, S ∈ d.states.toList
  /-- The text and the data are made of the states, the symbols and the states that these lead to. There
  is no text or no data if they cannot be written. -/
  shown : ∃ (accepting : ValueSet → Bool) (target : ValueSet → Value → ValueSet),
    (∀ S ∈ d.states.toList, ∀ a ∈ d.alphabet.toList, target S a ∈ d.states.toList) ∧
      (d.render? = if d.writable then .ok ("\n".intercalate
          ("DFA Transitions:" :: d.states.toList.flatMap (d.block accepting target)))
        else .error .tooManyDigits) ∧
      d.toValue? = if d.listable then .ok (.object [
          ("start", .list d.start.sorted),
          ("alphabet", .list d.alphabet.sorted),
          ("accept_states",
            .list ((d.states.toList.filter accepting).map fun S => .list S.sorted)),
          ("transitions", .list (d.states.toList.flatMap fun S =>
            d.alphabet.sorted.map fun a => recordValue (S, a, target S a)))])
        else .error .tooManyDigits

namespace IsTable

variable {d : Dfa} {accepting : ValueSet → Bool} {target : ValueSet → Value → ValueSet}
  {S T : ValueSet} {a : Value} {row : Row}

variable (h : d.IsTable accepting target)

include h

/-! ### Rows -/

theorem start_mem : d.start ∈ d.states.toList := List.mem_of_head? h.first

theorem entries_eq : d.rows.entries =
    d.states.toList.map fun S => (S, ⟨accepting S, .ofKeys d.alphabet (target S)⟩) :=
  congrArg OrderedMap.entries h.rows

theorem find?_rows (S : ValueSet) : d.rows.find? S =
    (d.states.find? S).map fun S => ⟨accepting S, .ofKeys d.alphabet (target S)⟩ :=
  (congrArg (·.find? S) h.rows).trans (OrderedMap.find?_ofKeys ..)

/-- The row that is found for a set is that of the stored state. -/
theorem exists_of_find?_rows (hrow : d.rows.find? S = some row) :
    ∃ T ∈ d.states.toList, (T == S) = true ∧
      row = ⟨accepting T, .ofKeys d.alphabet (target T)⟩ := by
  rw [h.find?_rows] at hrow
  obtain ⟨T, hT, rfl⟩ := Option.map_eq_some_iff.mp hrow
  exact ⟨T, (OrderedSet.find?_eq_some hT).1, (OrderedSet.find?_eq_some hT).2, rfl⟩

theorem find?_rows_of_mem (hS : S ∈ d.states.toList) :
    d.rows.find? S = some ⟨accepting S, .ofKeys d.alphabet (target S)⟩ := by
  rw [h.find?_rows, OrderedSet.find?_eq_some_self_iff.mpr hS, Option.map_some]

theorem isAccepting?_eq (hS : S ∈ d.states.toList) : d.isAccepting? S = .ok (accepting S) := by
  rw [isAccepting?, h.find?_rows_of_mem hS]

theorem acceptStates_eq : d.acceptStates = d.states.toList.filter accepting := by
  rw [acceptStates, h.entries_eq, List.filter_map, List.map_map]
  exact List.map_id _

/-! ### Steps and walks -/

theorem step?_eq (hS : S ∈ d.states.toList) (ha : a ∈ d.alphabet.toList) :
    d.step? S a = .ok (target S a) := by
  rw [Dfa.step?_eq (h.find?_rows_of_mem hS) (h.hashable a ha),
    if_pos (OrderedSet.contains_of_mem ha)]
  dsimp only
  rw [OrderedMap.find?_ofKeys, OrderedSet.find?_eq_some_self_iff.mpr ha, Option.map_some]

/-- A step leads to a state as it is stored, however the state and the symbol are spelled. -/
theorem mem_states_of_step? (hstep : d.step? S a = .ok T) : T ∈ d.states.toList := by
  have hS : d.hasState S = true := by
    refine Bool.eq_false_imp_eq_true.mp fun hS => ?_
    rw [step?, OrderedMap.find?_eq_none_iff.mpr hS] at hstep
    cases hstep
  obtain ⟨hhash, ha⟩ := hashable_and_contains_of_step?_eq_ok hS hstep
  obtain ⟨row, hrow⟩ := exists_row_of_hasState hS
  rw [Dfa.step?_eq hrow hhash, if_pos ha] at hstep
  obtain ⟨S', hS', -, rfl⟩ := h.exists_of_find?_rows hrow
  obtain ⟨b, hb, -, hfind⟩ := OrderedSet.exists_find?_of_contains ha
  dsimp only at hstep
  rw [OrderedMap.find?_ofKeys, hfind, Option.map_some] at hstep
  injection hstep with hstep
  exact hstep ▸ h.closed S' hS' b hb

/-- A walk from a stored state visits states as they are stored. -/
theorem mem_states_of_mem_path {word : List Value} (hS : S ∈ d.states.toList) :
    ∀ T ∈ (d.walkFrom S word).path, T ∈ d.states.toList := by
  induction word generalizing S with
  | nil => simpa [walkFrom] using hS
  | cons a word ih =>
    cases hstep : d.step? S a with
    | error e => simpa [walkFrom_cons_of_error hstep] using hS
    | ok next =>
      rw [walkFrom_cons_of_ok hstep, List.forall_mem_cons]
      exact ⟨hS, ih (h.mem_states_of_step? hstep)⟩

/-! ### Records, text and data -/

/-- The records are the states, the sorted symbols and the states that these lead to. -/
theorem records_eq : d.records = d.states.toList.flatMap fun S =>
    d.alphabet.sorted.map fun a => (S, a, target S a) := by
  rw [records, h.entries_eq, List.flatMap_map]
  refine List.flatMap_congr fun S _ => ?_
  dsimp only
  rw [OrderedMap.keys_ofKeys, ← ValueSet.sorted, ← List.filterMap_eq_map]
  refine List.filterMap_congr fun a ha => ?_
  rw [OrderedMap.find?_ofKeys,
    OrderedSet.find?_eq_some_self_iff.mpr (ValueSet.mem_sorted.mp ha)]
  rfl

theorem mem_records_iff : (S, a, T) ∈ d.records ↔
    S ∈ d.states.toList ∧ a ∈ d.alphabet.toList ∧ target S a = T := by
  rw [h.records_eq, List.mem_flatMap]
  constructor
  · rintro ⟨R, hR, hr⟩
    obtain ⟨b, hb, heq⟩ := List.mem_map.mp hr
    cases heq
    exact ⟨hR, ValueSet.mem_sorted.mp hb, rfl⟩
  · rintro ⟨hS, ha, rfl⟩
    exact ⟨S, hS, List.mem_map_of_mem (ValueSet.mem_sorted.mpr ha)⟩

theorem mem_of_mem_records {r : ValueSet × Value × ValueSet} (hr : r ∈ d.records) :
    r.1 ∈ d.states.toList ∧ r.2.1 ∈ d.alphabet.toList ∧ r.2.2 ∈ d.states.toList := by
  obtain ⟨hS, ha, htarget⟩ := h.mem_records_iff.mp hr
  exact ⟨hS, ha, htarget ▸ h.closed _ hS _ ha⟩

/-- The lines of a state, if what they show can be written. -/
theorem stateLines?_eq [DigitLimit] (hS : S ∈ d.states.toList) : d.stateLines? S =
    if S.writable && d.alphabet.sorted.all (fun a => a.writable && (target S a).writable) then
      .ok (d.block accepting target S)
    else .error .tooManyDigits := by
  have hlines : d.alphabet.sorted.mapM (d.transitionLine? S) =
      if d.alphabet.sorted.all fun a => a.writable && (target S a).writable then
        .ok (d.alphabet.sorted.map fun a => transitionLine a (target S a))
      else .error .tooManyDigits := by
    refine mapM_eq_ite fun a ha => ?_
    rw [transitionLine?_eq, h.step?_eq hS (ValueSet.mem_sorted.mp ha)]
    cases a.writable <;> rfl
  have hsorted : sortable d.alphabet.toList = false →
      (d.alphabet.sorted.all fun a => a.writable && (target S a).writable) = false := by
    refine fun hnot => Bool.eq_false_iff.mpr fun hall => Bool.eq_false_iff.mp hnot ?_
    refine sortable_of_writable (List.all_eq_true.mpr fun a ha => ?_)
    exact (Bool.and_eq_true_iff.mp (List.all_eq_true.mp hall a (ValueSet.mem_sorted.mpr ha))).1
  rw [stateLines?, h.isAccepting?_eq hS, ValueSet.sorted?_eq]
  change (d.header? S (accepting S) >>= fun header => _) = _
  rw [header?_eq]
  cases S.writable with
  | false => rfl
  | true =>
    cases hsortable : sortable d.alphabet.toList with
    | false =>
      rw [hsorted hsortable]
      rfl
    | true =>
      change (do let lines ← d.alphabet.sorted.mapM (d.transitionLine? S); _) = _
      rw [hlines, Bool.true_and]
      split <;> rfl

/-- All that the text shows can be written if and only if the states and the symbols can be. -/
theorem all_states_eq_writable [DigitLimit] : (d.states.toList.all fun S => S.writable &&
    d.alphabet.sorted.all fun a => a.writable && (target S a).writable) = d.writable := by
  rw [Bool.eq_iff_iff, writable]
  simp only [List.all_eq_true, Bool.and_eq_true, ValueSet.mem_sorted]
  exact ⟨fun hall => ⟨fun S hS => (hall S hS).1, fun a ha => ((hall _ h.start_mem).2 a ha).1⟩,
    fun ⟨hstates, hsymbols⟩ S hS =>
      ⟨hstates S hS, fun a ha => ⟨hsymbols a ha, hstates _ (h.closed S hS a ha)⟩⟩⟩

/-- The text has a block for every state, if the states and the symbols can be written. -/
theorem render?_eq [DigitLimit] : d.render? =
    if d.writable then .ok ("\n".intercalate
      ("DFA Transitions:" :: d.states.toList.flatMap (d.block accepting target)))
    else .error .tooManyDigits := by
  rw [render?, mapM_eq_ite fun S hS => h.stateLines?_eq hS, h.all_states_eq_writable]
  split <;> rfl

theorem eq_of_render?_eq_ok [DigitLimit] {text : String} (htext : d.render? = .ok text) :
    text = "\n".intercalate
      ("DFA Transitions:" :: d.states.toList.flatMap (d.block accepting target)) := by
  rw [h.render?_eq] at htext
  split at htext
  · exact (Except.ok.inj htext).symm
  · cases htext

/-- The symbols of the states are those of the alphabet. -/
theorem recordable_eq [DigitLimit] : d.recordable = sortable d.alphabet.toList := by
  rw [Bool.eq_iff_iff, recordable, h.entries_eq, List.all_map, List.all_eq_true]
  simp only [Function.comp_apply, OrderedMap.keys_ofKeys]
  exact ⟨fun hall => hall d.start h.start_mem, fun hsortable S _ => hsortable⟩

/-- If the states and the symbols can be written, there are data. -/
theorem listable_of_writable [DigitLimit] (hwritable : d.writable = true) :
    d.listable = true := by
  obtain ⟨hstates, hsymbols⟩ := Bool.and_eq_true_iff.mp hwritable
  have hstate {S : ValueSet} (hS : S ∈ d.states.toList) : sortable S.toList = true :=
    sortable_of_writable (List.all_eq_true.mp hstates S hS)
  have halphabet : sortable d.alphabet.toList = true := sortable_of_writable hsymbols
  simp only [listable, Bool.and_eq_true, List.all_eq_true]
  refine ⟨⟨⟨⟨hstate h.start_mem, halphabet⟩, fun S hS => ?_⟩, h.recordable_eq ▸ halphabet⟩,
    fun r hr => ?_⟩
  · rw [h.acceptStates_eq] at hS
    exact hstate (List.mem_of_mem_filter hS)
  · obtain ⟨hsource, -, htarget⟩ := h.mem_of_mem_records hr
    exact ⟨hstate hsource, hstate htarget⟩

/-- The data can be written if the states and the symbols can be. -/
theorem writable_toValue [DigitLimit] (hwritable : d.writable = true) : d.toValue.writable = true := by
  obtain ⟨hstates, hsymbols⟩ := Bool.and_eq_true_iff.mp hwritable
  rw [List.all_eq_true] at hstates hsymbols
  have hlist {S : ValueSet} (hS : ∀ a ∈ S.toList, a.writable = true) :
      (Value.list S.sorted).writable = true :=
    Value.writable_list_iff.mpr fun a ha => hS a (ValueSet.mem_sorted.mp ha)
  have hstate {S : ValueSet} (hS : S ∈ d.states.toList) : (Value.list S.sorted).writable = true :=
    hlist (List.all_eq_true.mp (hstates S hS))
  have hrecord : ∀ r ∈ d.records, (recordValue r).writable = true := by
    rintro ⟨S, a, T⟩ hr
    obtain ⟨hS, ha, hT⟩ := h.mem_of_mem_records hr
    simpa [recordValue, Value.writable_object_iff] using ⟨hstate hS, hsymbols a ha, hstate hT⟩
  have haccepting : ∀ S ∈ d.acceptStates, (Value.list S.sorted).writable = true := by
    intro S hS
    rw [h.acceptStates_eq] at hS
    exact hstate (List.mem_of_mem_filter hS)
  refine Value.writable_object_iff.mpr ?_
  simp only [List.forall_mem_cons]
  exact ⟨hstate h.start_mem, hlist hsymbols,
    Value.writable_list_iff.mpr (List.forall_mem_map.mpr haccepting),
    Value.writable_list_iff.mpr (List.forall_mem_map.mpr hrecord),
    fun _ hf => absurd hf List.not_mem_nil⟩

theorem writable_eq_false_of_toValue?_eq_error [DigitLimit] {e : AutomatonError}
    (herror : d.toValue? = .error e) : e = .tooManyDigits ∧ d.writable = false := by
  rw [toValue?_eq] at herror
  split at herror
  · cases herror
  · rename_i hnot
    exact ⟨(Except.error.inj herror).symm,
      Bool.eq_false_iff.mpr (mt h.listable_of_writable hnot)⟩

/-- The data have a record for every state and every symbol. -/
theorem toValue_eq : d.toValue = .object [
    ("start", .list d.start.sorted),
    ("alphabet", .list d.alphabet.sorted),
    ("accept_states", .list ((d.states.toList.filter accepting).map fun S => .list S.sorted)),
    ("transitions", .list (d.states.toList.flatMap fun S =>
      d.alphabet.sorted.map fun a => recordValue (S, a, target S a)))] := by
  rw [toValue, h.acceptStates_eq, h.records_eq, List.map_flatMap]
  simp only [List.map_map]
  rfl

/-- States and symbols of a full table appear in one spelling. -/
theorem spelledOnce [DigitLimit] : d.SpelledOnce where
  states _ hS _ hT := OrderedSet.eq_of_beq_of_mem hS hT
  symbols _ ha _ hb := OrderedSet.eq_of_beq_of_mem ha hb
  start := h.start_mem
  acceptStates S hS := by
    rw [h.acceptStates_eq] at hS
    exact List.mem_of_mem_filter hS
  table S row hrow := by
    rw [h.entries_eq] at hrow
    obtain ⟨S, hS, heq⟩ := List.mem_map.mp hrow
    cases heq
    refine ⟨hS, fun a T haT => ?_⟩
    obtain ⟨a, ha, heq⟩ := List.mem_map.mp haT
    cases heq
    exact ⟨ha, h.closed S hS a ha⟩
  records rs hrs S a T hr := by
    rw [eq_records_of_records?_eq_ok hrs] at hr
    exact h.mem_of_mem_records hr
  step _ _ _ := h.mem_states_of_step?
  walk _ := h.mem_states_of_mem_path h.start_mem
  shown := ⟨accepting, target, h.closed, h.render?_eq, h.toValue_eq ▸ d.toValue?_eq⟩

end IsTable

end Dfa

end Determinize
