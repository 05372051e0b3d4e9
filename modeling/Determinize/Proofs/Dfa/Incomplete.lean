import Determinize.Proofs.Collection.Report
import Determinize.Proofs.Dfa.Data
import Determinize.Proofs.Dfa.Observation

/-!
# Automata with gaps

The table of an automaton that is made by calls can have gaps, and its targets can be sets that were
never added as states. The records and the data are read from what was set. They look up the rows of
the states and the targets of the symbols of a row, and all these lookups succeed. The text takes a
step under every symbol of the alphabet in every state. It exists if there is no gap, and otherwise
the first gap is reported: that of the first state that has one, and of its first symbol in the order
in which symbols are shown.

All this holds as it stands if there is no limit on digits, or if all that is shown can be written. A
limit adds one fault and no other. The records and the data fail with it if values have to be sorted
by their texts of which one cannot be written. In the text it takes its place among the gaps, where
the value would be written.

## Main definitions

* `Dfa.readRecords?`, `Dfa.readData?` — the records and the data, read by lookups that can fail.
* `Dfa.FirstGap` — where the first gap of a table is.
* `Dfa.Showable` — all that is shown can be written.
* `Dfa.faultsAt` — the faults that the text of a state meets.
* `Dfa.Renders` — what the records, the data and the text of an automaton have to do with a log.

## Main results

* `Dfa.readRecords?_eq`, `Dfa.readData?_eq` — the lookups succeed.
* `Dfa.map_filter_records` — the records with a source and a symbol.
* `Dfa.Sound.reports_render?` — the text meets the gaps in their order.
* `Dfa.renders_after` — the renderings of an automaton after any history.
-/

namespace Determinize

/-! ### Reading by lookups -/

/-- The value of a key that has to be there. -/
def OrderedMap.require? {κ ν : Type} [BEq κ] (m : OrderedMap κ ν) (k : κ) (subject : Subject) :
    Except AutomatonError ν :=
  match m.find? k with
  | some v => .ok v
  | none => .error (.missing subject)

theorem OrderedMap.require?_eq_ok {κ ν : Type} [BEq κ] {m : OrderedMap κ ν} {k : κ} {v : ν}
    (subject : Subject) (h : m.find? k = some v) : m.require? k subject = .ok v := by
  rw [require?, h]

namespace Dfa

section Reading

variable [DigitLimit]

/-- The records of a state, read from its row. -/
def readRecordsOf? (d : Dfa) (source : ValueSet) :
    Except AutomatonError (List (ValueSet × Value × ValueSet)) := do
  let row ← d.rows.require? source (.states source)
  let symbols ← orTooManyDigits (sortSymbols? row.targets.keys.toList)
  symbols.mapM fun symbol => do
    return (source, symbol, ← row.targets.require? symbol (.value symbol))

/-- The records, read state by state. -/
def readRecords? (d : Dfa) : Except AutomatonError (List (ValueSet × Value × ValueSet)) := do
  return (← d.states.toList.mapM d.readRecordsOf?).flatten

/-- The data of a state that may be accepting. -/
def readAccepting? (d : Dfa) (state : ValueSet) : Except AutomatonError (List Value) := do
  if ← d.isAccepting? state then return [← listed? state] else return []

/-- The data, read by asking which states are accepting and by reading the records. -/
def readData? (d : Dfa) : Except AutomatonError Value := do
  let start ← listed? d.start
  let alphabet ← listed? d.alphabet
  let accepting ← d.states.toList.mapM d.readAccepting?
  let transitions ← (← d.readRecords?).mapM recordValue?
  return .object [
    ("start", start),
    ("alphabet", alphabet),
    ("accept_states", .list accepting.flatten),
    ("transitions", .list transitions)]

end Reading

/-- The symbols for which a target of a state was set. -/
def symbolsAt (d : Dfa) (S : ValueSet) : ValueSet :=
  ((d.rows.find? S).map (·.targets.keys)).getD .empty

/-- The records of a state. -/
def recordsAt (d : Dfa) (S : ValueSet) : List (ValueSet × Value × ValueSet) :=
  (d.symbolsAt S).sorted.flatMap fun a => (d.targetAt S a).toList.map (S, a, ·)

/-- The fault of a step from a state, if there is a gap. -/
def gapAt (d : Dfa) (S : ValueSet) (a : Value) : List AutomatonError :=
  if d.targetAt S a = none then [.missing (.value a)] else []

/-- The first gap of a table with the targets of a log: the states before have targets for all
symbols, and the state has targets for the symbols before. -/
def FirstGap (d : Dfa) (entries : List Entry) (S : ValueSet) (a : Value) : Prop :=
  ∃ before after earlier later, d.states.toList = before ++ S :: after ∧
    d.alphabet.sorted = earlier ++ a :: later ∧
    (∀ R ∈ before, ∀ b ∈ d.alphabet.toList, lastTarget? entries R b ≠ none) ∧
    (∀ b ∈ earlier, lastTarget? entries S b ≠ none) ∧ lastTarget? entries S a = none

/-- The fault of what can be written or not. -/
def faultUnless (written : Bool) : List AutomatonError := if written then [] else [.tooManyDigits]

/-- All that is shown can be written: the start, the states, the symbols and the targets in a log. -/
structure Showable [DigitLimit] (d : Dfa) (entries : List Entry) : Prop where
  start : d.start.writable = true
  states : ∀ S ∈ d.states.toList, S.writable = true
  symbols : ∀ a ∈ d.alphabet.toList, a.writable = true
  targets : ∀ S a T, lastTarget? entries S a = some T → T.writable = true

/-- The faults that the line of a transition meets: the symbol is written, then the step is taken, and
then its target is written. -/
def faultsOf [DigitLimit] (d : Dfa) (S : ValueSet) (a : Value) : List AutomatonError :=
  faultUnless a.writable ++
    (d.gapAt S a ++ faultUnless ((d.targetAt S a).all ValueSet.writable))

/-- The faults that the lines of a state meet: the state is written, then the symbols are sorted, and
then there is a line for every symbol. -/
def faultsAt [DigitLimit] (d : Dfa) (S : ValueSet) : List AutomatonError :=
  faultUnless S.writable ++
    (faultUnless (sortable d.alphabet.toList) ++ d.alphabet.sorted.flatMap (d.faultsOf S))

/-- The records and the data of an automaton tell what a log has set, and the text exists if nothing
is missing. The records and the data can be read, unless the values that they show have to be sorted by
their texts and one of these cannot be written. -/
structure Renders [DigitLimit] (d : Dfa) (entries : List Entry) : Prop where
  /-- The states are in the order in which they were added first. -/
  states : d.states = OrderedSet.ofList (addedStates entries)
  /-- The lookups on the way to the records succeed. -/
  reads : d.readRecords? = d.records?
  /-- The lookups on the way to the data succeed. -/
  readsData : d.readData? = d.toValue?
  records : d.records? = if d.recordable then .ok d.records else .error .tooManyDigits
  data : d.toValue? = if d.listable then .ok d.toValue else .error .tooManyDigits
  sorts : d.Showable entries → d.recordable = true ∧ d.listable = true
  transitions : d.toValue.field "transitions" = .list (d.records.map recordValue)
  /-- One record tells the target that was set last, and there is none without a target. -/
  recorded : ∀ S a, (d.records.filter fun r => r.1 == S && r.2.1 == a).map (·.2.2) =
    (lastTarget? entries S a).toList
  sources : ∀ r ∈ d.records, r.1 ∈ d.states.toList ∧ d.alphabet.contains r.2.1 = true
  /-- The records of a state stand together, in the order of the states. -/
  grouped : d.records = d.states.toList.flatMap fun S => d.records.filter fun r => r.1 == S
  fails_iff : d.Showable entries → ((∃ e, d.render? = .error e) ↔
    ∃ S ∈ d.states.toList, ∃ a ∈ d.alphabet.toList, lastTarget? entries S a = none)
  /-- The error names the symbol of the first gap. -/
  failure : d.Showable entries → ∀ e, d.render? = .error e ↔
    ∃ S a, d.FirstGap entries S a ∧ e = .missing (.value a)
  /-- If something cannot be shown, the error is still the first fault in the order of the states. -/
  firstFault : ∀ e, d.render? = .error e ↔ (d.states.toList.flatMap d.faultsAt).head? = some e
  knownStates : ∀ s, d.render? ≠ .error (.unknownState s)
  knownSymbols : ∀ a s, d.render? ≠ .error (.unknownSymbol a s)

variable {d : Dfa} {R S : ValueSet} {a b : Value} {row : Row} {entries : List Entry}

/-! ### The records -/

theorem find?_rows_of_mem (h : (S, row) ∈ d.rows.entries) : d.rows.find? S = some row :=
  OrderedMap.find?_eq_some_of_mem h BEq.rfl

theorem targetAt_congr (h : (a == b) = true) : d.targetAt S a = d.targetAt S b := by
  rw [targetAt, targetAt]
  exact congrArg _ (funext fun row => OrderedMap.find?_congr row.targets h)

theorem contains_symbolsAt (d : Dfa) (S : ValueSet) (a : Value) :
    (d.symbolsAt S).contains a = (d.targetAt S a).isSome := by
  rw [symbolsAt, targetAt]
  cases d.rows.find? S with
  | none => rfl
  | some row => exact (OrderedMap.contains_keys ..).trans (OrderedMap.isSome_find? ..).symm

/-- The records are those of the states, one state after the other. -/
theorem records_eq_flatMap (d : Dfa) : d.records = d.states.toList.flatMap d.recordsAt := by
  rw [records, states, OrderedMap.keys, List.flatMap_map]
  refine List.flatMap_congr fun entry hentry => ?_
  have hrow : d.rows.find? entry.1 = some entry.2 := find?_rows_of_mem hentry
  dsimp only
  rw [Row.records, recordsAt, symbolsAt, hrow, List.filterMap_eq_flatMap_toList]
  refine List.flatMap_congr fun a _ => ?_
  rw [targetAt, hrow, Option.bind_some, Option.toList_map]

theorem of_mem_recordsAt {r : ValueSet × Value × ValueSet} (hr : r ∈ d.recordsAt S) :
    r.1 = S ∧ r.2.1 ∈ (d.symbolsAt S).toList := by
  obtain ⟨a, ha, hr⟩ := List.mem_flatMap.mp hr
  obtain ⟨T, -, rfl⟩ := List.mem_map.mp hr
  exact ⟨rfl, ValueSet.mem_sorted.mp ha⟩

/-- The records of a state are those with this source. -/
theorem filter_records_of_mem (hR : R ∈ d.states.toList) (hRS : (R == S) = true) :
    (d.records.filter fun r => r.1 == S) = d.recordsAt R := by
  rw [records_eq_flatMap]
  refine filter_flatMap_eq d.states.nodup_toList hR fun R' hR' r hr => ?_
  rw [(of_mem_recordsAt hr).1]
  exact ⟨fun h => OrderedSet.eq_of_beq_of_mem hR' hR (BEq.trans h (BEq.symm hRS)), fun h => h ▸ hRS⟩

/-- Of the records of a state, one has a symbol for which a target was set. -/
theorem map_filter_recordsAt (d : Dfa) (S : ValueSet) (a : Value) :
    ((d.recordsAt S).filter fun r => r.2.1 == a).map (·.2.2) = (d.targetAt S a).toList := by
  cases hcontains : (d.symbolsAt S).contains a with
  | false =>
    have hnone : (d.recordsAt S).filter (fun r => r.2.1 == a) = [] := by
      refine List.filter_eq_nil_iff.mpr fun r hr hra => ?_
      rw [← OrderedSet.contains_congr _ hra,
        OrderedSet.contains_of_mem (of_mem_recordsAt hr).2] at hcontains
      cases hcontains
    rw [contains_symbolsAt, Option.isSome_eq_false_iff, Option.isNone_iff_eq_none] at hcontains
    rw [hnone, hcontains]
    rfl
  | true =>
    -- The symbol may be spelled differently in the row.
    obtain ⟨b, hb, hba⟩ := OrderedSet.contains_iff.mp hcontains
    have hsorted : (d.symbolsAt S).sorted.Nodup :=
      (perm_sortSymbols _).nodup_iff.mpr (OrderedSet.nodup_toList _)
    rw [recordsAt, filter_flatMap_eq hsorted (ValueSet.mem_sorted.mpr hb), targetAt_congr hba,
      List.map_map]
    · exact List.map_id _
    · intro b' hb' r hr
      obtain ⟨U, -, rfl⟩ := List.mem_map.mp hr
      exact ⟨fun h => OrderedSet.eq_of_beq_of_mem (ValueSet.mem_sorted.mp hb') hb
        (BEq.trans h (BEq.symm hba)), fun h => h ▸ hba⟩

/-- There is one record for each target that was set. -/
theorem map_filter_records (d : Dfa) (S : ValueSet) (a : Value) :
    (d.records.filter fun r => r.1 == S && r.2.1 == a).map (·.2.2) = (d.targetAt S a).toList := by
  have hfilter : d.records.filter (fun r => r.1 == S && r.2.1 == a) =
      (d.records.filter fun r => r.1 == S).filter fun r => r.2.1 == a := by
    rw [List.filter_filter]
    exact List.filter_congr fun _ _ => Bool.and_comm ..
  rw [hfilter]
  cases hS : d.hasState S with
  | false =>
    have hnone : d.records.filter (fun r => r.1 == S) = [] := by
      refine List.filter_eq_nil_iff.mpr fun r hr hrS => ?_
      rw [records_eq_flatMap] at hr
      obtain ⟨R, hR, hr⟩ := List.mem_flatMap.mp hr
      rw [← hasState_congr hrS, (of_mem_recordsAt hr).1, hasState_of_mem hR] at hS
      cases hS
    rw [hnone, targetAt_of_hasState_eq_false hS]
    rfl
  | true =>
    obtain ⟨R, hR, hRS⟩ := exists_mem_of_hasState hS
    have htarget : d.targetAt R a = d.targetAt S a := by
      rw [targetAt, targetAt, OrderedMap.find?_congr _ hRS]
    rw [filter_records_of_mem hR hRS, map_filter_recordsAt, htarget]

/-! ### Lookups succeed -/

section Reading

variable [DigitLimit]

/-- The row of a state is there, and so are the targets of its symbols. -/
theorem readRecordsOf?_eq (hS : S ∈ d.states.toList) : d.readRecordsOf? S =
    if sortable (d.symbolsAt S).toList then .ok (d.recordsAt S) else .error .tooManyDigits := by
  obtain ⟨row, hrow⟩ := exists_row_of_hasState (hasState_of_mem hS)
  have hsymbols : d.symbolsAt S = row.targets.keys := by
    rw [symbolsAt, hrow]
    rfl
  have htarget : ∀ a ∈ row.targets.keys.toList, ∃ T, row.targets.find? a = some T ∧
      d.targetAt S a = some T := by
    intro a ha
    obtain ⟨T, hT⟩ := OrderedMap.mem_keys_iff.mp ha
    have hfind := OrderedMap.find?_eq_some_of_mem hT BEq.rfl
    exact ⟨T, hfind, by rw [targetAt, hrow, Option.bind_some, hfind]⟩
  have hread : ∀ a ∈ sortSymbols row.targets.keys.toList,
      (do return (S, a, ← row.targets.require? a (.value a)) : Except AutomatonError _) =
        .ok (S, a, (d.targetAt S a).getD .empty) := by
    intro a ha
    obtain ⟨T, hfind, hT⟩ := htarget a ((perm_sortSymbols _).mem_iff.mp ha)
    rw [OrderedMap.require?_eq_ok _ hfind, hT]
    rfl
  rw [readRecordsOf?, OrderedMap.require?_eq_ok _ hrow, recordsAt, hsymbols]
  change (do let symbols ← orTooManyDigits (sortSymbols? row.targets.keys.toList); _) = _
  rw [sortSymbols?_eq]
  cases hsortable : sortable row.targets.keys.toList with
  | false => rfl
  | true =>
    refine (mapM_eq_ok_map hread).trans (congrArg _ ?_)
    rw [List.map_eq_flatMap]
    refine List.flatMap_congr fun a ha => ?_
    obtain ⟨T, -, hT⟩ := htarget a ((perm_sortSymbols _).mem_iff.mp ha)
    rw [hT]
    rfl

theorem recordable_eq_all (d : Dfa) :
    d.recordable = d.states.toList.all fun S => sortable (d.symbolsAt S).toList := by
  rw [recordable, states, OrderedMap.keys, List.all_map, Bool.eq_iff_iff, List.all_eq_true,
    List.all_eq_true]
  refine forall₂_congr fun entry hentry => ?_
  rw [Function.comp, symbolsAt, find?_rows_of_mem hentry]
  rfl

/-- The lookups on the way to the records succeed. -/
theorem readRecords?_eq (d : Dfa) :
    d.readRecords? = if d.recordable then .ok d.records else .error .tooManyDigits := by
  rw [readRecords?, mapM_eq_ite fun S hS => readRecordsOf?_eq hS, ← recordable_eq_all,
    records_eq_flatMap]
  split <;> rfl

omit [DigitLimit] in
theorem acceptStates_eq_filter (d : Dfa) :
    d.acceptStates = d.states.toList.filter d.acceptsAt := by
  rw [acceptStates, states, OrderedMap.keys, List.filter_map]
  refine congrArg _ (List.filter_congr fun entry hentry => ?_)
  rw [Function.comp, acceptsAt, find?_rows_of_mem hentry]
  rfl

/-- A state is listed among the accepting ones if it is one. -/
theorem readAccepting?_eq (hS : S ∈ d.states.toList) : d.readAccepting? S =
    if !d.acceptsAt S || sortable S.toList then
      .ok (if d.acceptsAt S then [.list S.sorted] else [])
    else .error .tooManyDigits := by
  rw [readAccepting?, isAccepting?_eq_acceptsAt, if_pos (hasState_of_mem hS), listed?_eq]
  cases d.acceptsAt S <;> cases sortable S.toList <;> rfl

/-- The lookups on the way to the data succeed. -/
theorem readData?_eq (d : Dfa) : d.readData? = d.toValue? := by
  have haccepting : (d.states.toList.mapM d.readAccepting?).map List.flatten =
      d.acceptStates.mapM listed? := by
    rw [mapM_eq_ite fun S hS => readAccepting?_eq hS, mapM_eq_ite fun S _ => listed?_eq S,
      acceptStates_eq_filter, List.all_filter]
    split
    · refine congrArg Except.ok ?_
      rw [← List.flatMap_def, ← List.filterMap_eq_map, List.filterMap_filter,
        List.filterMap_eq_flatMap_toList]
      exact List.flatMap_congr fun S _ => by cases d.acceptsAt S <;> rfl
    · rfl
  rw [readData?, toValue?, ← haccepting, readRecords?_eq, records?_eq]
  cases d.states.toList.mapM d.readAccepting? <;> rfl

end Reading

/-! ### The text -/

theorem Sound.after (h : d.Sound) (calls : List Call) : (d.after calls).Sound := by
  induction calls generalizing d with
  | nil => exact h
  | cons c calls ih => exact ih (h.next c)

theorem gapAt_eq_nil_iff : d.gapAt S a = [] ↔ d.targetAt S a ≠ none := by
  rw [gapAt]
  split <;> simp_all

theorem head?_gapAt_eq_some_iff {e : AutomatonError} :
    (d.gapAt S a).head? = some e ↔ d.targetAt S a = none ∧ e = .missing (.value a) := by
  rw [gapAt]
  split <;> simp_all [eq_comm]

theorem reports_faultUnless {α : Type} (written : Bool) (x : α) :
    Reports (if written then .ok x else .error .tooManyDigits) (faultUnless written) := by
  cases written
  · exact .error _ []
  · exact .ok x

theorem eq_of_mem_faultUnless {written : Bool} {e : AutomatonError}
    (he : e ∈ faultUnless written) : e = .tooManyDigits := by
  cases written with
  | false => exact List.mem_singleton.mp he
  | true => cases he

/-- The text meets gaps and values that cannot be written, and no other faults. -/
theorem of_head?_flatMap_faultsAt [DigitLimit] {e : AutomatonError}
    (he : (d.states.toList.flatMap d.faultsAt).head? = some e) :
    e = .tooManyDigits ∨ ∃ a, e = .missing (.value a) := by
  obtain ⟨S, -, he⟩ := List.mem_flatMap.mp (List.mem_of_head? he)
  rw [faultsAt, List.mem_append, List.mem_append, List.mem_flatMap] at he
  rcases he with he | he | ⟨a, -, he⟩
  · exact .inl (eq_of_mem_faultUnless he)
  · exact .inl (eq_of_mem_faultUnless he)
  · rw [faultsOf, List.mem_append, List.mem_append] at he
    rcases he with he | he | he
    · exact .inl (eq_of_mem_faultUnless he)
    · rw [gapAt] at he
      split at he
      · exact .inr ⟨a, List.mem_singleton.mp he⟩
      · cases he
    · exact .inl (eq_of_mem_faultUnless he)

/-- A record has a source, a symbol for which a target was set, and this target. -/
theorem of_mem_records {r : ValueSet × Value × ValueSet} (hr : r ∈ d.records) :
    r.1 ∈ d.states.toList ∧ r.2.1 ∈ (d.symbolsAt r.1).toList ∧
      d.targetAt r.1 r.2.1 = some r.2.2 := by
  obtain ⟨S, hS, hr⟩ := List.mem_flatMap.mp (records_eq_flatMap d ▸ hr)
  obtain ⟨a, ha, hr⟩ := List.mem_flatMap.mp hr
  obtain ⟨T, hT, rfl⟩ := List.mem_map.mp hr
  exact ⟨hS, ValueSet.mem_sorted.mp ha, Option.mem_toList.mp hT⟩

/-- Without a limit on digits, everything can be shown. -/
theorem showable_of_unlimited [DigitLimit] (hlimit : DigitLimit.maxDigits = 0) (d : Dfa)
    (entries : List Entry) : d.Showable entries := by
  have hwritable (S : ValueSet) : S.writable = true :=
    ValueSet.writable_iff.mpr fun x _ => Value.writable_of_unlimited hlimit x
  exact ⟨hwritable d.start, fun S _ => hwritable S,
    fun a _ => Value.writable_of_unlimited hlimit a, fun _ _ T _ => hwritable T⟩

namespace Sound

variable (h : d.Sound)

include h

theorem contains_of_mem_symbolsAt (ha : a ∈ (d.symbolsAt S).toList) :
    d.alphabet.contains a = true := by
  have htarget := (d.contains_symbolsAt S a).symm.trans (OrderedSet.contains_of_mem ha)
  obtain ⟨T, hT⟩ := Option.isSome_iff_exists.mp htarget
  exact h.known S a T hT

theorem reports_step? (hS : S ∈ d.states.toList) (ha : a ∈ d.alphabet.toList) :
    Reports (d.step? S a) (d.gapAt S a) := by
  rw [step?_eq_targetAt (h.alphabet a ha), if_pos (hasState_of_mem hS),
    if_pos (OrderedSet.contains_of_mem ha), gapAt]
  cases d.targetAt S a with
  | none => exact .error _ []
  | some T => exact .ok T

theorem targetAt_of_step?_eq_ok {T : ValueSet} (hS : S ∈ d.states.toList)
    (ha : a ∈ d.alphabet.toList) (hstep : d.step? S a = .ok T) : d.targetAt S a = some T := by
  rw [step?_eq_targetAt (h.alphabet a ha), if_pos (hasState_of_mem hS),
    if_pos (OrderedSet.contains_of_mem ha)] at hstep
  cases htarget : d.targetAt S a with
  | none =>
    rw [htarget] at hstep
    cases hstep
  | some U =>
    rw [htarget] at hstep
    exact congrArg some (Except.ok.inj hstep)

section Text

variable [DigitLimit]

theorem reports_transitionLine? (hS : S ∈ d.states.toList) (ha : a ∈ d.alphabet.toList) :
    Reports (d.transitionLine? S a) (d.faultsOf S a) := by
  rw [transitionLine?_eq, faultsOf]
  cases a.writable with
  | false => exact .error _ _
  | true =>
    have hline : Reports (d.step? S a >>= fun T =>
        if T.writable then .ok (transitionLine a T) else .error .tooManyDigits)
        (d.gapAt S a ++ faultUnless ((d.targetAt S a).all ValueSet.writable)) := by
      refine (h.reports_step? hS ha).bind fun T hT => ?_
      rw [h.targetAt_of_step?_eq_ok hS ha hT]
      exact reports_faultUnless _ _
    exact hline

theorem reports_stateLines? (hS : S ∈ d.states.toList) :
    Reports (d.stateLines? S) (d.faultsAt S) := by
  have hlines : Reports (d.alphabet.sorted.mapM (d.transitionLine? S))
      (d.alphabet.sorted.flatMap (d.faultsOf S)) :=
    .mapM fun a ha => h.reports_transitionLine? hS (ValueSet.mem_sorted.mp ha)
  have hsymbols : Reports (orTooManyDigits d.alphabet.sorted?)
      (faultUnless (sortable d.alphabet.toList)) := by
    rw [ValueSet.sorted?_eq]
    cases sortable d.alphabet.toList
    · exact .error _ []
    · exact .ok _
  rw [stateLines?, isAccepting?_eq_acceptsAt, if_pos (hasState_of_mem hS)]
  change Reports (d.header? S (d.acceptsAt S) >>= _) _
  rw [header?_eq]
  refine (reports_faultUnless _ _).bind fun header _ => hsymbols.bind fun symbols hsorted => ?_
  obtain rfl : d.alphabet.sorted = symbols := by
    rw [ValueSet.sorted?_eq] at hsorted
    split at hsorted
    · exact Except.ok.inj hsorted
    · cases hsorted
  exact hlines.map

/-- The text meets the faults in the order of the states and of the sorted symbols. -/
theorem reports_render? : Reports d.render? (d.states.toList.flatMap d.faultsAt) := by
  have hblocks : Reports (d.states.toList.mapM d.stateLines?)
      (d.states.toList.flatMap d.faultsAt) := .mapM fun S hS => h.reports_stateLines? hS
  exact hblocks.map

/-- There is no text if the first state cannot be written. -/
theorem render?_of_not_writable (hS : d.states.toList.head? = some S) (hwritable : S.writable = false) :
    d.render? = .error .tooManyDigits := by
  obtain ⟨others, hstates⟩ := List.head?_eq_some_iff.mp hS
  rw [h.reports_render?.eq_error_iff, hstates, List.flatMap_cons, faultsAt, hwritable]
  rfl

variable (hd : d.Reflects entries) (hshow : d.Showable entries)

include hd hshow

omit h in
/-- If everything can be shown, the faults are the gaps. -/
theorem flatMap_faultsAt_eq : d.states.toList.flatMap d.faultsAt =
    d.states.toList.flatMap fun S => d.alphabet.sorted.flatMap (d.gapAt S) := by
  refine List.flatMap_congr fun S hS => ?_
  have hsortable : sortable d.alphabet.toList = true :=
    sortable_of_writable (List.all_eq_true.mpr hshow.symbols)
  have hlines : d.alphabet.sorted.flatMap (d.faultsOf S) =
      d.alphabet.sorted.flatMap (d.gapAt S) := by
    refine List.flatMap_congr fun a ha => ?_
    have htarget : (d.targetAt S a).all ValueSet.writable = true := by
      rw [Option.all_eq_true]
      exact fun T hT => hshow.targets S a T (hd.target S a ▸ hT)
    rw [faultsOf, hshow.symbols a (ValueSet.mem_sorted.mp ha), htarget]
    exact List.append_nil _
  rw [faultsAt, hshow.states S hS, hsortable, hlines]
  rfl

/-- The text is missing if and only if there is a gap. -/
theorem exists_render?_eq_error_iff : (∃ e, d.render? = .error e) ↔
    ∃ S ∈ d.states.toList, ∃ a ∈ d.alphabet.toList, lastTarget? entries S a = none := by
  have hok := h.reports_render?.exists_eq_ok_iff
  rw [flatMap_faultsAt_eq hd hshow] at hok
  simp only [List.flatMap_eq_nil_iff, gapAt_eq_nil_iff, ValueSet.mem_sorted, hd.target] at hok
  have hfails : (∃ e, d.render? = .error e) ↔ ¬ ∃ text, d.render? = .ok text := by
    cases d.render? <;> simp
  simp only [hfails, hok, not_forall, exists_prop, not_not]

/-- The error is that of the first gap. -/
theorem render?_eq_error_iff {e : AutomatonError} :
    d.render? = .error e ↔ ∃ S a, d.FirstGap entries S a ∧ e = .missing (.value a) := by
  rw [h.reports_render?.eq_error_iff, flatMap_faultsAt_eq hd hshow, head?_flatMap_eq_some_iff]
  simp only [head?_flatMap_eq_some_iff, List.flatMap_eq_nil_iff, gapAt_eq_nil_iff,
    head?_gapAt_eq_some_iff, ValueSet.mem_sorted, hd.target]
  constructor
  · rintro ⟨before, S, after, hstates, hbefore, earlier, a, later, hsorted, hearlier, hgap, rfl⟩
    exact ⟨S, a, ⟨before, after, earlier, later, hstates, hsorted, hbefore, hearlier, hgap⟩, rfl⟩
  · rintro ⟨S, a, ⟨before, after, earlier, later, hstates, hsorted, hbefore, hearlier, hgap⟩, rfl⟩
    exact ⟨before, S, after, hstates, hbefore, earlier, a, later, hsorted, hearlier, hgap, rfl⟩

/-- If everything can be shown, the symbols and the members of all sets can be sorted. -/
theorem listable_of_showable : d.recordable = true ∧ d.listable = true := by
  have hrecordable : d.recordable = true := by
    rw [recordable_eq_all, List.all_eq_true]
    refine fun S hS => sortable_of_writable (List.all_eq_true.mpr fun a ha => ?_)
    obtain ⟨b, hb, hba⟩ := OrderedSet.contains_iff.mp (h.contains_of_mem_symbolsAt ha)
    rw [← Value.writable_congr hba]
    exact hshow.symbols b hb
  have hsortable {S : ValueSet} (hS : S.writable = true) : sortable S.toList = true :=
    sortable_of_writable hS
  refine ⟨hrecordable, ?_⟩
  simp only [listable, Bool.and_eq_true, List.all_eq_true]
  refine ⟨⟨⟨⟨hsortable hshow.start, ?_⟩, fun S hS => ?_⟩, hrecordable⟩, fun r hr => ?_⟩
  · exact sortable_of_writable (List.all_eq_true.mpr hshow.symbols)
  · rw [acceptStates_eq_filter] at hS
    exact hsortable (hshow.states S (List.mem_of_mem_filter hS))
  · obtain ⟨hsource, -, htarget⟩ := of_mem_records hr
    rw [hd.target] at htarget
    exact ⟨hsortable (hshow.states _ hsource), hsortable (hshow.targets _ _ _ htarget)⟩

end Text

/-- An automaton renders the log that it reflects. -/
theorem renders [DigitLimit] (hd : d.Reflects entries) : d.Renders entries where
  states := hd.states
  reads := d.readRecords?_eq.trans d.records?_eq.symm
  readsData := d.readData?_eq
  records := d.records?_eq
  data := d.toValue?_eq
  sorts := h.listable_of_showable hd
  transitions := rfl
  recorded S a := by rw [map_filter_records, hd.target]
  sources r hr := by
    obtain ⟨hsource, hsymbol, -⟩ := of_mem_records hr
    exact ⟨hsource, h.contains_of_mem_symbolsAt hsymbol⟩
  grouped := by
    rw [List.flatMap_congr fun S hS => filter_records_of_mem hS BEq.rfl]
    exact d.records_eq_flatMap
  fails_iff := h.exists_render?_eq_error_iff hd
  failure hshow _ := h.render?_eq_error_iff hd hshow
  firstFault _ := h.reports_render?.eq_error_iff
  knownStates s hs := by
    rcases of_head?_flatMap_faultsAt (h.reports_render?.eq_error_iff.mp hs) with he | ⟨a, he⟩ <;>
      cases he
  knownSymbols a s hs := by
    rcases of_head?_flatMap_faultsAt (h.reports_render?.eq_error_iff.mp hs) with he | ⟨b, he⟩ <;>
      cases he

end Sound

/-- Whatever calls were made, the records and the data of an automaton can be read and tell what was
set, and the text exists unless a state lacks a target, the first one of which is then reported. This
holds as it stands without a limit on digits, for then everything can be shown. -/
theorem renders_after [DigitLimit] (start alphabet : Value) (d : Dfa)
    (h : new? start alphabet = .ok d) (calls : List Call) :
    (d.after calls).Renders (d.log calls) ∧
      (DigitLimit.maxDigits = 0 → (d.after calls).Showable (d.log calls)) :=
  ⟨((sound_of_new? h).after calls).renders ((reflects_of_new? h).after calls),
    fun hlimit => showable_of_unlimited hlimit _ _⟩

/-- Two states are added. The first has targets for all symbols, one of them a set that was never
added; the second, whose targets are set before, has a target for one symbol only. -/
def patchy : List Call :=
  [.addState (.list [.int 0]) false, .addState (.list [.int 1]) true,
    .addTransition (.list [.int 1]) (.text "b") (.list [.int 7]),
    .addTransition (.list [.int 0]) (.text "c") (.list [.int 1]),
    .addTransition (.list [.int 0]) (.text "b") (.list [.int 0]),
    .addTransition (.list [.int 0]) (.text "a") (.list [.int 1]),
    .addTransition (.list [.int 0]) (.text "a") (.list [.int 7])]

/-- What these calls write. -/
def patched : List Entry :=
  [.state (.ofList [.int 0]) false, .state (.ofList [.int 1]) true,
    .target (.ofList [.int 1]) (.text "b") (.ofList [.int 7]),
    .target (.ofList [.int 0]) (.text "c") (.ofList [.int 1]),
    .target (.ofList [.int 0]) (.text "b") (.ofList [.int 0]),
    .target (.ofList [.int 0]) (.text "a") (.ofList [.int 1]),
    .target (.ofList [.int 0]) (.text "a") (.ofList [.int 7])]

theorem writable_of_lastTarget?_patched {T : ValueSet} (h : lastTarget? patched S a = some T) :
    T.writable = true := by
  obtain ⟨S', a', he, -⟩ := exists_target_of_lastTarget?_eq_some h
  have htargets : T = .ofList [.int 0] ∨ T = .ofList [.int 1] ∨ T = .ofList [.int 7] := by
    simp only [patched, List.mem_cons, reduceCtorEq, Entry.target.injEq, List.not_mem_nil] at he
    grind
  rcases htargets with rfl | rfl | rfl <;> decide

/-- The symbols are given in another order than that in which they are looked at. -/
theorem renders_after_patchy :
    ∃ d, new? (.list [.int 0]) (.list [.text "c", .text "b", .text "a"]) = .ok d ∧
      (d.after patchy).render? = .error (.missing (.value (.text "a"))) ∧
      (d.after patchy).records? = .ok (d.after patchy).records ∧
      ((d.after patchy).records.filter fun r =>
        r.1 == .ofList [.int 0] && r.2.1 == .text "a").map (·.2.2) = [.ofList [.int 7]] := by
  let d : Dfa := ⟨.ofList [.int 0], .ofList [.text "c", .text "b", .text "a"], .empty, false⟩
  have hlog : d.log patchy = patched := rfl
  have halphabet : (d.after patchy).alphabet = d.alphabet := (d.after_fields patchy).2
  have hsorted : d.alphabet.sorted = [.text "a", .text "b", .text "c"] := by decide
  obtain ⟨h, -⟩ := renders_after (.list [.int 0]) (.list [.text "c", .text "b", .text "a"]) d rfl
    patchy
  rw [hlog] at h
  have hstates : (d.after patchy).states.toList = [.ofList [.int 0], .ofList [.int 1]] := by
    rw [h.states]
    rfl
  have hshow : (d.after patchy).Showable patched := by
    refine ⟨?_, ?_, ?_, fun _ _ _ => writable_of_lastTarget?_patched⟩
    · rw [(d.after_fields patchy).1]
      decide
    · rw [hstates]
      decide
    · rw [halphabet]
      decide
  refine ⟨d, rfl, (h.failure hshow _).mpr ⟨.ofList [.int 1], .text "a", ?_, rfl⟩,
    h.records.trans (if_pos (h.sorts hshow).1), h.recorded ..⟩
  refine ⟨[.ofList [.int 0]], [], [], [.text "b", .text "c"], hstates, ?_, ?_, nofun, rfl⟩
  · rw [halphabet, hsorted]
    rfl
  · rw [halphabet]
    decide

/-- The empty set is added, to which all symbols lead. One of these is an integer with too many digits. -/
def immense : List Call :=
  [.addState (.list []) false, .addTransition (.list []) .null (.list []),
    .addTransition (.list []) (.int (10 ^ digitLimit : Nat)) (.list [])]

/-- Not every automaton in which no transition is missing has a text: a state may have none. And there are
automata without records and data, for their symbols cannot be sorted. -/
theorem not_shown_after_immense :
    (∃ d, new? (.list []) (.list []) = .ok d ∧
      (d.after [.addState (.list [.int (10 ^ digitLimit : Nat)]) false]).render? =
        .error .tooManyDigits) ∧
    ∃ d, new? (.list []) (.list [.null, .int (10 ^ digitLimit : Nat)]) = .ok d ∧
      (d.after immense).records? = .error .tooManyDigits ∧
      (d.after immense).toValue? = .error .tooManyDigits := by
  constructor
  · let d : Dfa := ⟨.empty, .empty, .empty, false⟩
    have hnew : new? (.list []) (.list []) = .ok d := rfl
    have hwritable : ValueSet.writable (OrderedSet.ofList [.int (10 ^ digitLimit : Nat)]) = false := by
      have hmembers : (OrderedSet.ofList [Value.int (10 ^ digitLimit : Nat)]).toList =
          [.int (10 ^ digitLimit : Nat)] := rfl
      have hmember : (Value.int (10 ^ digitLimit : Nat)).writable = false :=
        Value.writable_ten_pow (by decide)
      rw [ValueSet.writable, hmembers, List.all_cons, hmember, Bool.false_and]
    exact ⟨d, hnew, ((sound_of_new? hnew).after _).render?_of_not_writable rfl hwritable⟩
  · let d : Dfa := ⟨.empty, .ofList [.null, .int (10 ^ digitLimit : Nat)], .empty, false⟩
    have hkeys : (d.after immense).rows.entries.map (fun x => x.2.targets.keys.toList) =
        [[.null, .int (10 ^ digitLimit : Nat)]] := by decide +kernel
    have hsortable : sortable [.null, .int (10 ^ digitLimit : Nat)] = false :=
      sortable_null_ten_pow (by decide)
    have hrecordable : (d.after immense).recordable = false := by
      have hall := List.all_map (f := fun x : ValueSet × Row => x.2.targets.keys.toList)
        (p := sortable) (l := (d.after immense).rows.entries)
      rw [hkeys, List.all_cons, hsortable, Bool.false_and] at hall
      exact hall.symm
    refine ⟨d, rfl, ?_, ?_⟩
    · rw [records?_eq, hrecordable, if_neg Bool.false_ne_true]
    · rw [toValue?_eq, listable, hrecordable, Bool.and_false, Bool.false_and,
        if_neg Bool.false_ne_true]

end Dfa

end Determinize
