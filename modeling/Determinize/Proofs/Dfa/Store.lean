import Determinize.Dfa.Store
import Determinize.Proofs.Collection.Related
import Determinize.Proofs.Dfa.History

/-!
# The parts of an automaton are in step

A deterministic automaton is kept in three parts, which are changed one after the other: the list of the
states, the set of the accepting states and the table. Each call leaves them in step. The list has the
states of the table in their order, and only states are accepting. A call that fails does so before it
has changed a part, and so it leaves all of them as they were.

The parts together are an automaton with a table of rows. A call does with the parts what it does with
that automaton, and the parts answer what it answers. So they reflect what was written, and everything
that they answer can be read off from that.

## Main definitions

* `Dfa.Store.perform`, `Dfa.Store.after` — calls, and what they leave of the parts.
* `Dfa.Store.Sound` — the parts are in step.
* `Dfa.Store.AnswersLike` — the parts answer what an automaton answers.
* `Dfa.Store.Reflects` — the parts are those of a log.
* `Dfa.Store.Answers` — what the parts are and answer, read off from a log.

## Main results

* `Dfa.Store.perform_cases` — what a call can do.
* `Dfa.Store.toDfa_after`, `Dfa.Store.answersLike_after` — calls do with the parts what they do with the
  automaton.
* `Dfa.Store.beq_toDfa` — equality of the parts is equality of the automata.
* `Dfa.Store.answers_after` — what the parts are and answer after any history.
-/

namespace Determinize

namespace OrderedSet

variable {α : Type} [BEq α]

theorem beq_empty_iff [EquivBEq α] {s : OrderedSet α} :
    (s == empty) = true ↔ s.isEmpty = true := by
  constructor
  · intro h
    rw [eq_empty_of_forall fun a => (beq_iff.mp h a).trans (contains_empty a)]
    rfl
  · intro h
    rw [eq_of_toList_eq (s := s) (t := empty) (List.isEmpty_iff.mp h)]
    exact BEq.rfl

end OrderedSet

namespace OrderedMap

variable {κ ν μ : Type} [BEq κ] {m : OrderedMap κ ν} {k : κ} {f g : κ → ν → μ}

theorem eq_of_entries_eq {m n : OrderedMap κ ν} (h : m.entries = n.entries) : m = n := by
  cases m
  cases n
  cases h
  rfl

/-- Values that are read off after writing a key can be written instead, if they are read off alike from
the other keys. -/
theorem mapValues_alter [EquivBEq κ] {write : Option ν → ν} {write' : Option μ → μ}
    (hother : ∀ e ∈ m.entries, (e.1 == k) = false → f e.1 e.2 = g e.1 e.2)
    (hfound : ∀ e ∈ m.entries, (e.1 == k) = true →
      f e.1 (write (some e.2)) = write' (some (g e.1 e.2)))
    (hnew : m.contains k = false → f k (write none) = write' none) :
    (m.alter k write).mapValues f = (m.mapValues g).alter k write' := by
  obtain ⟨entries, hdistinct⟩ := m
  simp only [alter, mapValues, contains, mk.injEq] at hnew ⊢
  induction entries with
  | nil => rw [alterEntries, List.map_nil, alterEntries, List.map_singleton, hnew rfl]
  | cons e entries ih =>
    obtain ⟨l, v⟩ := e
    rw [List.pairwise_cons] at hdistinct
    rw [List.forall_mem_cons] at hother hfound
    rw [List.any_cons, Bool.or_eq_false_iff] at hnew
    simp only [alterEntries, List.map_cons]
    cases hl : l == k with
    | true =>
      -- The keys are distinct, so that the other ones differ from the one that is written.
      have hrest : entries.map (fun e => (e.1, f e.1 e.2)) =
          entries.map fun e => (e.1, g e.1 e.2) :=
        List.map_congr_left fun e he => by
          rw [hother.2 e he (Bool.eq_false_iff.mpr fun hk => ?_)]
          exact Bool.eq_false_iff.mp (hdistinct.1 e he) (BEq.trans hl (BEq.symm hk))
      have hwritten := hfound.1 hl
      dsimp only at hwritten
      rw [if_pos rfl, if_pos rfl, List.map_cons, hwritten, hrest]
    | false =>
      have hkept := hother.1 hl
      dsimp only at hkept
      rw [if_neg Bool.false_ne_true, if_neg Bool.false_ne_true, List.map_cons, hkept,
        ih hdistinct.2 hother.2 hfound.2 fun hrest => hnew ⟨hl, hrest⟩]

/-- Setting the value of a new key. -/
theorem insert_eq_alter {write : Option ν → ν} {v : ν} (hk : m.contains k = false)
    (hwrite : write none = v) : m.insert k v = m.alter k write := by
  obtain ⟨entries, hdistinct⟩ := m
  simp only [insert, alter, mk.injEq]
  simp only [contains] at hk
  induction entries with
  | nil => rw [alterEntries, alterEntries, hwrite]
  | cons e entries ih =>
    rw [List.any_cons, Bool.or_eq_false_iff] at hk
    rw [alterEntries, alterEntries, hk.1, if_neg Bool.false_ne_true, if_neg Bool.false_ne_true,
      ih (List.pairwise_cons.mp hdistinct).2 hk.2]

theorem find?_mapValues (hf : ∀ l v, (l == k) = true → f l v = f k v) :
    (m.mapValues f).find? k = (m.find? k).map (f k) := by
  simp only [find?, mapValues, List.find?_map, Option.map_map]
  cases h : m.entries.find? fun e => e.1 == k with
  | none => simp [Function.comp_def, h]
  | some e =>
    have hk := List.find?_some h
    simp [Function.comp_def, h, hf e.1 e.2 hk]

theorem keys_mapValues (m : OrderedMap κ ν) (f : κ → ν → μ) : (m.mapValues f).keys = m.keys :=
  OrderedSet.eq_of_toList_eq (by simp [keys, mapValues])

theorem contains_mapValues (m : OrderedMap κ ν) (f : κ → ν → μ) (k : κ) :
    (m.mapValues f).contains k = m.contains k := by
  rw [← contains_keys, keys_mapValues, contains_keys]

theorem contains_alter [EquivBEq κ] (m : OrderedMap κ ν) (k l : κ) (write : Option ν → ν) :
    (m.alter k write).contains l = (m.contains l || k == l) := by
  rw [← contains_keys, OrderedSet.eq_of_toList_eq (m.toList_keys_alter k write),
    OrderedSet.contains_insert, contains_keys]

end OrderedMap

namespace Dfa.Store

/-! ### Calls -/

/-- What a call does with the parts. -/
def perform : Call → Operation Unit
  | .addState state accepting => discard (addState state accepting)
  | .addTransition source symbol target => addTransition source symbol target
  | .freeze => freeze

/-- The parts that a call leaves, whether it succeeds or fails. -/
def next (s : Store) (c : Call) : Store :=
  match perform c s with
  | .ok _ s' => s'
  | .error _ s' => s'

/-- The parts that a list of calls leaves. -/
def after (s : Store) (calls : List Call) : Store := calls.foldl next s

/-- What the calls of a list write that succeed. -/
def log (s : Store) : List Call → List Entry
  | [] => []
  | c :: calls =>
    match perform c s with
    | .ok _ s' => c.entry?.toList ++ s'.log calls
    | .error _ s' => s'.log calls

/-- Writes an entry. -/
def write (s : Store) : Entry → Store
  | .state S accepting =>
    { s with
      states := if s.table.contains S then s.states else s.states ++ [S]
      accepting := if accepting then s.accepting.insert S else s.accepting
      table := s.table.alter S (·.getD .empty) }
  | .target S a T => { s with table := s.table.alter S fun row => (row.getD .empty).insert a T }
  | .freeze => { s with frozen := true }

/-- The parts are in step: the list has the states of the table in their order, and only states are
accepting. -/
structure Sound (s : Store) : Prop where
  states : s.states = s.table.keys.toList
  accepting : ∀ S ∈ s.accepting.toList, s.table.contains S = true

/-- The parts answer what an automaton answers. -/
structure AnswersLike (s : Store) (d : Dfa) : Prop where
  start : s.start = d.start
  alphabet : s.alphabet = d.alphabet
  frozen : s.frozen = d.frozen
  states : s.states = d.states.toList
  accepting : ∀ S, s.accepting.contains S = d.acceptStates.any (· == S)
  hasState : ∀ S, s.hasState S = d.hasState S
  step : ∀ S a, s.step? S a = d.step? S a
  isAccepting : ∀ S, s.isAccepting? S = d.isAccepting? S
  records : ∀ [DigitLimit], s.records? = d.records?

/-- The parts are in step, and they are those of a log. An accepting state is spelled as it was when it
was added first as an accepting one. -/
structure Reflects (s : Store) (entries : List Entry) : Prop where
  sound : s.Sound
  dfa : s.toDfa.Reflects entries
  accepting : s.accepting = .ofList (acceptingStates entries)

/-- What the parts are and answer that were made with a start and an alphabet and in which certain
entries were written. -/
structure Answers (s : Store) (start alphabet : ValueSet) (entries : List Entry) : Prop where
  start : s.start = start
  alphabet : s.alphabet = alphabet
  /-- The states that were added, each once, in the order in which they were added first. -/
  states : s.states = (OrderedSet.ofList (addedStates entries)).toList
  /-- Adding an accepting state again without accepting does not change it. -/
  accepting : s.accepting = .ofList (acceptingStates entries)
  sources : s.table.keys.toList = s.states
  symbols : ∀ S targets, (S, targets) ∈ s.table.entries →
    ∀ a T, (a, T) ∈ targets.entries → s.alphabet.contains a = true
  step : ∀ S a, a.Hashable → s.step? S a =
    if s.states.any (· == S) then
      if s.alphabet.contains a then
        match lastTarget? entries S a with
        | some T => .ok T
        | none => .error (.missing (.value a))
      else .error (.unknownSymbol a (some (.states S)))
    else .error (.unknownState (.states S))
  /-- A symbol that cannot be a member of a set is not looked up. -/
  step_of_not_hashable : ∀ S a, ¬ a.Hashable → ∃ fault, s.step? S a =
    if s.states.any (· == S) then .error (.shape fault) else .error (.unknownState (.states S))
  isAccepting : ∀ S, s.isAccepting? S =
    if s.states.any (· == S) then .ok ((acceptingStates entries).any (· == S))
    else .error (.unknownState (.states S))
  hasState : ∀ S, s.hasState S = s.states.any (· == S)
  hasState_iff_isAccepting : ∀ S, s.hasState S = true ↔ ∃ accepting, s.isAccepting? S = .ok accepting
  hasState_iff_step : ∀ S a, s.hasState S = true ↔ ∀ x, s.step? S a ≠ .error (.unknownState x)
  dead : s.hasDeadState = true ↔ ∃ S ∈ s.states, S.isEmpty = true
  frozen : s.frozen = true ↔ .freeze ∈ entries

variable {s t : Store} {c : Call} {e : Entry} {entries : List Entry} {S T : ValueSet} {a : Value}

theorem find?_rows (s : Store) (S : ValueSet) : s.toDfa.rows.find? S =
    (s.table.find? S).map fun targets => ⟨s.accepting.contains S, targets⟩ :=
  OrderedMap.find?_mapValues fun _ _ h => by rw [OrderedSet.contains_congr _ h]

theorem hasState_toDfa (s : Store) (S : ValueSet) : s.toDfa.hasState S = s.hasState S :=
  OrderedMap.contains_mapValues ..

/-! ### One call -/

section Operation

variable {α β : Type} {x : Operation α} {f : α → Operation β} {u : α} {fault : AutomatonError}

theorem bind_of_ok (h : x s = .ok u t) : (x >>= f) s = f u t := by
  change EStateM.bind x f s = _
  rw [EStateM.bind, h]

theorem bind_of_error (h : x s = .error fault t) : (x >>= f) s = .error fault t := by
  change EStateM.bind x f s = _
  rw [EStateM.bind, h]

theorem require_of_ok {y : Except AutomatonError α} (h : y = .ok u) (s : Store) :
    require y s = .ok u s := by
  rw [h]
  rfl

theorem require_of_error {y : Except AutomatonError α} (h : y = .error fault) (s : Store) :
    require y s = .error fault s := by
  rw [h]
  rfl

theorem requireMutable_of_frozen (h : s.frozen = true) : requireMutable s = .error .frozen s := by
  change (if s.frozen = true then (throw .frozen : Operation Unit) else pure ()) s = _
  rw [h]
  rfl

theorem requireMutable_of_not_frozen (h : s.frozen = false) : requireMutable s = .ok () s := by
  change (if s.frozen = true then (throw .frozen : Operation Unit) else pure ()) s = _
  rw [h]
  rfl

theorem requireSymbol_of_error {fault : ShapeError} (h : a.requireHashable = .error fault)
    (s : Store) : requireSymbol a s = .error (.shape fault) s :=
  bind_of_error (require_of_error (by rw [h]; rfl) s)

theorem requireSymbol_eq_ite (h : a.Hashable) (s : Store) : requireSymbol a s =
    if s.alphabet.contains a then .ok () s else .error (.unknownSymbol a none) s := by
  rw [requireSymbol, bind_of_ok (require_of_ok (by rw [Value.requireHashable_eq_ok h]; rfl) s)]
  change (if s.alphabet.contains a then (pure () : Operation Unit) else throw _) s = _
  split <;> rfl

theorem requireState_of_error {state : Value} {fault : ShapeError}
    (h : ValueSet.ofValue? state = .error fault) (s : Store) :
    requireState state s = .error (.shape fault) s :=
  bind_of_error (require_of_error (by rw [h]; rfl) s)

theorem requireState_eq_ite {state : Value} (h : ValueSet.ofValue? state = .ok S) (s : Store) :
    requireState state s =
      if s.hasState S then .ok S s else .error (.unknownState (.states S)) s := by
  rw [requireState, bind_of_ok (require_of_ok (by rw [h]; rfl) s)]
  change (if s.hasState S then (pure S : Operation ValueSet) else throw _) s = _
  split <;> rfl

end Operation

theorem perform_of_frozen (hfrozen : s.frozen = true) (hc : c ≠ .freeze) :
    perform c s = .error .frozen s := by
  cases c with
  | addState state accepting =>
    exact bind_of_error (bind_of_error (requireMutable_of_frozen hfrozen))
  | addTransition source symbol target => exact bind_of_error (requireMutable_of_frozen hfrozen)
  | freeze => exact absurd rfl hc

/-- Adding a state can only fail before the parts are changed. -/
theorem addState_cases (hfrozen : s.frozen = false) (state : Value) (accepting : Bool) :
    (∃ S, ValueSet.ofValue? state = .ok S ∧ s.toDfa.Permits (.state S accepting) ∧
        addState state accepting s = .ok S (s.write (.state S accepting))) ∨
      ∃ fault, s.toDfa.addState? state accepting = .error fault ∧
        addState state accepting s = .error fault s := by
  have hmutable : s.toDfa.requireMutable = .ok () := requireMutable_eq_ok_iff.mpr hfrozen
  rw [addState, bind_of_ok (requireMutable_of_not_frozen hfrozen)]
  cases hS : ValueSet.ofValue? state with
  | error fault =>
    refine .inr ⟨.shape fault, ?_, bind_of_error (require_of_error rfl s)⟩
    simp only [addState?, hmutable, hS]
    rfl
  | ok S =>
    refine .inl ⟨S, rfl, hfrozen, ?_⟩
    rw [bind_of_ok (require_of_ok (y := orShapeError (.ok S)) rfl s)]
    change (do
      unless s.table.contains S do
        modify fun s : Store => { s with states := s.states ++ [S] }
        modify fun s : Store => { s with table := s.table.insert S .empty }
      if accepting then modify fun s : Store => { s with accepting := s.accepting.insert S }
      return S : Operation ValueSet) s = _
    rw [write]
    cases hS : s.table.contains S with
    | true =>
      obtain ⟨targets, htargets⟩ := Option.isSome_iff_exists.mp (s.table.isSome_find? S ▸ hS)
      rw [OrderedMap.alter_eq_self htargets rfl]
      cases accepting <;> rfl
    | false =>
      rw [← OrderedMap.insert_eq_alter hS rfl]
      cases accepting <;> rfl

/-- Adding a transition can only fail before the table is changed. -/
theorem addTransition_cases (hfrozen : s.frozen = false) (source symbol target : Value) :
    (∃ S T, ValueSet.ofValue? source = .ok S ∧ ValueSet.ofValue? target = .ok T ∧
        s.toDfa.Permits (.target S symbol T) ∧
        addTransition source symbol target s = .ok () (s.write (.target S symbol T))) ∨
      ∃ fault, s.toDfa.addTransition? source symbol target = .error fault ∧
        addTransition source symbol target s = .error fault s := by
  have hmutable : s.toDfa.requireMutable = .ok () := requireMutable_eq_ok_iff.mpr hfrozen
  have halphabet : s.toDfa.alphabet = s.alphabet := rfl
  rw [addTransition, bind_of_ok (requireMutable_of_not_frozen hfrozen), addTransition?, hmutable]
  -- The symbol is looked at first, then the source and then the target.
  cases hhash : symbol.requireHashable with
  | error fault =>
    exact .inr ⟨.shape fault, rfl, bind_of_error (requireSymbol_of_error hhash s)⟩
  | ok =>
  have hsymbol := Value.hashable_of_requireHashable_eq_ok hhash
  have hknown := requireSymbol_eq_ite hsymbol s
  by_cases ha : s.alphabet.contains symbol = true
  case neg =>
    rw [if_neg ha] at hknown
    simp only [halphabet, if_neg ha]
    exact .inr ⟨.unknownSymbol symbol none, rfl, bind_of_error hknown⟩
  rw [if_pos ha] at hknown
  rw [bind_of_ok hknown]
  simp only [halphabet, if_pos ha]
  cases hS : ValueSet.ofValue? source with
  | error fault =>
    exact .inr ⟨.shape fault, rfl, bind_of_error (requireState_of_error hS s)⟩
  | ok S =>
  have hstate := requireState_eq_ite hS s
  by_cases hmem : s.hasState S = true
  case neg =>
    rw [if_neg hmem] at hstate
    refine .inr ⟨.unknownState (.states S), ?_, bind_of_error hstate⟩
    change (if s.toDfa.hasState S = true then _ else _) = _
    rw [hasState_toDfa, if_neg hmem]
    rfl
  rw [if_pos hmem] at hstate
  rw [bind_of_ok hstate]
  cases hT : ValueSet.ofValue? target with
  | error fault =>
    refine .inr ⟨.shape fault, ?_, bind_of_error (require_of_error rfl s)⟩
    change (if s.toDfa.hasState S = true then _ else _) = _
    rw [hasState_toDfa, if_pos hmem]
    rfl
  | ok T =>
    refine .inl ⟨S, T, rfl, rfl, ⟨hfrozen, hsymbol, ha, ?_⟩, rfl⟩
    rwa [hasState_toDfa]

/-- A call writes what it writes in the automaton, or it fails as it does with the automaton and leaves
all parts as they were. -/
theorem perform_cases (s : Store) (c : Call) :
    (∃ e, c.entry? = some e ∧ s.toDfa.Permits e ∧ perform c s = .ok () (s.write e)) ∨
      ∃ fault, s.toDfa.call c = .error fault ∧ perform c s = .error fault s := by
  by_cases hfrozen : s.frozen = true
  · rcases em (c = .freeze) with rfl | hc
    · exact .inl ⟨_, rfl, trivial, rfl⟩
    · exact .inr ⟨_, call_eq_error_of_frozen hfrozen hc, perform_of_frozen hfrozen hc⟩
  rw [Bool.not_eq_true] at hfrozen
  cases c with
  | addState state accepting =>
    obtain ⟨S, hS, hpermits, hadd⟩ | ⟨fault, hcall, hadd⟩ :=
      addState_cases hfrozen state accepting
    · exact .inl ⟨.state S accepting, by rw [Call.entry?, hS]; rfl, hpermits, bind_of_ok hadd⟩
    · exact .inr ⟨fault, by rw [call, hcall]; rfl, bind_of_error hadd⟩
  | addTransition source symbol target =>
    obtain ⟨S, T, hS, hT, hpermits, hadd⟩ | ⟨fault, hcall, hadd⟩ :=
      addTransition_cases hfrozen source symbol target
    · exact .inl ⟨.target S symbol T, by rw [Call.entry?, hS, hT]; rfl, hpermits, hadd⟩
    · exact .inr ⟨fault, hcall, hadd⟩
  | freeze => exact .inl ⟨_, rfl, trivial, rfl⟩

/-! ### Writing -/

theorem Sound.contains_states (hs : s.Sound) (S : ValueSet) :
    s.states.any (· == S) = s.hasState S := by
  rw [hs.states]
  exact s.table.contains_keys S

theorem Sound.contains_accepting (hs : s.Sound) (hS : s.accepting.contains S = true) :
    s.hasState S = true := by
  obtain ⟨S', hmem, hS'⟩ := OrderedSet.contains_iff.mp hS
  rw [hasState, ← OrderedMap.contains_keys, ← OrderedSet.contains_congr _ hS',
    OrderedMap.contains_keys]
  exact hs.accepting S' hmem

/-- Writing in the parts is writing in the automaton. -/
theorem toDfa_write (hs : s.Sound) (he : s.toDfa.Permits e) :
    (s.write e).toDfa = s.toDfa.write e := by
  cases e with
  | state S accepting =>
    have haccepting (S' : ValueSet) :
        (if accepting then s.accepting.insert S else s.accepting).contains S' =
          (s.accepting.contains S' || accepting && S == S') := by
      cases accepting <;> simp [OrderedSet.contains_insert]
    simp only [write, Dfa.write, toDfa, Dfa.addState, haccepting, Dfa.mk.injEq, true_and, and_true]
    refine OrderedMap.mapValues_alter (fun x _ hS => ?_) (fun x _ hS => ?_) fun hS => ?_
    · rw [BEq.symm_false hS, Bool.and_false, Bool.or_false]
    · rw [BEq.symm hS, Bool.and_true, Option.getD_some]
    · -- A state that is not in the table has not been accepting.
      have hnew : s.accepting.contains S = false :=
        Bool.eq_false_iff.mpr fun h => Bool.eq_false_iff.mp hS (hs.contains_accepting h)
      rw [hnew, BEq.rfl, Bool.and_true, Bool.false_or, Option.getD_none]
  | target S a T =>
    simp only [write, Dfa.write, toDfa, setTarget, Dfa.mk.injEq, true_and, and_true]
    refine OrderedMap.mapValues_alter (fun _ _ _ => rfl) (fun _ _ _ => rfl) fun hS => ?_
    -- The source is in the table.
    have hknown := he.2.2.2
    rw [hasState_toDfa, hasState, hS] at hknown
    cases hknown
  | freeze => rfl

/-- Writing keeps the parts in step. -/
theorem Sound.write (hs : s.Sound) (he : s.toDfa.Permits e) : (s.write e).Sound := by
  cases e with
  | state S accepting =>
    refine ⟨?_, fun S' hS' => ?_⟩
    · refine Eq.trans ?_ (s.table.toList_keys_alter S _).symm
      rw [OrderedSet.toList_insert, OrderedMap.contains_keys, ← hs.states]
      rfl
    · refine (OrderedMap.contains_alter ..).trans ?_
      cases accepting with
      | true =>
        rcases OrderedSet.mem_toList_insert hS' with hS' | rfl
        · rw [hs.accepting S' hS', Bool.true_or]
        · rw [BEq.rfl, Bool.or_true]
      | false => rw [hs.accepting S' hS', Bool.true_or]
  | target S a T =>
    have hS : s.table.contains S = true := (hasState_toDfa s S).symm.trans he.2.2.2
    refine ⟨hs.states.trans ?_, fun S' hS' => ?_⟩
    · refine Eq.trans ?_ (s.table.toList_keys_alter S _).symm
      rw [OrderedSet.toList_insert, OrderedMap.contains_keys, if_pos hS]
    · refine (OrderedMap.contains_alter ..).trans ?_
      rw [hs.accepting S' hS', Bool.true_or]
  | freeze => exact ⟨hs.states, hs.accepting⟩

/-- Writing an entry adds it to the log. -/
theorem Reflects.write (h : s.Reflects entries) (he : s.toDfa.Permits e) :
    (s.write e).Reflects (entries ++ [e]) where
  sound := h.sound.write he
  dfa := by
    rw [toDfa_write h.sound he]
    exact h.dfa.write he
  accepting := by
    rw [acceptingStates_append_singleton]
    cases e with
    | state S accepting =>
      cases accepting with
      | true =>
        rw [Entry.accepting?, Option.toList_some, OrderedSet.ofList_append_singleton,
          ← h.accepting]
        rfl
      | false => exact h.accepting.trans (by simp [Entry.accepting?])
    | target S a T => exact h.accepting.trans (by simp [Entry.accepting?])
    | freeze => exact h.accepting.trans (by simp [Entry.accepting?])

/-! ### Histories -/

/-- Calls keep the parts in step, and they do with the parts what they do with the automaton. -/
theorem toDfa_after (hs : s.Sound) (calls : List Call) :
    (s.after calls).Sound ∧ (s.after calls).toDfa = s.toDfa.after calls ∧
      s.log calls = s.toDfa.log calls := by
  induction calls generalizing s with
  | nil => exact ⟨hs, rfl, rfl⟩
  | cons c calls ih =>
    rw [after, List.foldl_cons, ← after, Dfa.after, List.foldl_cons, ← Dfa.after, next, Dfa.next, log,
      Dfa.log]
    obtain ⟨e, he, hpermits, hperform⟩ | ⟨fault, hcall, hperform⟩ := perform_cases s c
    · obtain ⟨hsound, hafter, hlog⟩ := ih (hs.write hpermits)
      rw [hperform, call_eq_ok_iff.mpr ⟨e, he, hpermits, rfl⟩, ← toDfa_write hs hpermits]
      exact ⟨hsound, hafter, congrArg (c.entry?.toList ++ ·) hlog⟩
    · rw [hperform, hcall]
      exact ih hs

/-- The parts reflect what was written before and what the calls have written since. -/
theorem Reflects.after (h : s.Reflects entries) (calls : List Call) :
    (s.after calls).Reflects (entries ++ s.log calls) := by
  induction calls generalizing s entries with
  | nil => rwa [log, List.append_nil]
  | cons c calls ih =>
    rw [Store.after, List.foldl_cons, ← Store.after, next, log]
    obtain ⟨e, he, hpermits, hperform⟩ | ⟨fault, hcall, hperform⟩ := perform_cases s c
    · rw [hperform, he, Option.toList_some, ← List.append_assoc]
      exact ih (h.write hpermits)
    · rw [hperform]
      exact ih h

/-! ### What the parts answer -/

theorem step?_toDfa (s : Store) (S : ValueSet) (a : Value) : s.toDfa.step? S a = s.step? S a := by
  rw [Dfa.step?, find?_rows, step?]
  cases s.table.find? S <;> rfl

theorem isAccepting?_toDfa (s : Store) (S : ValueSet) :
    s.toDfa.isAccepting? S = s.isAccepting? S := by
  rw [Dfa.isAccepting?, find?_rows, isAccepting?, hasState, ← OrderedMap.isSome_find?]
  cases s.table.find? S <;> rfl

theorem states_toDfa (hs : s.Sound) : s.toDfa.states.toList = s.states := by
  rw [hs.states, Dfa.states, toDfa, OrderedMap.keys_mapValues]

/-- The records of the table are those of the rows. -/
theorem records?_toDfa [DigitLimit] (hs : s.Sound) : s.toDfa.records? = s.records? := by
  rw [Dfa.records?, records?, hs.states]
  simp only [toDfa, OrderedMap.mapValues, OrderedMap.keys, List.mapM_map]
  congr 1
  refine mapM_congr fun x hx => ?_
  simp only [Function.comp_apply, OrderedMap.find?_eq_some_of_mem hx BEq.rfl]
  rfl

/-- What is not a state is not accepting. -/
theorem Sound.contains_accepting_eq_false (hs : s.Sound) (hS : s.table.find? S = none) :
    s.accepting.contains S = false :=
  Bool.eq_false_iff.mpr fun h => Bool.eq_false_iff.mp (OrderedMap.find?_eq_none_iff.mp hS)
    (hs.contains_accepting h)

/-- Parts that are in step answer what the automaton answers. -/
theorem Sound.answersLike (hs : s.Sound) : s.AnswersLike s.toDfa where
  start := rfl
  alphabet := rfl
  frozen := rfl
  states := (states_toDfa hs).symm
  accepting S := by
    rw [← acceptsAt_eq_any, acceptsAt, find?_rows]
    cases hS : s.table.find? S with
    | none => exact hs.contains_accepting_eq_false hS
    | some targets => rfl
  hasState S := (hasState_toDfa s S).symm
  step S a := (step?_toDfa s S a).symm
  isAccepting S := (isAccepting?_toDfa s S).symm
  records := (records?_toDfa hs).symm

/-- After any calls the parts answer what the automaton answers after these calls. -/
theorem answersLike_after (hs : s.Sound) (calls : List Call) :
    (s.after calls).AnswersLike (s.toDfa.after calls) := by
  obtain ⟨hsound, hafter, -⟩ := toDfa_after hs calls
  exact hafter ▸ hsound.answersLike

theorem beq_iff : (s == t) = true ↔
    (s.start == t.start) = true ∧ (s.alphabet == t.alphabet) = true ∧
      ∀ S, s.accepting.contains S = t.accepting.contains S ∧
        Option.Rel (fun r r' => r.agreesWith r' (· == ·) = true)
          (s.table.find? S) (t.table.find? S) := by
  change (s.start == t.start && s.alphabet == t.alphabet && s.accepting == t.accepting &&
    s.table.agreesWith t.table fun r r' => r.agreesWith r' (· == ·)) = true ↔ _
  simp only [Bool.and_eq_true, OrderedSet.beq_iff, OrderedMap.agreesWith_iff, forall_and, and_assoc]

/-- Automata are equal if their starts, alphabets, accepting states and tables are. -/
theorem beq_toDfa (hs : s.Sound) (ht : t.Sound) : (s.toDfa == t.toDfa) = (s == t) := by
  rw [Bool.eq_iff_iff, Dfa.beq_iff, beq_iff]
  refine and_congr_right' (and_congr_right' (forall_congr' fun S => ?_))
  rw [find?_rows, find?_rows]
  cases hrow : s.table.find? S <;> cases hrow' : t.table.find? S
  · simp [hs.contains_accepting_eq_false hrow, ht.contains_accepting_eq_false hrow']
  · simp
  · simp
  · simp [Row.agrees]

theorem contains_accepting_ofDfa (d : Dfa) (S : ValueSet) :
    (ofDfa d).accepting.contains S = d.acceptsAt S := by
  have hcongr {S' : ValueSet} (hS : (S' == S) = true) : d.acceptsAt S' = d.acceptsAt S := by
    rw [acceptsAt, acceptsAt, OrderedMap.find?_congr _ hS]
  rw [ofDfa, OrderedSet.contains_filter, Bool.eq_iff_iff, List.any_eq_true]
  simp only [Bool.and_eq_true]
  constructor
  · rintro ⟨S', -, haccepts, hS⟩
    exact (hcongr hS).symm.trans haccepts
  · intro haccepts
    have hS : d.hasState S = true := by
      obtain ⟨row, hrow, -⟩ := (Option.any_eq_true _ _).mp haccepts
      exact hasState_of_find?_eq_some hrow
    obtain ⟨S', hS', hbeq⟩ := exists_mem_of_hasState hS
    exact ⟨S', hS', (hcongr hbeq).trans haccepts, hbeq⟩

theorem toDfa_ofDfa (d : Dfa) : (ofDfa d).toDfa = d := by
  have hentries : (ofDfa d).toDfa.rows.entries = d.rows.entries := by
    simp only [toDfa, OrderedMap.mapValues, contains_accepting_ofDfa]
    simp only [ofDfa, OrderedMap.mapValues, List.map_map]
    refine (List.map_congr_left fun x hx => ?_).trans (List.map_id _)
    simp only [Function.comp_apply, acceptsAt, OrderedMap.find?_eq_some_of_mem hx BEq.rfl]
    rfl
  exact congrArg (Dfa.mk d.start d.alphabet · d.frozen) (OrderedMap.eq_of_entries_eq hentries)

/-- The parts of an automaton that was made at once are in step. -/
theorem sound_ofDfa (d : Dfa) : (ofDfa d).Sound where
  states := by
    rw [ofDfa, OrderedMap.keys_mapValues]
    rfl
  accepting S hS := by
    rw [ofDfa, OrderedMap.contains_mapValues]
    exact d.hasState_of_mem (List.mem_of_mem_filter hS)

theorem answersLike_ofDfa (d : Dfa) : (ofDfa d).AnswersLike d := by
  have hanswers := (sound_ofDfa d).answersLike
  rwa [toDfa_ofDfa] at hanswers

/-- What the parts answer can be read off from the log that they reflect. -/
theorem Reflects.answers (h : s.Reflects entries) : s.Answers s.start s.alphabet entries where
  start := rfl
  alphabet := rfl
  states := by rw [← states_toDfa h.sound, h.dfa.states]
  accepting := h.accepting
  sources := h.sound.states.symm
  symbols S targets hrow a T hT := by
    have htarget : s.toDfa.targetAt S a = some T := by
      rw [targetAt, find?_rows, OrderedMap.find?_eq_some_of_mem hrow BEq.rfl]
      exact OrderedMap.find?_eq_some_of_mem hT BEq.rfl
    -- What is stored was set by an entry, and the symbols of entries are known.
    rw [h.dfa.target] at htarget
    obtain ⟨S', a', he, -, ha⟩ := exists_target_of_lastTarget?_eq_some htarget
    rw [← OrderedSet.contains_congr _ ha]
    exact (h.dfa.known S' a' T he).2
  step S a ha := by
    rw [h.sound.contains_states, ← step?_toDfa, ← hasState_toDfa]
    cases hS : s.toDfa.hasState S with
    | false => exact step?_of_hasState_eq_false hS a
    | true =>
      obtain ⟨row, hrow⟩ := exists_row_of_hasState hS
      have htarget : row.targets.find? a = lastTarget? entries S a := by
        rw [← h.dfa.target, targetAt, hrow, Option.bind_some]
      rw [step?_eq hrow ha, htarget]
      exact (if_pos rfl).symm
  step_of_not_hashable S a ha := by
    obtain ⟨fault, hfault⟩ := exists_fault_of_not_hashable ha
    refine ⟨fault, ?_⟩
    rw [h.sound.contains_states, ← step?_toDfa, ← hasState_toDfa]
    cases hS : s.toDfa.hasState S with
    | false => exact step?_of_hasState_eq_false hS a
    | true => exact hfault s.toDfa S hS
  isAccepting S := by
    rw [h.sound.contains_states, isAccepting?, h.accepting, OrderedSet.contains_ofList]
  hasState S := (h.sound.contains_states S).symm
  hasState_iff_isAccepting S := by
    rw [isAccepting?]
    cases s.hasState S <;> simp
  hasState_iff_step S a := by
    rw [← hasState_toDfa, ← step?_toDfa]
    cases hS : s.toDfa.hasState S with
    | false => simp [step?_of_hasState_eq_false hS]
    | true => simpa using fun x => step?_ne_unknownState hS a x
  dead := by
    rw [hasDeadState, ← h.sound.contains_states, List.any_eq_true]
    simp only [OrderedSet.beq_empty_iff]
  frozen := h.dfa.frozen

theorem reflects_of_new? {start alphabet : Value} (h : new? start alphabet = .ok s) :
    s.Reflects [] := by
  obtain ⟨S, -, h⟩ := exists_of_bind_eq_ok h
  obtain ⟨A, -, h⟩ := exists_of_bind_eq_ok h
  injection h with h
  subst h
  exact ⟨⟨rfl, fun _ hS => absurd hS List.not_mem_nil⟩, ⟨rfl, fun _ => rfl, fun _ _ => rfl,
    fun _ _ _ he => absurd he List.not_mem_nil, by simp [toDfa]⟩, rfl⟩

/-- Whatever calls were made, the parts are those that the successful calls have written. A call that
fails leaves all of them as they were, and in a frozen automaton nothing can be changed. -/
theorem answers_after (start alphabet : Value) (s : Store) (h : new? start alphabet = .ok s)
    (calls : List Call) :
    ∃ S A, ValueSet.ofValue? start = .ok S ∧ ValueSet.ofValue? alphabet = .ok A ∧
      (s.after calls).Answers S A (s.log calls) ∧
      (∀ c e s', perform c (s.after calls) = .error e s' → s' = s.after calls) ∧
      (.freeze ∈ calls → ∀ c, c ≠ .freeze →
        perform c (s.after calls) = .error .frozen (s.after calls)) := by
  have hreflects : (s.after calls).Reflects (s.log calls) := (reflects_of_new? h).after calls
  obtain ⟨-, hafter, hlog⟩ := toDfa_after (reflects_of_new? h).sound calls
  obtain ⟨S, hS, h⟩ := exists_of_bind_eq_ok h
  obtain ⟨A, hA, h⟩ := exists_of_bind_eq_ok h
  injection h with h
  have hfields : s.start = S ∧ s.alphabet = A := h ▸ ⟨rfl, rfl⟩
  obtain ⟨hstart, halphabet⟩ := s.toDfa.after_fields calls
  rw [← hafter] at hstart halphabet
  refine ⟨S, A, hS, hA, ?_, fun c fault s' hperform => ?_, fun hfreeze c hc => ?_⟩
  · have hanswers := hreflects.answers
    rwa [show (s.after calls).start = S from hstart.trans hfields.1,
      show (s.after calls).alphabet = A from halphabet.trans hfields.2] at hanswers
  · obtain ⟨e, -, -, hok⟩ | ⟨fault', -, herror⟩ := perform_cases (s.after calls) c
    · rw [hok] at hperform
      cases hperform
    · rw [herror] at hperform
      injection hperform with _ hs'
      exact hs'.symm
  · exact perform_of_frozen (hreflects.dfa.frozen.mpr (hlog ▸ freeze_mem_log hfreeze)) hc

/-- A state is added three times and spelled differently, the second time as an accepting one and then
not. A target is set twice, and calls of all kinds fail. -/
def drafted : List Call :=
  [.addState (.list [.bool false]) false, .addState (.int 5) true, .addState (.list [.int 0]) true,
    .addState (.list [.bool false]) false,
    .addTransition (.list [.int 0]) (.text "a") (.list []),
    .addTransition (.list [.int 0]) (.text "b") (.list []),
    .addTransition (.list [.int 2]) (.text "a") (.list []),
    .addTransition (.list [.int 0]) (.text "a") (.list [.list []]),
    .addTransition (.tuple [.bool false]) (.text "a") (.list [.int 1]), .freeze,
    .addTransition (.list [.int 0]) (.text "a") (.list [.int 2])]

/-- The accepting state is spelled as it was added as one. The target that was set last is a set that was
never added. -/
theorem answers_after_drafted :
    ∃ s, new? (.list []) (.text "a") = .ok s ∧
      (s.after drafted).states = [.ofList [.bool false]] ∧
      (s.after drafted).accepting = OrderedSet.ofList [.ofList [.int 0]] ∧
      (s.after drafted).isAccepting? (.ofList [.int 0]) = .ok true ∧
      (s.after drafted).step? (.ofList [.int 0]) (.text "a") = .ok (.ofList [.int 1]) ∧
      (s.after drafted).hasState (.ofList [.int 1]) = false ∧
      perform (.addState (.int 5) true) (s.after drafted) = .error .frozen (s.after drafted) := by
  let s : Store := ⟨.empty, .ofList [.text "a"], [], .empty, .empty, false⟩
  have hlog : s.log drafted = [.state (.ofList [.bool false]) false, .state (.ofList [.int 0]) true,
      .state (.ofList [.bool false]) false,
      .target (.ofList [.int 0]) (.text "a") .empty,
      .target (.ofList [.bool false]) (.text "a") (.ofList [.int 1]), .freeze] := by
    rfl
  obtain ⟨S, A, -, hA, h, -, hfrozen⟩ := answers_after (.list []) (.text "a") s rfl drafted
  obtain rfl : OrderedSet.ofList [.text "a"] = A := Except.ok.inj hA
  refine ⟨s, rfl, ?_, ?_, ?_, ?_, ?_, hfrozen (by decide) _ (by decide)⟩
  · rw [h.states, hlog]
    rfl
  · rw [h.accepting, hlog]
    rfl
  · rw [h.isAccepting, h.states, hlog]
    rfl
  · rw [h.step _ _ (by decide), h.states, h.alphabet, hlog]
    rfl
  · rw [h.hasState, h.states, hlog]
    rfl

end Dfa.Store

end Determinize
