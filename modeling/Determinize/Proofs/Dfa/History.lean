import Determinize.Proofs.Dfa.Equality

/-!
# Histories of deterministic automata

An automaton is made without states and then changed by calls. A call that fails leaves the automaton
as it is; a call that succeeds writes one entry, which adds a state, sets a target or freezes the
automaton. The rows of an automaton can be read off from the entries that were written, in their order:
the states are those that were added, each once, in the order in which they were added first; a state is
accepting if it was added as an accepting one at least once; and a symbol leads from a state to the
target that was set last.

## Main definitions

* `Dfa.Call`, `Dfa.call`, `Dfa.after` — calls, and what they make of an automaton.
* `Dfa.Entry`, `Dfa.log` — what the calls of a history write.
* `Dfa.lastTarget?` — the target that was set last.
* `Dfa.Reflects` — the states, rows and targets of an automaton are those of a log.

## Main results

* `Dfa.call_eq_ok_iff` — when a call succeeds, and what it makes.
* `Dfa.Reflects.write`, `Dfa.Reflects.after` — automata reflect what was written.
-/

namespace Determinize

namespace Dfa

/-! ### Calls and what they write -/

/-- A call that changes an automaton. -/
inductive Call
  | addState (state : Value) (accepting : Bool)
  | addTransition (source symbol target : Value)
  | freeze
  deriving DecidableEq

/-- What a call writes. -/
inductive Entry
  | state (S : ValueSet) (accepting : Bool)
  | target (S : ValueSet) (a : Value) (T : ValueSet)
  | freeze

/-- The automaton that a call makes, or why the call fails. -/
def call (d : Dfa) : Call → Except AutomatonError Dfa
  | .addState state accepting => do
    let (_, d') ← d.addState? state accepting
    return d'
  | .addTransition source symbol target => d.addTransition? source symbol target
  | .freeze => .ok d.freeze

/-- The automaton after a call. A call that fails leaves it as it is. -/
def next (d : Dfa) (c : Call) : Dfa :=
  match d.call c with
  | .ok d' => d'
  | .error _ => d

/-- The automaton after a list of calls. -/
def after (d : Dfa) (calls : List Call) : Dfa := calls.foldl next d

/-- What a call writes if it succeeds. -/
def Call.entry? : Call → Option Entry
  | .addState state accepting =>
    (ValueSet.ofValue? state).toOption.map fun S => .state S accepting
  | .addTransition source symbol target =>
    (ValueSet.ofValue? source).toOption.bind fun S =>
      (ValueSet.ofValue? target).toOption.map fun T => .target S symbol T
  | .freeze => some .freeze

/-- What the calls of a list write that succeed. -/
def log (d : Dfa) : List Call → List Entry
  | [] => []
  | c :: calls =>
    match d.call c with
    | .ok d' => c.entry?.toList ++ d'.log calls
    | .error _ => d.log calls

/-- The state that an entry adds. -/
def Entry.state? : Entry → Option ValueSet
  | state S _ => some S
  | target .. | freeze => none

/-- The state that an entry adds as an accepting one. -/
def Entry.accepting? : Entry → Option ValueSet
  | state S true => some S
  | state _ false | target .. | freeze => none

/-- The target that an entry sets for a state and a symbol. -/
def Entry.target? (S : ValueSet) (a : Value) : Entry → Option ValueSet
  | target S' a' T => if S' == S && a' == a then some T else none
  | state .. | freeze => none

/-- The states that were added. -/
def addedStates (entries : List Entry) : List ValueSet := entries.filterMap Entry.state?

/-- The states that were added as accepting ones. -/
def acceptingStates (entries : List Entry) : List ValueSet := entries.filterMap Entry.accepting?

/-- The target that was set last for a state and a symbol. -/
def lastTarget? (entries : List Entry) (S : ValueSet) (a : Value) : Option ValueSet :=
  entries.reverse.findSome? (Entry.target? S a)

/-- Whether an entry can be written. -/
def Permits (d : Dfa) : Entry → Prop
  | .state .. => d.frozen = false
  | .target S a _ =>
    d.frozen = false ∧ a.Hashable ∧ d.alphabet.contains a = true ∧ d.hasState S = true
  | .freeze => True

/-- Writes an entry. -/
def write (d : Dfa) : Entry → Dfa
  | .state S accepting => d.addState S accepting
  | .target S a T => d.setTarget S a T
  | .freeze => d.freeze

/-- Whether a set is an accepting state. -/
def acceptsAt (d : Dfa) (S : ValueSet) : Bool := (d.rows.find? S).any (·.accepting)

/-- Where a symbol leads from a set, if the set is a state and a target was set. -/
def targetAt (d : Dfa) (S : ValueSet) (a : Value) : Option ValueSet :=
  (d.rows.find? S).bind (·.targets.find? a)

/-- The states, the accepting states and the targets of an automaton are those of a log. -/
structure Reflects (d : Dfa) (entries : List Entry) : Prop where
  states : d.states = OrderedSet.ofList (addedStates entries)
  accepting : ∀ S, d.acceptsAt S = (acceptingStates entries).any (· == S)
  target : ∀ S a, d.targetAt S a = lastTarget? entries S a
  known : ∀ S a T, .target S a T ∈ entries → d.hasState S = true ∧ d.alphabet.contains a = true
  frozen : d.frozen = true ↔ .freeze ∈ entries

variable {d d' : Dfa} {c : Call} {e : Entry} {entries : List Entry} {S T : ValueSet} {a : Value}

/-! ### One call -/

theorem ite_throw_eq_ok_iff {ε β : Type} {p : Prop} [Decidable p] {fault : ε} {x : Except ε β}
    {y : PUnit → Except ε β} {b : β} :
    (if p then x else throw fault >>= y) = .ok b ↔ p ∧ x = .ok b := by
  split <;> simp_all [throw, throwThe, MonadExceptOf.throw, bind, Except.bind]

theorem requireMutable_eq_ok_iff {u : Unit} : d.requireMutable = .ok u ↔ d.frozen = false := by
  cases h : d.frozen <;> simp [requireMutable, h]

theorem requireHashable_eq_ok_iff {u : Unit} : a.requireHashable = .ok u ↔ a.Hashable :=
  ⟨Value.hashable_of_requireHashable_eq_ok, Value.requireHashable_eq_ok⟩

theorem orShapeError_eq_ok_iff {α : Type} {x : Except ShapeError α} {y : α} :
    orShapeError x = .ok y ↔ x = .ok y := by
  cases x <;> simp [orShapeError, Except.mapError]

theorem toOption_eq_some_iff {ε α : Type} {x : Except ε α} {y : α} :
    x.toOption = some y ↔ x = .ok y := by
  cases x <;> simp [Except.toOption]

theorem addState?_eq_ok_iff {state : Value} {accepting : Bool} :
    d.addState? state accepting = .ok (S, d') ↔
      d.frozen = false ∧ ValueSet.ofValue? state = .ok S ∧ d.addState S accepting = d' := by
  simp [addState?, bind_eq_ok_iff, orShapeError_eq_ok_iff, requireMutable_eq_ok_iff, pure,
    Except.pure]

theorem addTransition?_eq_ok_iff {source symbol target : Value} :
    d.addTransition? source symbol target = .ok d' ↔
      d.frozen = false ∧ symbol.Hashable ∧ d.alphabet.contains symbol = true ∧
        ∃ S, ValueSet.ofValue? source = .ok S ∧ d.hasState S = true ∧
          ∃ T, ValueSet.ofValue? target = .ok T ∧ d.setTarget S symbol T = d' := by
  simp only [addTransition?, bind_eq_ok_iff, orShapeError_eq_ok_iff, requireMutable_eq_ok_iff,
    requireHashable_eq_ok_iff, ite_throw_eq_ok_iff, pure, Except.pure, Except.ok.injEq,
    exists_const]

/-- A call succeeds if its arguments describe an entry that can be written. -/
theorem call_eq_ok_iff :
    d.call c = .ok d' ↔ ∃ e, c.entry? = some e ∧ d.Permits e ∧ d.write e = d' := by
  cases c with
  | addState state accepting =>
    simp only [call, bind_eq_ok_iff, Prod.exists, addState?_eq_ok_iff, Call.entry?,
      Option.map_eq_some_iff, toOption_eq_some_iff, pure, Except.pure, Except.ok.injEq]
    constructor
    · rintro ⟨S, _, ⟨hfrozen, hS, rfl⟩, rfl⟩
      exact ⟨_, ⟨S, hS, rfl⟩, hfrozen, rfl⟩
    · rintro ⟨_, ⟨S, hS, rfl⟩, hfrozen, rfl⟩
      exact ⟨S, _, ⟨hfrozen, hS, rfl⟩, rfl⟩
  | addTransition source symbol target =>
    simp only [call, addTransition?_eq_ok_iff, Call.entry?, Option.bind_eq_some_iff,
      Option.map_eq_some_iff, toOption_eq_some_iff]
    constructor
    · rintro ⟨hfrozen, hhash, hsymbol, S, hS, hstate, T, hT, rfl⟩
      exact ⟨_, ⟨S, hS, T, hT, rfl⟩, ⟨hfrozen, hhash, hsymbol, hstate⟩, rfl⟩
    · rintro ⟨_, ⟨S, hS, T, hT, rfl⟩, ⟨hfrozen, hhash, hsymbol, hstate⟩, rfl⟩
      exact ⟨hfrozen, hhash, hsymbol, S, hS, hstate, T, hT, rfl⟩
  | freeze => simp [call, Call.entry?, Permits, write]

/-! ### Reading a log -/

theorem addedStates_append_singleton (entries : List Entry) (e : Entry) :
    addedStates (entries ++ [e]) = addedStates entries ++ e.state?.toList := by
  rw [addedStates, List.filterMap_append, addedStates]
  cases e <;> rfl

theorem acceptingStates_append_singleton (entries : List Entry) (e : Entry) :
    acceptingStates (entries ++ [e]) = acceptingStates entries ++ e.accepting?.toList := by
  rw [acceptingStates, List.filterMap_append, acceptingStates]
  cases h : e.accepting? <;> simp [h]

theorem lastTarget?_append_singleton (entries : List Entry) (e : Entry) (S : ValueSet) (a : Value) :
    lastTarget? (entries ++ [e]) S a = (e.target? S a).or (lastTarget? entries S a) := by
  rw [lastTarget?, List.reverse_append, List.reverse_singleton, List.singleton_append,
    List.findSome?_cons, lastTarget?]
  cases e.target? S a <;> rfl

theorem exists_target_of_lastTarget?_eq_some (h : lastTarget? entries S a = some T) :
    ∃ S' a', .target S' a' T ∈ entries ∧ (S' == S) = true ∧ (a' == a) = true := by
  obtain ⟨e, he, hT⟩ := List.exists_of_findSome?_eq_some h
  cases e with
  | state S' accepting => cases hT
  | target S' a' T' =>
    obtain ⟨hsame, hT⟩ := Option.ite_none_right_eq_some.mp hT
    cases hT
    exact ⟨S', a', List.mem_reverse.mp he, Bool.and_eq_true .. ▸ hsame⟩
  | freeze => cases hT

theorem lastTarget?_ne_none {S' : ValueSet} {a' : Value} (he : .target S' a' T ∈ entries)
    (hS : (S' == S) = true) (ha : (a' == a) = true) : lastTarget? entries S a ≠ none := by
  intro hnone
  have hentry := List.findSome?_eq_none_iff.mp hnone _ (List.mem_reverse.mpr he)
  rw [Entry.target?, hS, ha] at hentry
  cases hentry

/-! ### One entry -/

theorem states_addState (d : Dfa) (S : ValueSet) (accepting : Bool) :
    (d.addState S accepting).states = d.states.insert S :=
  OrderedSet.eq_of_toList_eq (OrderedMap.toList_keys_alter ..)

theorem states_setTarget (hS : d.hasState S = true) (a : Value) (T : ValueSet) :
    (d.setTarget S a T).states = d.states := by
  refine OrderedSet.eq_of_toList_eq ((OrderedMap.toList_keys_alter ..).trans ?_)
  rw [OrderedSet.toList_insert, OrderedMap.contains_keys]
  exact if_pos hS

theorem acceptsAt_addState (d : Dfa) (S S' : ValueSet) (accepting : Bool) :
    (d.addState S accepting).acceptsAt S' = (d.acceptsAt S' || accepting && S == S') := by
  rw [acceptsAt, acceptsAt, addState, OrderedMap.find?_alter]
  split
  · rename_i hS
    rw [← OrderedMap.find?_congr _ hS, hS]
    cases d.rows.find? S <;> simp
  · rename_i hS
    simp [hS]

theorem targetAt_addState (d : Dfa) (S S' : ValueSet) (accepting : Bool) (a : Value) :
    (d.addState S accepting).targetAt S' a = d.targetAt S' a := by
  rw [targetAt, targetAt, addState, OrderedMap.find?_alter]
  split
  · rename_i hS
    rw [← OrderedMap.find?_congr _ hS]
    cases d.rows.find? S <;> rfl
  · rfl

theorem acceptsAt_setTarget (d : Dfa) (S S' T : ValueSet) (a : Value) :
    (d.setTarget S a T).acceptsAt S' = d.acceptsAt S' := by
  rw [acceptsAt, acceptsAt, setTarget, OrderedMap.find?_alter]
  split
  · rename_i hS
    rw [← OrderedMap.find?_congr _ hS]
    cases d.rows.find? S <;> rfl
  · rfl

theorem targetAt_setTarget (d : Dfa) (S S' T : ValueSet) (a b : Value) :
    (d.setTarget S a T).targetAt S' b =
      if S == S' && a == b then some T else d.targetAt S' b := by
  rw [targetAt, targetAt, setTarget, OrderedMap.find?_alter]
  by_cases hS : (S == S') = true
  · rw [← OrderedMap.find?_congr _ hS, hS, if_pos rfl, Bool.true_and]
    cases d.rows.find? S <;> simp [OrderedMap.find?_insert]
  · simp [hS]

theorem hasState_addState (d : Dfa) (S S' : ValueSet) (accepting : Bool) :
    (d.addState S accepting).hasState S' = (d.hasState S' || S == S') := by
  rw [← contains_states, states_addState, OrderedSet.contains_insert, contains_states]

theorem hasState_setTarget (hS : d.hasState S = true) (a : Value) (S' T : ValueSet) :
    (d.setTarget S a T).hasState S' = d.hasState S' := by
  rw [← contains_states, states_setTarget hS, contains_states]

namespace Reflects

theorem addState (h : d.Reflects entries) (S : ValueSet) (accepting : Bool) :
    (d.addState S accepting).Reflects (entries ++ [.state S accepting]) where
  states := by
    rw [states_addState, h.states, addedStates_append_singleton, Entry.state?, Option.toList_some,
      OrderedSet.ofList_append_singleton]
  accepting S' := by
    rw [acceptsAt_addState, h.accepting, acceptingStates_append_singleton, List.any_append]
    cases accepting <;> simp [Entry.accepting?]
  target S' a := by
    rw [targetAt_addState, h.target, lastTarget?_append_singleton]
    rfl
  known S' a T he := by
    have he : .target S' a T ∈ entries := by simpa using he
    rw [hasState_addState, (h.known S' a T he).1]
    exact ⟨rfl, (h.known S' a T he).2⟩
  frozen := h.frozen.trans (by simp)

theorem setTarget (h : d.Reflects entries) (hS : d.hasState S = true)
    (ha : d.alphabet.contains a = true) (T : ValueSet) :
    (d.setTarget S a T).Reflects (entries ++ [.target S a T]) where
  states := by
    rw [states_setTarget hS, h.states, addedStates_append_singleton, Entry.state?,
      Option.toList_none, List.append_nil]
  accepting S' := by
    rw [acceptsAt_setTarget, h.accepting, acceptingStates_append_singleton, Entry.accepting?,
      Option.toList_none, List.append_nil]
  target S' b := by
    rw [targetAt_setTarget, h.target, lastTarget?_append_singleton, Entry.target?]
    split <;> rfl
  known S' b T' he := by
    rw [hasState_setTarget hS]
    rcases List.mem_append.mp he with he | he
    · exact h.known S' b T' he
    · cases List.mem_singleton.mp he
      exact ⟨hS, ha⟩
  frozen := h.frozen.trans (by simp)

theorem freeze (h : d.Reflects entries) : d.freeze.Reflects (entries ++ [.freeze]) where
  states := by
    rw [addedStates_append_singleton, Entry.state?, Option.toList_none, List.append_nil]
    exact h.states
  accepting S := by
    rw [acceptingStates_append_singleton, Entry.accepting?, Option.toList_none, List.append_nil]
    exact h.accepting S
  target S a := by
    rw [lastTarget?_append_singleton]
    exact h.target S a
  known S a T he := h.known S a T (by simpa using he)
  frozen := by simp [Dfa.freeze]

/-- Writing an entry adds it to the log. -/
theorem write (h : d.Reflects entries) (he : d.Permits e) :
    (d.write e).Reflects (entries ++ [e]) := by
  cases e with
  | state S accepting => exact h.addState S accepting
  | target S a T => exact h.setTarget he.2.2.2 he.2.2.1 T
  | freeze => exact h.freeze

theorem hasState_of_mem {accepting : Bool} (h : d.Reflects entries)
    (hS : .state S accepting ∈ entries) : d.hasState S = true := by
  rw [← contains_states, h.states]
  exact OrderedSet.contains_ofList_of_mem (List.mem_filterMap.mpr ⟨_, hS, rfl⟩)

end Reflects

/-! ### Histories -/

theorem reflects_of_new? {start alphabet : Value} (h : new? start alphabet = .ok d) :
    d.Reflects [] := by
  obtain ⟨S, -, h⟩ := exists_of_bind_eq_ok h
  obtain ⟨A, -, h⟩ := exists_of_bind_eq_ok h
  injection h with h
  subst h
  exact ⟨rfl, fun _ => rfl, fun _ _ => rfl, fun _ _ _ he => absurd he List.not_mem_nil,
    by simp⟩

/-- An automaton reflects what was written before and what its calls have written since. -/
theorem Reflects.after (h : d.Reflects entries) (calls : List Call) :
    (d.after calls).Reflects (entries ++ d.log calls) := by
  induction calls generalizing d entries with
  | nil => rwa [log, List.append_nil]
  | cons c calls ih =>
    rw [Dfa.after, List.foldl_cons, next, log]
    cases hc : d.call c with
    | error fault => exact ih h
    | ok d' =>
      -- A call that succeeds has written an entry that was permitted.
      obtain ⟨e, he, hpermits, rfl⟩ := call_eq_ok_iff.mp hc
      rw [he, Option.toList_some, ← List.append_assoc]
      exact ih (h.write hpermits)

theorem write_fields (d : Dfa) (e : Entry) :
    (d.write e).start = d.start ∧ (d.write e).alphabet = d.alphabet := by
  cases e <;> exact ⟨rfl, rfl⟩

theorem after_fields (d : Dfa) (calls : List Call) :
    (d.after calls).start = d.start ∧ (d.after calls).alphabet = d.alphabet := by
  induction calls generalizing d with
  | nil => exact ⟨rfl, rfl⟩
  | cons c calls ih =>
    have hnext : (d.next c).start = d.start ∧ (d.next c).alphabet = d.alphabet := by
      rw [next]
      cases hc : d.call c with
      | error fault => exact ⟨rfl, rfl⟩
      | ok d' =>
        obtain ⟨e, -, -, rfl⟩ := call_eq_ok_iff.mp hc
        exact d.write_fields e
    exact ⟨(ih _).1.trans hnext.1, (ih _).2.trans hnext.2⟩

theorem freeze_mem_log {calls : List Call} (h : .freeze ∈ calls) : .freeze ∈ d.log calls := by
  induction calls generalizing d with
  | nil => cases h
  | cons c calls ih =>
    rw [log]
    rcases List.mem_cons.mp h with rfl | h
    · exact List.mem_cons_self
    · split
      · exact List.mem_append_right _ (ih h)
      · exact ih h

/-! ### Answers -/

theorem acceptsAt_eq_any (d : Dfa) (S : ValueSet) :
    d.acceptsAt S = d.acceptStates.any (· == S) := by
  rw [Bool.eq_iff_iff, any_acceptStates_iff, acceptsAt, Option.any_eq_true]

/-- An automaton that is not known to have a state reports that, whatever it is asked. -/
theorem step?_of_hasState_eq_false (h : d.hasState S = false) (a : Value) :
    d.step? S a = .error (.unknownState (.states S)) := by
  rw [step?, OrderedMap.find?_eq_none_iff.mpr h]

theorem step?_ne_unknownState (hS : d.hasState S = true) (a : Value) (s : Subject) :
    d.step? S a ≠ .error (.unknownState s) := by
  by_cases ha : a.Hashable
  · obtain ⟨row, hrow⟩ := exists_row_of_hasState hS
    rw [step?_eq hrow ha]
    split
    · cases row.targets.find? a <;> simp
    · simp
  · obtain ⟨fault, hfault⟩ := exists_fault_of_not_hashable ha
    simp [hfault d S hS]

theorem call_eq_error_of_frozen (hd : d.frozen = true) (hc : c ≠ .freeze) :
    d.call c = .error .frozen := by
  cases c with
  | addState state accepting => simp [call, addState?, requireMutable, hd, bind, Except.bind]
  | addTransition source symbol target =>
    simp [call, addTransition?, requireMutable, hd, bind, Except.bind]
  | freeze => exact absurd rfl hc

end Dfa

end Determinize
