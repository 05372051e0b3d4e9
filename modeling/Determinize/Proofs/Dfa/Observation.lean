import Determinize.Proofs.Dfa.History
import Determinize.Proofs.Dfa.Table

/-!
# Equality of automata is observational equality

Automata are compared by their starts, alphabets and rows. What can be asked of an automaton are its
start and its alphabet, whether a set is a state and an accepting one, and where a symbol leads from
a set. These questions are answered from the rows, and they reach everything in the rows: the symbols
of a row lie in the alphabet, and the members of states can be members of sets that are asked about.
So two automata are equal if and only if no question tells them apart, errors being told apart by
their class. A target that is not a state is told from others, too, as the answer of a step.

## Main definitions

* `ErrorClass`, `SameClass` — results up to the class of errors.
* `Dfa.Indistinguishable` — no question tells two automata apart.
* `Dfa.Rearranges` — the same rows in another order.
* `Dfa.Sound` — what is stored can be asked about.
* `Dfa.BeqInOrder` — equal automata whose states are in the same order.

## Main results

* `Dfa.beq_iff_lookups` — equality by states, acceptance and targets.
* `Dfa.Rearranges.beq` — the order of the rows does not matter, and neither does freezing.
* `Dfa.Sound.beq_iff` — equality is observational.
* `Dfa.Sound.call`, `Dfa.IsTable.sound` — calls keep automata sound, and full tables are.
* `Dfa.IsTable.beqInOrder` — full tables are compared row by row.
-/

namespace Determinize

/-! ### Classes of errors -/

/-- The classes of errors. An error of a class speaks of different values. -/
inductive ErrorClass where
  | automaton
  | invalidAlphabet
  | unknownState
  | unknownSymbol
  | frozen
  | missingKey
  | badValue
  | badType
  deriving DecidableEq

/-- The class of an error. -/
def AutomatonError.errorClass : AutomatonError → ErrorClass
  | general _ => .automaton
  | markerInAlphabet _ => .invalidAlphabet
  | unknownState _ => .unknownState
  | unknownSymbol .. => .unknownSymbol
  | frozen => .frozen
  | missing _ => .missingKey
  | unknownDiscipline _ | tooManyDigits | shape (.tooFewItems _) | shape .tooManyItems => .badValue
  | shape (.unhashable _) | shape (.notIterable _) | shape (.notUnpackable _) => .badType

/-- Two results are related values or errors of one class. -/
inductive SameClass {α : Type} (R : α → α → Prop) :
    Except AutomatonError α → Except AutomatonError α → Prop
  | ok {x y : α} (h : R x y) : SameClass R (.ok x) (.ok y)
  | error {e f : AutomatonError} (h : e.errorClass = f.errorClass) :
      SameClass R (.error e) (.error f)

theorem SameResult.sameClass {α : Type} {R : α → α → Prop} {x y : Except AutomatonError α}
    (h : SameResult R x y) : SameClass R x y := by
  cases h with
  | ok h => exact .ok h
  | error h => cases h <;> exact .error rfl

/-! ### Related answers -/

section Rel

variable {α : Type} [BEq α] {x y z : Option α}

theorem rel_beq_refl [ReflBEq α] (x : Option α) :
    Option.Rel (fun a b : α => (a == b) = true) x x := by
  cases x with
  | none => exact .none
  | some => exact .some BEq.rfl

theorem rel_beq_symm [PartialEquivBEq α] (h : Option.Rel (fun a b : α => (a == b) = true) x y) :
    Option.Rel (fun a b : α => (a == b) = true) y x := by
  cases h with
  | none => exact .none
  | some h => exact .some (BEq.symm h)

theorem rel_beq_trans [PartialEquivBEq α] (h : Option.Rel (fun a b : α => (a == b) = true) x y)
    (h' : Option.Rel (fun a b : α => (a == b) = true) y z) :
    Option.Rel (fun a b : α => (a == b) = true) x z := by
  cases h with
  | none => exact h'
  | some h =>
    cases h' with
    | some h' => exact .some (BEq.trans h h')

end Rel

/-- The members of a set that equals a set of hashable values are hashable. -/
theorem ValueSet.hashable_of_beq {S T : ValueSet} (h : (S == T) = true)
    (hS : ∀ x ∈ S.toList, x.Hashable) : ∀ x ∈ T.toList, x.Hashable := by
  intro x hx
  obtain ⟨y, hy, hyx⟩ := OrderedSet.contains_iff.mp
    ((OrderedSet.beq_iff.mp h x).trans (OrderedSet.contains_of_mem hx))
  exact (Value.hashable_congr hyx).mp (hS y hy)

namespace Dfa

/-- No question tells two automata apart: neither their starts and alphabets, nor whether a set is a
state and an accepting one, nor where a symbol leads. Asked are sets and symbols that exist, that is,
sets of hashable values and hashable symbols. -/
structure Indistinguishable (d e : Dfa) : Prop where
  start : (d.start == e.start) = true
  alphabet : (d.alphabet == e.alphabet) = true
  hasState : ∀ S : ValueSet, (∀ x ∈ S.toList, x.Hashable) → d.hasState S = e.hasState S
  isAccepting : ∀ S : ValueSet, (∀ x ∈ S.toList, x.Hashable) →
    SameClass (· = ·) (d.isAccepting? S) (e.isAccepting? S)
  step : ∀ (S : ValueSet) (a : Value), (∀ x ∈ S.toList, x.Hashable) → a.Hashable →
    SameClass (fun T T' => (T == T') = true) (d.step? S a) (e.step? S a)

/-- Two automata have the same start, the same alphabet and the same rows, in any order, whether they
are frozen or not. -/
structure Rearranges (d e : Dfa) : Prop where
  start : d.start = e.start
  alphabet : d.alphabet = e.alphabet
  rows : d.rows.entries.Perm e.rows.entries

/-- What is stored in an automaton can be asked about: the members of states and the symbols can be
members of sets, and targets are set for symbols of the alphabet only. -/
structure Sound (d : Dfa) : Prop where
  states : ∀ S ∈ d.states.toList, ∀ x ∈ S.toList, x.Hashable
  alphabet : ∀ a ∈ d.alphabet.toList, a.Hashable
  known : ∀ S a T, d.targetAt S a = some T → d.alphabet.contains a = true

/-- Two automata are equal and list equal states in the same order. -/
structure BeqInOrder (d e : Dfa) : Prop where
  beq : (d == e) = true
  states : List.Forall₂ (fun S T => (S == T) = true) d.states.toList e.states.toList

/-- Two states are equal, both are accepting or both are not, and equal symbols lead from them to equal
states. -/
structure RowsAgree (d e : Dfa) (accepting accepting' : ValueSet → Bool)
    (target target' : ValueSet → Value → ValueSet) (S T : ValueSet) : Prop where
  beq : (S == T) = true
  accepting : accepting S = accepting' T
  target : ∀ a ∈ d.alphabet.toList, ∀ b ∈ e.alphabet.toList, (a == b) = true →
    (target S a == target' T b) = true

/-- Two walks visit equal states and end alike, or with errors of one class. -/
def Walk.SameClass (w w' : Walk) : Prop :=
  List.Forall₂ (fun S T => (S == T) = true) w.path w'.path ∧
    Determinize.SameClass (· = ·) w.outcome w'.outcome

variable {d d' e f : Dfa} {S T : ValueSet} {a : Value} {c : Call}

/-! ### Questions and lookups -/

theorem isAccepting?_eq_acceptsAt (d : Dfa) (S : ValueSet) : d.isAccepting? S =
    if d.hasState S then .ok (d.acceptsAt S) else .error (.unknownState (.states S)) := by
  cases hS : d.hasState S with
  | false =>
    rw [isAccepting?, OrderedMap.find?_eq_none_iff.mpr hS]
    rfl
  | true =>
    obtain ⟨row, hrow⟩ := exists_row_of_hasState hS
    rw [isAccepting?, acceptsAt, hrow]
    rfl

theorem step?_eq_targetAt (ha : a.Hashable) : d.step? S a =
    if d.hasState S then
      if d.alphabet.contains a then
        match d.targetAt S a with
        | some T => .ok T
        | none => .error (.missing (.value a))
      else .error (.unknownSymbol a (some (.states S)))
    else .error (.unknownState (.states S)) := by
  cases hS : d.hasState S with
  | false => exact step?_of_hasState_eq_false hS a
  | true =>
    obtain ⟨row, hrow⟩ := exists_row_of_hasState hS
    rw [step?_eq hrow ha, targetAt, hrow]
    rfl

theorem acceptsAt_of_hasState_eq_false (h : d.hasState S = false) : d.acceptsAt S = false := by
  rw [acceptsAt, OrderedMap.find?_eq_none_iff.mpr h]
  rfl

theorem targetAt_of_hasState_eq_false (h : d.hasState S = false) (a : Value) :
    d.targetAt S a = none := by
  rw [targetAt, OrderedMap.find?_eq_none_iff.mpr h]
  rfl

/-! ### Equality by lookups -/

/-- Rows agree if lookups in them do. -/
theorem rel_rows_iff : Option.Rel (fun r s : Row => r.agrees s = true) (d.rows.find? S)
      (e.rows.find? S) ↔
    d.hasState S = e.hasState S ∧ d.acceptsAt S = e.acceptsAt S ∧
      ∀ a, Option.Rel (fun T T' => (T == T') = true) (d.targetAt S a) (e.targetAt S a) := by
  cases hr : d.rows.find? S with
  | none =>
    have hd : d.hasState S = false := OrderedMap.find?_eq_none_iff.mp hr
    cases hs : e.rows.find? S with
    | none =>
      have he : e.hasState S = false := OrderedMap.find?_eq_none_iff.mp hs
      simp [hd, he, acceptsAt_of_hasState_eq_false, targetAt_of_hasState_eq_false]
    | some s =>
      simp [hd, hasState_of_find?_eq_some hs]
  | some r =>
    have hd := hasState_of_find?_eq_some hr
    cases hs : e.rows.find? S with
    | none =>
      have he : e.hasState S = false := OrderedMap.find?_eq_none_iff.mp hs
      simp [hd, he]
    | some s =>
      rw [Option.rel_some_some, Row.agrees_iff, acceptsAt, acceptsAt, hr, hs, hd,
        hasState_of_find?_eq_some hs]
      simp only [targetAt, hr, hs, Option.any_some, Option.bind_some, true_and]

/-- Equal automata have equal starts and alphabets, the same states, the same accepting states and
equal targets. -/
theorem beq_iff_lookups : (d == e) = true ↔
    (d.start == e.start) = true ∧ (d.alphabet == e.alphabet) = true ∧
      (∀ S, d.hasState S = e.hasState S) ∧ (∀ S, d.acceptsAt S = e.acceptsAt S) ∧
      ∀ S a, Option.Rel (fun T T' => (T == T') = true) (d.targetAt S a) (e.targetAt S a) := by
  simp only [beq_iff, rel_rows_iff, forall_and]

instance : EquivBEq Dfa where
  rfl := beq_iff_lookups.mpr ⟨BEq.rfl, BEq.rfl, fun _ => rfl, fun _ => rfl, fun _ _ => rel_beq_refl _⟩
  symm h := by
    obtain ⟨hstart, halphabet, hstate, haccepts, htarget⟩ := beq_iff_lookups.mp h
    exact beq_iff_lookups.mpr ⟨BEq.symm hstart, BEq.symm halphabet, fun S => (hstate S).symm,
      fun S => (haccepts S).symm, fun S a => rel_beq_symm (htarget S a)⟩
  trans h h' := by
    obtain ⟨hstart, halphabet, hstate, haccepts, htarget⟩ := beq_iff_lookups.mp h
    obtain ⟨hstart', halphabet', hstate', haccepts', htarget'⟩ := beq_iff_lookups.mp h'
    exact beq_iff_lookups.mpr ⟨BEq.trans hstart hstart', BEq.trans halphabet halphabet',
      fun S => (hstate S).trans (hstate' S), fun S => (haccepts S).trans (haccepts' S),
      fun S a => rel_beq_trans (htarget S a) (htarget' S a)⟩

/-- Automata whose rows are in another order are equal, frozen or not. -/
theorem Rearranges.beq (h : d.Rearranges e) : (d == e) = true := by
  have hrows (S : ValueSet) : d.rows.find? S = e.rows.find? S := OrderedMap.find?_perm h.rows S
  refine beq_iff_lookups.mpr ⟨h.start ▸ BEq.rfl, h.alphabet ▸ BEq.rfl, fun S => ?_, fun S => ?_,
    fun S a => ?_⟩
  · rw [Bool.eq_iff_iff, hasState, hasState]
    simp only [OrderedMap.contains, h.rows.any_eq]
  · rw [acceptsAt, acceptsAt, hrows]
  · rw [targetAt, targetAt, hrows]
    exact rel_beq_refl _

/-! ### Equality by questions -/

/-- Only sets of hashable values are states. -/
theorem Sound.hashable_of_hasState (h : d.Sound) (hS : d.hasState S = true) :
    ∀ x ∈ S.toList, x.Hashable := by
  obtain ⟨T, hT, hTS⟩ := exists_mem_of_hasState hS
  exact ValueSet.hashable_of_beq hTS (h.states T hT)

theorem Sound.hashable_of_contains (h : d.Sound) (ha : d.alphabet.contains a = true) :
    a.Hashable := by
  obtain ⟨b, hb, hba⟩ := OrderedSet.contains_iff.mp ha
  exact (Value.hashable_congr hba).mp (h.alphabet b hb)

theorem Sound.targetAt_eq_none (h : d.Sound) (ha : d.alphabet.contains a = false) (S : ValueSet) :
    d.targetAt S a = none := by
  cases htarget : d.targetAt S a with
  | none => rfl
  | some T =>
    rw [h.known S a T htarget] at ha
    cases ha

/-- No question tells equal automata apart. -/
theorem indistinguishable_of_beq (h : (d == e) = true) : d.Indistinguishable e where
  start := (beq_iff.mp h).1
  alphabet := (beq_iff.mp h).2.1
  hasState _ _ := hasState_eq_of_beq h BEq.rfl
  isAccepting _ _ := (sameResult_isAccepting? h BEq.rfl).sameClass
  step _ a _ _ := (sameResult_step? h BEq.rfl a).sameClass

namespace Indistinguishable

variable (h : d.Indistinguishable e) (hd : d.Sound) (he : e.Sound)

include h hd he

theorem hasState_eq (S : ValueSet) : d.hasState S = e.hasState S := by
  by_cases hS : ∀ x ∈ S.toList, x.Hashable
  · exact h.hasState S hS
  · rw [Bool.eq_false_iff.mpr fun hstate => hS (hd.hashable_of_hasState hstate),
      Bool.eq_false_iff.mpr fun hstate => hS (he.hashable_of_hasState hstate)]

theorem acceptsAt_eq (S : ValueSet) : d.acceptsAt S = e.acceptsAt S := by
  have hsame := h.hasState_eq hd he S
  cases hS : d.hasState S with
  | false =>
    rw [acceptsAt_of_hasState_eq_false hS, acceptsAt_of_hasState_eq_false (hsame ▸ hS)]
  | true =>
    have haccepting := h.isAccepting S (hd.hashable_of_hasState hS)
    rw [isAccepting?_eq_acceptsAt, isAccepting?_eq_acceptsAt, ← hsame, hS, if_pos rfl,
      if_pos rfl] at haccepting
    cases haccepting with
    | ok heq => exact heq

/-- The target of a symbol is what a step answers, unless the symbol is not in the alphabet. -/
theorem rel_targetAt (S : ValueSet) (a : Value) :
    Option.Rel (fun T T' => (T == T') = true) (d.targetAt S a) (e.targetAt S a) := by
  have hsame := h.hasState_eq hd he S
  cases hS : d.hasState S with
  | false =>
    rw [targetAt_of_hasState_eq_false hS, targetAt_of_hasState_eq_false (hsame ▸ hS)]
    exact .none
  | true =>
    have halphabet := OrderedSet.beq_iff.mp h.alphabet a
    cases ha : d.alphabet.contains a with
    | false =>
      rw [hd.targetAt_eq_none ha, he.targetAt_eq_none (halphabet ▸ ha)]
      exact .none
    | true =>
      have hhash := hd.hashable_of_contains ha
      have hstep := h.step S a (hd.hashable_of_hasState hS) hhash
      rw [step?_eq_targetAt hhash, step?_eq_targetAt hhash, ← hsame, hS, ← halphabet, ha, if_pos rfl,
        if_pos rfl, if_pos rfl, if_pos rfl] at hstep
      generalize d.targetAt S a = target, e.targetAt S a = target' at hstep
      cases target <;> cases target' <;> cases hstep
      · exact .none
      · rename_i hbeq
        exact .some hbeq

end Indistinguishable

/-- Automata whose contents can be asked about are equal if and only if no question tells them
apart. -/
theorem Sound.beq_iff (hd : d.Sound) (he : e.Sound) :
    (d == e) = true ↔ d.Indistinguishable e :=
  ⟨indistinguishable_of_beq, fun h => beq_iff_lookups.mpr
    ⟨h.start, h.alphabet, h.hasState_eq hd he, h.acceptsAt_eq hd he, h.rel_targetAt hd he⟩⟩

/-- Equal automata give equal walks. -/
theorem sameClass_walk (h : (d == e) = true) (word : List Value) :
    (d.walk word).SameClass (e.walk word) :=
  ⟨((sameAnswers_of_beq h).walk word).1, ((sameAnswers_of_beq h).walk word).2.sameClass⟩

/-! ### Automata made by calls -/

theorem sound_of_new? {start alphabet : Value} (h : new? start alphabet = .ok d) : d.Sound := by
  obtain ⟨S, -, h⟩ := exists_of_bind_eq_ok h
  obtain ⟨A, hA, h⟩ := exists_of_bind_eq_ok h
  injection h with h
  subst h
  exact ⟨fun _ hS => absurd hS List.not_mem_nil, ValueSet.hashable_of_ofValue?_eq_ok hA,
    fun _ _ _ htarget => by cases htarget⟩

theorem hashable_of_entry?_eq_state {accepting : Bool}
    (h : c.entry? = some (.state S accepting)) : ∀ x ∈ S.toList, x.Hashable := by
  cases c with
  | addState state _ =>
    obtain ⟨T, hT, heq⟩ := Option.map_eq_some_iff.mp h
    cases heq
    exact ValueSet.hashable_of_ofValue?_eq_ok (toOption_eq_some_iff.mp hT)
  | addTransition source symbol target =>
    obtain ⟨T, -, h⟩ := Option.bind_eq_some_iff.mp h
    obtain ⟨U, -, heq⟩ := Option.map_eq_some_iff.mp h
    cases heq
  | freeze => cases h

/-- A call that succeeds keeps an automaton sound. -/
theorem Sound.call (h : d.Sound) (hc : d.call c = .ok d') : d'.Sound := by
  obtain ⟨entry, hentry, hpermits, rfl⟩ := call_eq_ok_iff.mp hc
  cases entry with
  | state S accepting =>
    have hS := hashable_of_entry?_eq_state hentry
    refine ⟨fun T hT => ?_, h.alphabet, fun T a U htarget => h.known T a U ?_⟩
    · rw [Dfa.write, states_addState] at hT
      rcases OrderedSet.mem_toList_insert hT with hT | rfl
      · exact h.states T hT
      · exact hS
    · rwa [Dfa.write, targetAt_addState] at htarget
  | target S a T =>
    obtain ⟨-, -, ha, hstate⟩ := hpermits
    refine ⟨fun U hU => ?_, h.alphabet, fun U b V htarget => ?_⟩
    · rw [Dfa.write, states_setTarget hstate] at hU
      exact h.states U hU
    · rw [Dfa.write, targetAt_setTarget] at htarget
      split at htarget
      · rename_i hsame
        rw [Bool.and_eq_true] at hsame
        exact (OrderedSet.contains_congr _ hsame.2) ▸ ha
      · exact h.known U b V htarget
  | freeze => exact ⟨h.states, h.alphabet, h.known⟩

theorem Sound.next (h : d.Sound) (c : Call) : (d.next c).Sound := by
  rw [Dfa.next]
  cases hc : d.call c with
  | error fault => exact h
  | ok d' => exact h.call hc

/-! ### Full tables -/

namespace IsTable

variable {accepting accepting' : ValueSet → Bool} {target target' : ValueSet → Value → ValueSet}

section Lookups

variable (h : d.IsTable accepting target)

include h

theorem acceptsAt_eq (S : ValueSet) : d.acceptsAt S = (d.states.find? S).any accepting := by
  rw [acceptsAt, h.find?_rows, Option.any_map]

theorem targetAt_eq (S : ValueSet) (a : Value) :
    d.targetAt S a = (d.states.find? S).bind fun S' => (d.alphabet.find? a).map (target S') := by
  rw [targetAt, h.find?_rows]
  cases d.states.find? S with
  | none => rfl
  | some S' => exact OrderedMap.find?_ofKeys ..

/-- A full table is sound if the members of its states are hashable. -/
theorem sound (hstates : ∀ S ∈ d.states.toList, ∀ x ∈ S.toList, x.Hashable) : d.Sound where
  states := hstates
  alphabet := h.hashable
  known S a T htarget := by
    rw [h.targetAt_eq, Option.bind_eq_some_iff] at htarget
    obtain ⟨S', -, htarget⟩ := htarget
    obtain ⟨b, hb, -⟩ := Option.map_eq_some_iff.mp htarget
    obtain ⟨hmem, hba⟩ := OrderedSet.find?_eq_some hb
    exact OrderedSet.contains_iff.mpr ⟨b, hmem, hba⟩

end Lookups

/-- Full tables over equal alphabets are equal if their rows agree one by one. -/
theorem beqInOrder (hd : d.IsTable accepting target) (he : e.IsTable accepting' target')
    (halphabet : (d.alphabet == e.alphabet) = true)
    (hrows : List.Forall₂ (RowsAgree d e accepting accepting' target target') d.states.toList
      e.states.toList) : d.BeqInOrder e := by
  have hstates : List.Forall₂ (fun S T => (S == T) = true) d.states.toList e.states.toList :=
    hrows.imp fun _ _ h => h.beq
  have hfind (S : ValueSet) : Option.Rel (RowsAgree d e accepting accepting' target target')
      (d.states.find? S) (e.states.find? S) :=
    forall₂_find? hrows fun _ _ h => BEq.congr_left h.beq
  refine ⟨beq_iff_lookups.mpr ⟨?_, halphabet, fun S => ?_, fun S => ?_, fun S a => ?_⟩, hstates⟩
  · have hfirst := hstates
    obtain ⟨tail, htail⟩ := List.head?_eq_some_iff.mp hd.first
    obtain ⟨tail', htail'⟩ := List.head?_eq_some_iff.mp he.first
    rw [htail, htail', List.forall₂_cons] at hfirst
    exact hfirst.1
  · rw [← contains_states, ← contains_states]
    exact OrderedSet.contains_eq_of_forall₂ respectsBEq_beq hstates BEq.rfl
  · rw [hd.acceptsAt_eq, he.acceptsAt_eq]
    have hS := hfind S
    generalize d.states.find? S = found, e.states.find? S = found' at hS
    cases hS with
    | none => rfl
    | some hrow => exact hrow.accepting
  · rw [hd.targetAt_eq, he.targetAt_eq]
    have hS := hfind S
    generalize d.states.find? S = found, e.states.find? S = found' at hS
    cases hS with
    | none => exact .none
    | some hrow =>
      exact rel_map (OrderedSet.rel_find?_of_beq halphabet a) fun x y hxy =>
        hrow.target x hxy.1 y hxy.2.1 hxy.2.2

end IsTable

end Dfa

end Determinize
