import Determinize.Nfa.Closure
import Determinize.Proofs.Dfa.Equality
import Determinize.Proofs.Nfa.Closure

/-!
# The subset automaton

The subset automaton of a nondeterministic automaton over an alphabet has the sets reached by the
words over the alphabet as its states and their successors as targets, and it accepts in the sets
with an accept state. Up to equality there is only one. It is complete, and a walk along a word over
the alphabet ends in the set reached by the word.

## Main definitions

* `Dfa.IsSubsetAutomaton`.

## Main results

* `Nfa.isAccepting_reached_iff` — reached sets accept the language.
* `Dfa.IsSubsetAutomaton.beq` — subset automata over equal alphabets are equal.
* `Dfa.IsSubsetAutomaton.complete`, `Dfa.IsSubsetAutomaton.outcome_walk`.
-/

namespace Determinize

/-! ### Accepting sets -/

namespace Nfa

variable {n : Nfa} {S T : ValueSet} {word : List Value}

theorem isAccepting_iff :
    n.isAccepting S = true ↔ ∃ q, n.accepts.contains q = true ∧ S.contains q = true := by
  rw [isAccepting, OrderedSet.isDisjoint, Bool.not_not, List.any_eq_true]
  constructor
  · rintro ⟨q, hq, hS⟩
    exact ⟨q, OrderedSet.contains_of_mem hq, hS⟩
  · rintro ⟨q, hq, hS⟩
    obtain ⟨x, hx, hxq⟩ := OrderedSet.contains_iff.mp hq
    exact ⟨x, hx, by rwa [OrderedSet.contains_congr S hxq]⟩

theorem isAccepting_congr (h : (S == T) = true) : n.isAccepting S = n.isAccepting T := by
  rw [Bool.eq_iff_iff, isAccepting_iff, isAccepting_iff]
  simp only [OrderedSet.beq_iff.mp h]

/-- The set reached by a word accepts if the word is accepted. -/
theorem isAccepting_reached_iff (hword : ∀ a ∈ word, (a == n.marker) = false) :
    n.isAccepting (n.reached word) = true ↔ n.Accepts word := by
  rw [isAccepting_iff, Accepts]
  simp only [contains_reached_iff hword]

end Nfa

/-! ### Subset automata -/

/-- The automaton of the sets that `n` reaches by the words over an alphabet. -/
structure Dfa.IsSubsetAutomaton (d : Dfa) (n : Nfa) (symbols : ValueSet) : Prop where
  start : (d.start == n.reached []) = true
  alphabet : (d.alphabet == symbols) = true
  hasState_iff : ∀ S, d.hasState S = true ↔
    ∃ word, (∀ a ∈ word, symbols.contains a = true) ∧ (n.reached word == S) = true
  accepting : ∀ S row, d.rows.find? S = some row → row.accepting = n.isAccepting S
  target : ∀ S row a, d.rows.find? S = some row → symbols.contains a = true →
    ∃ T, row.targets.find? a = some T ∧ (T == n.successor S a) = true
  no_target : ∀ S row a, d.rows.find? S = some row → symbols.contains a = false →
    row.targets.find? a = none

namespace Dfa.IsSubsetAutomaton

variable {d e : Dfa} {n : Nfa} {A B : ValueSet} {S : ValueSet} {a : Value} {word : List Value}

theorem contains_alphabet (hd : d.IsSubsetAutomaton n A) (a : Value) :
    d.alphabet.contains a = A.contains a :=
  OrderedSet.beq_iff.mp hd.alphabet a

theorem hasState_start (hd : d.IsSubsetAutomaton n A) : d.hasState d.start = true :=
  (hd.hasState_iff d.start).mpr ⟨[], fun _ ha => absurd ha List.not_mem_nil, BEq.symm hd.start⟩

/-- Subset automata over equal alphabets are equal. -/
theorem beq (hd : d.IsSubsetAutomaton n A) (he : e.IsSubsetAutomaton n B)
    (hAB : (A == B) = true) : (d == e) = true := by
  have hsymbols : ∀ a, A.contains a = B.contains a := OrderedSet.beq_iff.mp hAB
  have hstate (S : ValueSet) : d.hasState S = e.hasState S := by
    rw [Bool.eq_iff_iff, hd.hasState_iff, he.hasState_iff]
    simp only [hsymbols]
  refine beq_iff.mpr ⟨BEq.trans hd.start (BEq.symm he.start),
    BEq.trans hd.alphabet (BEq.trans hAB (BEq.symm he.alphabet)), fun S => ?_⟩
  cases hr : d.rows.find? S with
  | none =>
    have hnot : e.hasState S = false := by
      rw [← hstate S]
      exact OrderedMap.find?_eq_none_iff.mp hr
    rw [OrderedMap.find?_eq_none_iff.mpr hnot]
    exact .none
  | some r =>
    obtain ⟨s, hs⟩ := exists_row_of_hasState (hstate S ▸ hasState_of_find?_eq_some hr)
    rw [hs]
    refine .some (Row.agrees_iff.mpr ⟨?_, fun a => ?_⟩)
    · rw [hd.accepting S r hr, he.accepting S s hs]
    · cases ha : A.contains a with
      | false =>
        rw [hd.no_target S r a hr ha, he.no_target S s a hs (hsymbols a ▸ ha)]
        exact .none
      | true =>
        obtain ⟨T, hT, hsucc⟩ := hd.target S r a hr ha
        obtain ⟨T', hT', hsucc'⟩ := he.target S s a hs (hsymbols a ▸ ha)
        rw [hT, hT']
        exact .some (BEq.trans hsucc (BEq.symm hsucc'))

/-- A successor of a state is a state. -/
theorem hasState_of_beq_successor (hd : d.IsSubsetAutomaton n A) (hS : d.hasState S = true)
    (ha : A.contains a = true) {T : ValueSet} (hT : (T == n.successor S a) = true) :
    d.hasState T = true := by
  obtain ⟨word, hword, hreached⟩ := (hd.hasState_iff S).mp hS
  refine (hd.hasState_iff T).mpr ⟨word ++ [a], ?_, ?_⟩
  · rw [List.forall_mem_append]
    exact ⟨hword, List.forall_mem_singleton.mpr ha⟩
  · rw [Nfa.reached_append_singleton]
    exact BEq.trans (Nfa.successor_congr hreached BEq.rfl) (BEq.symm hT)

/-- A symbol of the alphabet leads to the successor. -/
theorem exists_step? (hd : d.IsSubsetAutomaton n A) (hS : d.hasState S = true)
    (hhash : a.Hashable) (ha : A.contains a = true) :
    ∃ T, d.step? S a = .ok T ∧ (T == n.successor S a) = true := by
  obtain ⟨row, hrow⟩ := exists_row_of_hasState hS
  obtain ⟨T, hT, hsucc⟩ := hd.target S row a hrow ha
  refine ⟨T, ?_, hsucc⟩
  rw [step?_eq hrow hhash, hd.contains_alphabet, ha, if_pos rfl, hT]

theorem complete (hd : d.IsSubsetAutomaton n A) : d.Complete := by
  intro S a hS hhash ha
  rw [hd.contains_alphabet] at ha
  obtain ⟨T, hT, hsucc⟩ := hd.exists_step? hS hhash ha
  exact ⟨T, hT, hd.hasState_of_beq_successor hS ha hsucc⟩

theorem isAccepting?_eq (hd : d.IsSubsetAutomaton n A) (hS : d.hasState S = true) :
    d.isAccepting? S = .ok (n.isAccepting S) := by
  obtain ⟨row, hrow⟩ := exists_row_of_hasState hS
  rw [isAccepting?, hrow, ← hd.accepting S row hrow]

/-- A walk along a word over the alphabet ends in the set that the word leads to. -/
theorem outcome_walkFrom (hd : d.IsSubsetAutomaton n A) (hS : d.hasState S = true)
    (hword : ∀ a ∈ word, a.Hashable ∧ A.contains a = true) {T : ValueSet}
    (hST : (S == T) = true) :
    (d.walkFrom S word).outcome = .ok (n.isAccepting (word.foldl n.successor T)) := by
  induction word generalizing S T with
  | nil =>
    rw [walkFrom, hd.isAccepting?_eq hS, Nfa.isAccepting_congr hST]
    rfl
  | cons a word ih =>
    rw [List.forall_mem_cons] at hword
    obtain ⟨next, hnext, hsucc⟩ := hd.exists_step? hS hword.1.1 hword.1.2
    rw [walkFrom_cons_of_ok hnext, List.foldl_cons]
    exact ih (hd.hasState_of_beq_successor hS hword.1.2 hsucc) hword.2
      (BEq.trans hsucc (Nfa.successor_congr hST BEq.rfl))

/-- A walk along a word over the alphabet ends in the set that is reached by the word. -/
theorem outcome_walk (hd : d.IsSubsetAutomaton n A)
    (hword : ∀ a ∈ word, a.Hashable ∧ A.contains a = true) :
    (d.walk word).outcome = .ok (n.isAccepting (n.reached word)) :=
  hd.outcome_walkFrom hd.hasState_start hword hd.start

end Dfa.IsSubsetAutomaton

end Determinize
