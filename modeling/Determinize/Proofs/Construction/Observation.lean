import Determinize.Proofs.Construction.Table
import Determinize.Proofs.Dfa.Observation
import Determinize.Proofs.Nfa.History

/-!
# Equality of the automata that can be made

Automata are made empty or by a conversion, and then changed by calls. All of them are sound, so two of
them are equal if and only if no question tells them apart.

## Main definitions

* `Dfa.Made` — automata with a history.

## Main results

* `Construction.forall_mem_explore` — what the members of the states of a run are.
* `Nfa.sound_of_convert?`, `Dfa.Made.sound` — automata are sound.
* `Dfa.beq_iff_indistinguishable` — equality is observational.
-/

namespace Determinize

/-- What holds of the start states and of the targets holds of the members of the sets that a run
explores. -/
theorem Construction.forall_mem_explore {c : Construction} {n : Nfa} {P : Value → Prop}
    (hstarts : ∀ p ∈ n.starts.toList, P p) (htargets : ∀ t ∈ n.transitions, P t.2.2) :
    ∀ S ∈ (c.explore n).discovered.toList, ∀ x ∈ S.toList, P x := by
  intro S hS
  obtain ⟨word, -, rfl⟩ := exists_word_of_mem_explore hS
  cases word using List.reverseRecOn with
  | nil => exact Nfa.forall_mem_closure htargets hstarts
  | append_singleton word a =>
    rw [Nfa.reached_append_singleton]
    exact Nfa.forall_mem_successor htargets

namespace Nfa

variable [DigitLimit] {n : Nfa} {alphabet : Option Value} {worklist : Value} {r : Conversion}

/-- What holds of the start states and of the targets holds of the members of the states of a converted
automaton. -/
theorem forall_mem_states_convert? {P : Value → Prop}
    (h : n.convert? alphabet worklist = .ok r) (hstarts : ∀ p ∈ n.starts.toList, P p)
    (htargets : ∀ t ∈ n.transitions, P t.2.2) :
    ∀ S ∈ r.dfa.states.toList, ∀ x ∈ S.toList, P x := by
  obtain ⟨c, hc, -⟩ := exists_dfa_of_convert? h
  rw [hc, Construction.states_dfa]
  exact Construction.forall_mem_explore hstarts htargets

/-- Converted automata are sound. -/
theorem sound_of_convert? (hn : n.Built) (h : n.convert? alphabet worklist = .ok r) :
    r.dfa.Sound := by
  obtain ⟨target, htable⟩ := exists_isTable_of_convert? h
  exact htable.sound (forall_mem_states_convert? h hn.sound.starts fun t ht =>
    (hn.sound.stores.of_mem_transitions ht).2.2)

end Nfa

namespace Dfa

/-- The automata that are made, without states or by a conversion, and then changed by calls. -/
inductive Made : Dfa → Prop
  | new {start alphabet : Value} {d : Dfa} (h : new? start alphabet = .ok d) : Made d
  | converted [DigitLimit] {n : Nfa} {alphabet : Option Value} {worklist : Value} {r : Conversion}
      (hn : n.Built) (h : n.convert? alphabet worklist = .ok r) : Made r.dfa
  | next {d : Dfa} (h : Made d) (c : Call) : Made (d.next c)

theorem Made.after {d : Dfa} (h : d.Made) (calls : List Call) : (d.after calls).Made := by
  induction calls generalizing d with
  | nil => exact h
  | cons c calls ih => exact ih (h.next c)

/-- Whatever the history, automata are sound. -/
theorem Made.sound {d : Dfa} (h : d.Made) : d.Sound := by
  induction h with
  | new h => exact sound_of_new? h
  | converted hn h => exact Nfa.sound_of_convert? hn h
  | next _ c ih => exact ih.next c

/-- Two automata are equal if and only if no question tells them apart. Equality is an equivalence
relation, it ignores the order of the states and whether an automaton is frozen, and equal automata
give equal walks. -/
theorem beq_iff_indistinguishable {d e : Dfa} (hd : d.Made) (he : e.Made) :
    ((d == e) = true ↔ d.Indistinguishable e) ∧
      EquivBEq Dfa ∧
      (∀ d', d'.Rearranges d → (d' == e) = (d == e)) ∧
      ((d == e) = true → ∀ word, (d.walk word).SameClass (e.walk word)) :=
  ⟨hd.sound.beq_iff he.sound, inferInstance, fun _ h => BEq.congr_left h.beq, sameClass_walk⟩

/-- An automaton with two states, one of which leads to a set that is not a state. -/
def sketched : Dfa :=
  (⟨.ofList [.int 0], .ofList [.text "a", .text "b"], .empty, false⟩ : Dfa).after
    [.addState (.list [.int 0]) true, .addState (.list [.int 1]) false,
      .addTransition (.list [.int 0]) (.text "a") (.list [.int 2]), .freeze]

/-- The same automaton, its states added in another order and spelled differently. -/
def sketchedAgain : Dfa :=
  (⟨.ofList [.bool false], .ofList [.text "b", .text "a"], .empty, false⟩ : Dfa).after
    [.addState (.list [.bool true]) false, .addState (.list [.int 0]) false,
      .addTransition (.list [.bool false]) (.text "a") (.list [.real (.finite 2)]),
      .addState (.list [.bool false]) true]

/-- A walk over the missing state ends with errors of one class. -/
theorem beq_iff_indistinguishable_sketched :
    sketched.Made ∧ sketchedAgain.Made ∧ sketched.Indistinguishable sketchedAgain ∧
      (sketched.walk [.text "a", .text "a"]).SameClass
        (sketchedAgain.walk [.text "a", .text "a"]) ∧
      sketched.states.toList.map OrderedSet.toList = [[.int 0], [.int 1]] ∧
      sketchedAgain.states.toList.map OrderedSet.toList = [[.bool true], [.int 0]] := by
  have hnew : new? (.list [.int 0]) (.list [.text "a", .text "b"]) =
      .ok ⟨.ofList [.int 0], .ofList [.text "a", .text "b"], .empty, false⟩ := rfl
  have hnew' : new? (.list [.bool false]) (.list [.text "b", .text "a"]) =
      .ok ⟨.ofList [.bool false], .ofList [.text "b", .text "a"], .empty, false⟩ := rfl
  have hmade : sketched.Made := (Made.new hnew).after _
  have hmade' : sketchedAgain.Made := (Made.new hnew').after _
  obtain ⟨hiff, -, -, hwalk⟩ := beq_iff_indistinguishable hmade hmade'
  have hbeq : (sketched == sketchedAgain) = true := by decide
  exact ⟨hmade, hmade', hiff.mp hbeq, hwalk hbeq _, by decide, by decide⟩

end Dfa

end Determinize
