import Determinize.Proofs.Construction.Table
import Determinize.Proofs.Nfa.Description
import Determinize.Workflow.Automaton

/-!
# What is shown depends only on the sets described

An automaton can be described in many ways: its transitions, start states and accept states can be
listed in any order, and several times. The order of a description decides in which order the values
are stored, and in which order they come into the sets that a conversion meets. These sets are equal
for two descriptions of the same, met in the same order: the two searches stay in step. Whatever is
shown of them is sorted, and the sorts do not depend on the order given, because values that are
spelled differently have different texts or types. Different transitions can have the same text, but
then their lines are the same.

## Main definitions

* `SameOutput` — two conversions show the same.
* `Nfa.Description.ShownAlike` — two descriptions show the same.

## Main results

* `Nfa.Same.forall₂_explore`, `Nfa.Same.same_dfa` — runs on automata that store the same.
* `Nfa.Description.shownAlike_of_sameSets` — descriptions of the same sets.
-/

namespace Determinize

/-! ### The lines that show an automaton -/

/-- Whether a transition can be written. -/
def writableTransition [DigitLimit] (t : Value × Value × Value) : Bool :=
  t.1.writable && t.2.1.writable && t.2.2.writable

/-- The texts of a transition without a limit on digits. -/
def transitionTexts (t : Value × Value × Value) : List String :=
  [t.1.display, t.2.1.display, t.2.2.display]

/-- The lines of the transitions without a limit on digits. -/
def Nfa.transitionLines (n : Nfa) : List String :=
  (insertionSort (fun x y => decide (x < y)) (n.transitions.map transitionTexts)).map transitionText

section Lines

variable [DigitLimit]

theorem transitionTexts?_eq (t : Value × Value × Value) :
    transitionTexts? t = if writableTransition t then some (transitionTexts t) else none := by
  obtain ⟨p, a, q⟩ := t
  have htexts : [p, a, q].mapM Value.display? = if [p, a, q].all Value.writable then
      some ([p, a, q].map Value.display) else none := mapM_option_eq_ite fun _ _ => rfl
  rw [transitionTexts?, htexts, writableTransition]
  simp only [List.all_cons, List.all_nil, Bool.and_true, Bool.and_assoc]
  rfl

/-- The lines of the transitions are those without a limit, if the transitions can be written. -/
theorem Nfa.transitionLines?_eq (n : Nfa) : n.transitionLines? =
    if n.transitions.all writableTransition then some n.transitionLines else none := by
  rw [transitionLines?, mapM_option_eq_ite fun t _ => transitionTexts?_eq t]
  split <;> rfl

omit [DigitLimit] in
/-- Lines that can be written are printed. -/
theorem printingLines_map_some (lines : List String) :
    printingLines (lines.map some) = .printing (String.join (lines.map line)) := by
  induction lines with
  | nil => rfl
  | cons text lines ih =>
    rw [List.map_cons, printingLines, ih, List.map_cons, String.join_cons]
    rfl

/-- An automaton is shown if what it stores can be written. -/
theorem Nfa.exists_lines?_eq {n : Nfa} (hstarts : n.starts.writable = true)
    (haccepts : n.accepts.writable = true)
    (htransitions : n.transitions.all writableTransition = true) :
    ∃ lines, n.lines? = List.map some lines := by
  rw [lines?, ValueSet.render?_eq, ValueSet.render?_eq, transitionLines?_eq, hstarts, haccepts,
    htransitions]
  exact ⟨[_, _] ++ n.transitionLines, by rw [List.map_append]; rfl⟩

end Lines

/-! ### Conversions of automata that store the same -/

namespace Nfa.Same

variable {n n' : Nfa} {p a q : Value} {S T : ValueSet}

theorem hasEdge_iff (h : n.Same n') : n.HasEdge p a q ↔ n'.HasEdge p a q := by
  simp only [HasEdge, h.transitions.mem_iff]

theorem silent_iff (h : n.Same n') : n.Silent p q ↔ n'.Silent p q :=
  ⟨fun hs => hs.mono h.marker fun _ _ _ => h.hasEdge_iff.mp,
    fun hs => hs.mono h.marker.symm fun _ _ _ => h.hasEdge_iff.mpr⟩

theorem beq_closure (h : n.Same n') (hST : (S == T) = true) :
    (n.closure S == n'.closure T) = true := by
  rw [OrderedSet.beq_iff] at hST ⊢
  intro q
  rw [Bool.eq_iff_iff, contains_closure_iff, contains_closure_iff]
  simp only [hST, h.silent_iff]

theorem beq_successor (h : n.Same n') (hST : (S == T) = true) (a : Value) :
    (n.successor S a == n'.successor T a) = true := by
  rw [OrderedSet.beq_iff] at hST ⊢
  intro q
  rw [Bool.eq_iff_iff, contains_successor_iff, contains_successor_iff]
  simp only [hST, h.hasEdge_iff, h.silent_iff]

theorem isAccepting_eq (h : n.Same n') (hST : (S == T) = true) :
    n.isAccepting S = n'.isAccepting T := by
  rw [Bool.eq_iff_iff, isAccepting_iff, isAccepting_iff]
  simp only [OrderedSet.beq_iff.mp h.accepts.beq, OrderedSet.beq_iff.mp hST]

/-- Automata that store the same have the same transitions to show, or none can be shown. -/
theorem transitionLines?_eq [DigitLimit] (h : n.Same n') :
    n.transitionLines? = n'.transitionLines? := by
  have htexts := h.transitions.map transitionTexts
  have hsorted := insertionSort_key_perm (fun _ _ => decide_eq_true_iff) htexts fun _ _ _ _ => id
  rw [Nfa.transitionLines?_eq, Nfa.transitionLines?_eq, h.transitions.all_eq, transitionLines,
    transitionLines, hsorted]

/-- Automata that store the same are shown alike. -/
theorem lines?_eq [DigitLimit] (h : n.Same n') : n.lines? = n'.lines? := by
  have hstarts : n.starts.render? = n'.starts.render? := by
    rw [ValueSet.render?_eq, ValueSet.render?_eq, h.starts.render_eq,
      ValueSet.writable_congr h.starts.beq]
  have haccepts : n.accepts.render? = n'.accepts.render? := by
    rw [ValueSet.render?_eq, ValueSet.render?_eq, h.accepts.render_eq,
      ValueSet.writable_congr h.accepts.beq]
  rw [lines?, lines?, hstarts, haccepts, h.transitionLines?_eq]

/-! The members of the sets that a run meets are start states and targets, as they are stored. -/

section Legible

variable {P : Value → Prop} (h : n.Same n') (hP : Value.Legible P)
  (hstarts : ∀ p ∈ n.starts.toList, P p) (htargets : ∀ t ∈ n.transitions, P t.2.2)

include h hP htargets

theorem same_successor (hST : S.Same T) (a : Value) : (n.successor S a).Same (n'.successor T a) :=
  ValueSet.same_of_beq hP (forall_mem_successor htargets)
    (forall_mem_successor fun t ht => htargets t (h.transitions.mem_iff.mpr ht))
    (h.beq_successor hST.beq a)

include hstarts

theorem same_closure_starts : (n.closure n.starts).Same (n'.closure n'.starts) :=
  ValueSet.same_of_beq hP (forall_mem_closure htargets hstarts)
    (forall_mem_closure (fun t ht => htargets t (h.transitions.mem_iff.mpr ht))
      fun p hp => hstarts p (h.starts.perm.mem_iff.mpr hp))
    (h.beq_closure h.starts.beq)

/-- Runs on automata that store the same discover the same sets in the same order. -/
theorem forall₂_explore (c : Construction) :
    List.Forall₂ ValueSet.Same (c.explore n).discovered.toList
      (c.explore n').discovered.toList := by
  have hnext (S T : ValueSet) (hST : S.Same T) :
      List.Forall₂ ValueSet.Same (c.successors n S) (c.successors n' T) :=
    Construction.forall₂_successors (List.forall₂_same.mpr fun a _ =>
      h.same_successor hP htargets hST a)
  exact Construction.forall₂_explore ValueSet.respectsBEq_same rfl
    (h.same_closure_starts hP hstarts htargets) hnext

/-- Runs on automata that store the same make the same automaton. -/
theorem same_dfa (c : Construction) : (c.dfa n).Same (c.dfa n') := by
  have hexplore := h.forall₂_explore hP hstarts htargets c
  have hrow (S T : ValueSet) (hST : S.Same T) : (c.row n (c.explore n).discovered S).Same
      (c.row n' (c.explore n').discovered T) := by
    refine ⟨h.isAccepting_eq hST.beq, ?_⟩
    refine List.forall₂_map_left_iff.mpr (List.forall₂_map_right_iff.mpr
      (List.forall₂_same.mpr fun a _ => ⟨rfl, ?_⟩))
    have hsuccessor := h.same_successor hP htargets hST a
    have hfound : Option.Rel ValueSet.Same ((c.explore n).discovered.find? (n.successor S a))
        ((c.explore n').discovered.find? (n'.successor T a)) :=
      forall₂_find? hexplore fun _ _ hxy => ValueSet.respectsBEq_same hxy hsuccessor
    exact rel_getD hfound hsuccessor
  exact ⟨h.same_closure_starts hP hstarts htargets, rfl,
    List.forall₂_map_left_iff.mpr (List.forall₂_map_right_iff.mpr
      (hexplore.imp fun S T hST => ⟨hST, hrow S T hST⟩))⟩

end Legible

end Nfa.Same

/-! ### What is shown -/

section Output

variable [DigitLimit]

/-- Two conversions end with the same error, or with the same states in the order of discovery, the
same text and the same data. There is no text only if it cannot be written. -/
inductive SameOutput : (r r' : Except AutomatonError Conversion) → Prop
  | error (e : AutomatonError) : SameOutput (.error e) (.error e)
  | ok {c c' : Conversion} (text : String)
      (states : List.Forall₂ (fun S T => S.toList.Perm T.toList) c.dfa.states.toList
        c'.dfa.states.toList)
      (htext : c.dfa.render? = if c.dfa.writable then .ok text else .error .tooManyDigits)
      (htext' : c'.dfa.render? = c.dfa.render?)
      (data : c.dfa.toValue? = c'.dfa.toValue?) : SameOutput (.ok c) (.ok c')

namespace Nfa

variable {n n' : Nfa}

/-- Conversions of automata that store the same show the same, and they are refused alike. -/
theorem Same.sameOutput_convert? {P : Value → Prop} (h : n.Same n') (hP : Value.Legible P)
    (hstarts : ∀ p ∈ n.starts.toList, P p) (htargets : ∀ t ∈ n.transitions, P t.2.2)
    (hmarker : n.marker.Hashable) (alphabet worklist : Value) :
    SameOutput (n.convert? (some alphabet) worklist) (n'.convert? (some alphabet) worklist) := by
  have hprepare : Construction.prepare? n' alphabet worklist =
      Construction.prepare? n alphabet worklist := by
    simp only [Construction.prepare?, h.marker]
  simp only [convert?, Option.getD_some, hprepare]
  cases hc : Construction.prepare? n alphabet worklist with
  | error e => exact .error e
  | ok c =>
    have hdfa := h.same_dfa hP hstarts htargets c
    have htable := c.isTable_dfa (n := n)
      (ValueSet.hashable_of_ofValue?_eq_ok (Construction.of_prepare?_eq_ok hc).2)
    have hreportable : Construction.reportable (c.dfa n) = Construction.reportable (c.dfa n') :=
      forall₂_all (List.forall₂_drop 1 hdfa.forall₂_states) fun _ _ hST =>
        ValueSet.writable_congr hST.beq
    change SameOutput (c.run? n) (c.run? n')
    rw [c.run?_eq hmarker, c.run?_eq (h.marker ▸ hmarker), ← hreportable]
    cases Construction.reportable (c.dfa n) with
    | false => exact .error .tooManyDigits
    | true =>
      exact .ok _ (hdfa.forall₂_states.imp fun _ _ hST => hST.perm) htable.render?_eq
        hdfa.render?_eq.symm hdfa.toValue?_eq

namespace Description

theorem show_config {D : Description} {n : Nfa} (h : D.nfa? = .ok n)
    (conversion : Option ConversionConfig) (source : Value) :
    (AutomatonConfig.mk (some D.config) conversion source).show =
      printingLines n.lines? := by
  have hnfa : D.config.nfa? = .ok n := by
    rw [config_nfa?, h]
    rfl
  simp only [AutomatonConfig.show, AutomatonConfig.nfa?, hnfa]

/-- Two descriptions are descriptions of automata whose conversions show the same, whatever the
alphabet and the order of expansion, and which are themselves shown alike: by the same text, or up to
the same line if what they describe cannot be written. -/
def ShownAlike (D E : Description) : Prop :=
  ∃ n n', D.nfa? = .ok n ∧ E.nfa? = .ok n' ∧
    (∀ alphabet worklist : Value,
      SameOutput (n.convert? (some alphabet) worklist) (n'.convert? (some alphabet) worklist)) ∧
    ∃ shown,
      (∀ conversion source,
        (AutomatonConfig.mk (some D.config) conversion source).show = shown) ∧
      (∀ conversion source,
        (AutomatonConfig.mk (some E.config) conversion source).show = shown) ∧
      ((∀ x ∈ D.values, x.writable = true) → ∃ text, shown = .printing text)

/-- What is described can be written, if its values can. -/
theorem exists_lines?_build {D : Description} (h : ∀ x ∈ D.values, x.writable = true) :
    ∃ lines, D.build.lines? = List.map some lines := by
  obtain ⟨-, hstarts, haccepts⟩ := linkAll_fields D.bare D.links
  obtain ⟨-, hDstarts, hDaccepts, -⟩ := forall_mem_values.mp h
  have hwritable {xs : List Value} (hxs : ∀ x ∈ xs, x.writable = true) :
      ValueSet.writable (OrderedSet.ofList xs) = true :=
    ValueSet.writable_iff.mpr fun x hx => hxs x (OrderedSet.mem_of_mem_toList_ofList hx)
  refine exists_lines?_eq ?_ ?_ (List.all_eq_true.mpr fun t ht => ?_)
  · rw [build, hstarts]
    exact hwritable hDstarts
  · rw [build, haccepts]
    exact hwritable hDaccepts
  · obtain ⟨hp, ha, hq⟩ := (stores_build h).of_mem_transitions ht
    simp only [writableTransition, hp, ha, hq, Bool.and_self]

/-- What is shown of an automaton and of its conversions depends on the sets that describe it, and
not on the order and the repetitions in which they are given, if equal values are spelled alike.
`hdoubles` says that the doubles are ones that exist: not every rational number is one. -/
theorem shownAlike_of_sameSets (D E : Description) (h : D.SameSets E)
    (hhash : ∀ x ∈ D.values ++ E.values, x.Hashable)
    (hspelled : ∀ x ∈ D.values ++ E.values, ∀ y ∈ D.values ++ E.values, (x == y) = true → x = y)
    (hdoubles : ∀ x ∈ D.values ++ E.values, x.Representable) :
    D.ShownAlike E := by
  have hP : Value.Legible (· ∈ D.values ++ E.values) :=
    ⟨fun hx hy => hspelled _ hx _ hy, fun hx => hdoubles _ hx⟩
  have hD : ∀ x ∈ D.values, x ∈ D.values ++ E.values := fun _ => List.mem_append_left _
  have hE : ∀ x ∈ E.values, x ∈ D.values ++ E.values := fun _ => List.mem_append_right _
  have hsame := h.same_build hP hD hE
  have hn := nfa?_eq fun x hx => hhash x (hD x hx)
  have hn' := nfa?_eq fun x hx => hhash x (hE x hx)
  obtain ⟨hmarker, hstarts, -⟩ := linkAll_fields D.bare D.links
  refine ⟨D.build, E.build, hn, hn', fun alphabet worklist => ?_, _, show_config hn,
    hsame.lines?_eq ▸ show_config hn', fun hwritable => ?_⟩
  · refine hsame.sameOutput_convert? hP (fun p hp => ?_) (fun t ht => ?_) ?_ alphabet worklist
    · rw [build, hstarts] at hp
      exact (forall_mem_values.mp hD).2.1 p (OrderedSet.mem_of_mem_toList_ofList hp)
    · exact ((stores_build hD).of_mem_transitions ht).2.2
    · rw [build, hmarker]
      exact hhash _ (hD _ List.mem_cons_self)
  · obtain ⟨lines, hlines⟩ := exists_lines?_build hwritable
    exact ⟨_, hlines ▸ printingLines_map_some lines⟩

end Description

end Nfa

end Output

namespace Nfa.Description

/-- States of four types, a transition given as `null`, and two transitions with the same text. -/
def mixed : Description where
  transitions := [(.int 1, .text "a", .text "q"), (.text "1", .text "a", .text "q"),
    (.text "q", .null, .int 1), (.int 1, .text "b", .real (.finite (5 / 2))),
    (.text "q", .text "b", .tuple [.int 1])]
  starts := [.int 1, .text "1"]
  accepts := [.text "q", .real (.finite (5 / 2))]
  marker := .text "e"

/-- The same sets in another order, with repetitions. -/
def mixedAgain : Description where
  transitions := mixed.transitions.reverse ++ [(.text "1", .text "a", .text "q")]
  starts := [.text "1", .int 1, .text "1"]
  accepts := [.real (.finite (5 / 2)), .text "q"]
  marker := .text "e"

theorem shownAlike_mixed : mixed.ShownAlike mixedAgain :=
  mixed.shownAlike_of_sameSets mixedAgain
    ⟨by decide, by decide +kernel, by decide, by decide +kernel⟩ (by decide) (by decide +kernel)
    (by decide +kernel)

end Nfa.Description

end Determinize
