import Determinize.Proofs.Construction.Exploration
import Determinize.Proofs.Nfa.History

/-!
# Converted automata have exactly the reached sets as states

The states of a converted automaton are the sets of states that are reached by the words over the
alphabet, each once, the set reached by the empty word first. The automaton is complete and closed:
a state has a transition for every symbol of the alphabet and for no other symbol, and the
transition leads to the state of what is reached from it. The states with an accept state are the
accepting ones, and the empty set is a state if some word reaches nothing.

So a walk along a word over the alphabet takes one step for each symbol, visits states only, and ends
in an accepting state if and only if the nondeterministic automaton accepts the word. The order of
the symbols, their repetition and the order of expansion decide in which order the sets are met and
how they are spelled, but not which sets these are: there is only one such automaton.

A conversion fails if and only if a set that it would report has a member with too many digits.

## Main definitions

* `Dfa.Determinizes`.

## Main results

* `Nfa.convert?_determinizes` — what the states are.
* `Nfa.walk_convert?_iff_accepts` — the language is kept.
* `Nfa.convert?_beq_of_sameSymbols` — the order of exploration does not matter.
-/

namespace Determinize

/-- An automaton has the sets that `n` reaches by the words over an alphabet as states. -/
structure Dfa.Determinizes (d : Dfa) (n : Nfa) (symbols : List Value) : Prop where
  /-- No two states are equal. -/
  distinct : d.states.toList.Pairwise fun S T => (S == T) = false
  start_first : d.states.toList.head? = some d.start
  start : ∀ q, d.start.contains q = true ↔ n.Reaches [] q
  /-- Nothing else is a state. -/
  word_of_state : ∀ S ∈ d.states.toList,
    ∃ word, IsWordOver symbols word ∧ ∀ q, S.contains q = true ↔ n.Reaches word q
  /-- Nothing is missing. -/
  state_of_word : ∀ word, IsWordOver symbols word →
    ∃ S ∈ d.states.toList, ∀ q, S.contains q = true ↔ n.Reaches word q
  closed : ∀ S ∈ d.states.toList, ∀ p q,
    S.contains p = true → n.HasEdge p n.marker q → S.contains q = true
  known : ∀ S ∈ d.states.toList, ∀ q, S.contains q = true → n.states.contains q = true
  /-- A state has transitions for the symbols of the alphabet only. -/
  labels : ∀ S ∈ d.states.toList, ∃ row, d.rows.find? S = some row ∧
    ∀ a, row.targets.contains a = true ↔ ∃ b ∈ symbols, (b == a) = true
  /-- The transitions lead to what is reached from the state. -/
  step : ∀ S ∈ d.states.toList, ∀ a, (∃ b ∈ symbols, (b == a) = true) →
    ∃ T, d.step? S a = .ok T ∧ d.hasState T = true ∧
      ∀ q, T.contains q = true ↔ n.ReachesFrom S [a] q
  accepting : ∀ S, S ∈ d.acceptStates ↔
    S ∈ d.states.toList ∧ ∃ q, S.contains q = true ∧ n.accepts.contains q = true
  dead : d.hasDeadState = true ↔ ∃ word, IsWordOver symbols word ∧ ∀ q, ¬ n.Reaches word q
  dead_step : d.hasDeadState = true → ∀ a, (∃ b ∈ symbols, (b == a) = true) →
    d.step? .empty a = .ok .empty
  dead_refuses : d.hasDeadState = true → d.isAccepting? .empty = .ok false
  frozen : d.frozen = true

/-! ### States and rows -/

namespace Dfa

variable {d : Dfa} {S : ValueSet}

theorem mem_states_iff : S ∈ d.states.toList ↔ ∃ row, (S, row) ∈ d.rows.entries := by
  simp [states, OrderedMap.keys]

theorem mem_acceptStates_iff :
    S ∈ d.acceptStates ↔ ∃ row, (S, row) ∈ d.rows.entries ∧ row.accepting = true := by
  simp [acceptStates]

end Dfa

namespace Dfa.IsSubsetAutomaton

variable {d : Dfa} {n : Nfa} {A : ValueSet} {S : ValueSet}

/-- The members of a state are the states reached by a word. -/
theorem exists_word (hd : d.IsSubsetAutomaton n A) (hfree : A.contains n.marker = false)
    (hS : d.hasState S = true) : ∃ word, (∀ a ∈ word, A.contains a = true) ∧
      ∀ q, S.contains q = true ↔ n.Reaches word q := by
  obtain ⟨word, hword, hreached⟩ := (hd.hasState_iff S).mp hS
  refine ⟨word, hword, fun q => ?_⟩
  rw [← OrderedSet.beq_iff.mp hreached q, Nfa.contains_reached_iff]
  exact fun a ha => OrderedSet.beq_eq_false_of_contains (hword a ha) hfree

theorem contains_of_silent (hd : d.IsSubsetAutomaton n A) (hS : d.hasState S = true) {p q : Value}
    (hp : S.contains p = true) (hpq : n.Silent p q) : S.contains q = true := by
  obtain ⟨word, -, hreached⟩ := (hd.hasState_iff S).mp hS
  rw [← OrderedSet.beq_iff.mp hreached] at hp ⊢
  exact Nfa.contains_reached_of_silent hp hpq

theorem contains_states_of_contains (hd : d.IsSubsetAutomaton n A) (hS : d.hasState S = true)
    {q : Value} (hq : S.contains q = true) : n.states.contains q = true := by
  obtain ⟨word, -, hreached⟩ := (hd.hasState_iff S).mp hS
  rw [← OrderedSet.beq_iff.mp hreached] at hq
  exact OrderedSet.isSubset_iff.mp (n.reached_isSubset_states word) q hq

theorem contains_targets_iff (hd : d.IsSubsetAutomaton n A) {row : Row}
    (hrow : d.rows.find? S = some row) (a : Value) :
    row.targets.contains a = A.contains a := by
  cases ha : A.contains a with
  | false => exact OrderedMap.find?_eq_none_iff.mp (hd.no_target S row a hrow ha)
  | true =>
    obtain ⟨T, hT, -⟩ := hd.target S row a hrow ha
    rw [← Bool.not_eq_false, ← OrderedMap.find?_eq_none_iff, hT]
    exact Option.some_ne_none T

/-- A symbol of the alphabet leads to the state of what is reached from a state. -/
theorem exists_step?_reachesFrom (hd : d.IsSubsetAutomaton n A)
    (hfree : A.contains n.marker = false) (hS : d.hasState S = true) {a : Value}
    (hhash : a.Hashable) (ha : A.contains a = true) :
    ∃ T, d.step? S a = .ok T ∧ d.hasState T = true ∧
      ∀ q, T.contains q = true ↔ n.ReachesFrom S [a] q := by
  obtain ⟨T, hT, hsucc⟩ := hd.exists_step? hS hhash ha
  refine ⟨T, hT, hd.hasState_of_beq_successor hS ha hsucc, fun q => ?_⟩
  have hmarker : (a == n.marker) = false := OrderedSet.beq_eq_false_of_contains ha hfree
  rw [OrderedSet.beq_iff.mp hsucc, Nfa.contains_successor_iff_reachesFrom hmarker]
  exact fun p r hp hpr => hd.contains_of_silent hS hp hpr

theorem mem_acceptStates_iff_meets (hd : d.IsSubsetAutomaton n A) :
    S ∈ d.acceptStates ↔
      S ∈ d.states.toList ∧ ∃ q, S.contains q = true ∧ n.accepts.contains q = true := by
  have haccepting (row : Row) (h : (S, row) ∈ d.rows.entries) :
      row.accepting = true ↔ ∃ q, S.contains q = true ∧ n.accepts.contains q = true := by
    rw [hd.accepting S row (OrderedMap.find?_eq_some_of_mem h BEq.rfl), Nfa.isAccepting_iff]
    simp only [and_comm]
  rw [mem_acceptStates_iff, mem_states_iff]
  constructor
  · rintro ⟨row, hmem, hrow⟩
    exact ⟨⟨row, hmem⟩, (haccepting row hmem).mp hrow⟩
  · rintro ⟨⟨row, hmem⟩, hmeets⟩
    exact ⟨row, hmem, (haccepting row hmem).mpr hmeets⟩

/-! ### The empty set -/

theorem hasDeadState_iff (hd : d.IsSubsetAutomaton n A) (hfree : A.contains n.marker = false) :
    d.hasDeadState = true ↔
      ∃ word, (∀ a ∈ word, A.contains a = true) ∧ ∀ q, ¬ n.Reaches word q := by
  constructor
  · intro h
    obtain ⟨word, hword, hreached⟩ := hd.exists_word hfree h
    exact ⟨word, hword, fun q hq => by simpa using (hreached q).mpr hq⟩
  · rintro ⟨word, hword, hnone⟩
    refine (hd.hasState_iff .empty).mpr ⟨word, hword, OrderedSet.beq_iff.mpr fun q => ?_⟩
    rw [OrderedSet.contains_empty, ← Bool.not_eq_true, Nfa.contains_reached_iff]
    · exact hnone q
    · exact fun a ha => OrderedSet.beq_eq_false_of_contains (hword a ha) hfree

/-- Nothing is reached from the empty set. -/
theorem step?_empty (hd : d.IsSubsetAutomaton n A) (hdead : d.hasDeadState = true) {a : Value}
    (hhash : a.Hashable) (ha : A.contains a = true) : d.step? .empty a = .ok .empty := by
  obtain ⟨T, hT, hsucc⟩ := hd.exists_step? hdead hhash ha
  rw [hT, OrderedSet.eq_empty_of_forall (s := T)]
  intro q
  rw [OrderedSet.beq_iff.mp hsucc, ← Bool.not_eq_true, Nfa.contains_successor_iff]
  rintro ⟨p, r, hp, -⟩
  exact Bool.noConfusion hp

theorem isAccepting?_empty (hd : d.IsSubsetAutomaton n A) (hdead : d.hasDeadState = true) :
    d.isAccepting? .empty = .ok false := by
  have hrefuses : n.isAccepting .empty = false := by
    rw [← Bool.not_eq_true, Nfa.isAccepting_iff]
    rintro ⟨q, -, hq⟩
    exact Bool.noConfusion hq
  rw [hd.isAccepting?_eq hdead, hrefuses]

end Dfa.IsSubsetAutomaton

/-! ### Conversions -/

namespace Nfa

/-- The states of a converted automaton are exactly the reached sets. A conversion fails only if a
reached set that it reports cannot be written. -/
theorem convert?_determinizes [DigitLimit] (n : Nfa) (symbols : List Value) (d : Discipline)
    (hmarker : n.marker.Hashable) (hhash : ∀ a ∈ symbols, a.Hashable)
    (hfree : ∀ a ∈ symbols, (a == n.marker) = false) :
    (n.Reportable (.ofList symbols) →
      ∃ c, n.convert? (some (.list symbols)) (.text d.name) = .ok c ∧
        c.dfa.Determinizes n symbols) ∧
    (¬ n.Reportable (.ofList symbols) →
      n.convert? (some (.list symbols)) (.text d.name) = .error .tooManyDigits) := by
  refine ⟨fun hreportable => ⟨_, convert?_list d hmarker hhash hfree hreportable, ?_⟩,
    convert?_eq_error_of_not_reportable d hmarker hhash hfree⟩
  have hd := Construction.isSubsetAutomaton_dfa ⟨OrderedSet.ofList symbols, d⟩ n
  have hmem {a : Value} :
      (OrderedSet.ofList symbols).contains a = true ↔ ∃ b ∈ symbols, (b == a) = true :=
    OrderedSet.contains_ofList_iff
  have hfree' : (OrderedSet.ofList symbols).contains n.marker = false :=
    OrderedSet.contains_ofList_eq_false hfree
  have hhash' {a : Value} (ha : ∃ b ∈ symbols, (b == a) = true) : a.Hashable := by
    obtain ⟨b, hb, hba⟩ := ha
    exact (Value.hashable_congr hba).mp (hhash b hb)
  exact
    { distinct := OrderedSet.distinct _
      start_first := Construction.states_dfa _ n ▸ Construction.head?_explore _ n
      start := fun q => contains_reached_iff fun _ ha => absurd ha List.not_mem_nil
      word_of_state := fun S hS => by
        simpa only [isWordOver_iff] using hd.exists_word hfree' (Dfa.hasState_of_mem hS)
      state_of_word := fun word hword => by
        have hstate := (hd.hasState_iff (n.reached word)).mpr
          ⟨word, isWordOver_iff.mp hword, BEq.rfl⟩
        obtain ⟨S, hS, hreached⟩ := Dfa.exists_mem_of_hasState hstate
        refine ⟨S, hS, fun q => ?_⟩
        rw [OrderedSet.beq_iff.mp hreached, contains_reached_iff (hword.beq_eq_false hfree)]
      closed := fun S hS p q hp hpq =>
        hd.contains_of_silent (Dfa.hasState_of_mem hS) hp (.of_edge hpq)
      known := fun S hS q hq => hd.contains_states_of_contains (Dfa.hasState_of_mem hS) hq
      labels := fun S hS => by
        obtain ⟨row, hrow⟩ := Dfa.exists_row_of_hasState (Dfa.hasState_of_mem hS)
        exact ⟨row, hrow, fun a => by rw [hd.contains_targets_iff hrow, hmem]⟩
      step := fun S hS a ha =>
        hd.exists_step?_reachesFrom hfree' (Dfa.hasState_of_mem hS) (hhash' ha) (hmem.mpr ha)
      accepting := fun S => hd.mem_acceptStates_iff_meets
      dead := by simpa only [isWordOver_iff] using hd.hasDeadState_iff hfree'
      dead_step := fun hdead a ha => hd.step?_empty hdead (hhash' ha) (hmem.mpr ha)
      dead_refuses := hd.isAccepting?_empty
      frozen := rfl }

/-- The word `aa` leads to the dead state. -/
theorem convert?_looped_dead :
    ∃ c, looped.convert? (some (.list [.text "a"])) (.text "fifo") = .ok c ∧
      c.dfa.Determinizes looped [.text "a"] ∧ c.dfa.hasDeadState = true := by
  obtain ⟨c, hc, hd⟩ := (convert?_determinizes looped [.text "a"] .fifo (by decide) (by decide)
    (by decide)).1 (by decide)
  have hnone : (looped.reached [.text "a", .text "a"]).toList = [] := by decide
  refine ⟨c, hc, hd, hd.dead.mpr ⟨[.text "a", .text "a"], by decide, fun q hq => ?_⟩⟩
  rw [← contains_reached_iff (by decide), OrderedSet.contains, hnone] at hq
  exact Bool.noConfusion hq

/-! ### Words -/

/-- The converted automaton accepts the words over the alphabet that the automaton accepts. A
conversion fails only if a reached set that it reports cannot be written. -/
theorem walk_convert?_iff_accepts [DigitLimit] (n : Nfa) (symbols : List Value) (d : Discipline)
    (hmarker : n.marker.Hashable) (hhash : ∀ a ∈ symbols, a.Hashable)
    (hfree : ∀ a ∈ symbols, (a == n.marker) = false) :
    (n.Reportable (.ofList symbols) →
      ∃ c, n.convert? (some (.list symbols)) (.text d.name) = .ok c ∧
        ∀ word, IsWordOver symbols word →
          (c.dfa.walk word).path.length = word.length + 1 ∧
          (∀ S ∈ (c.dfa.walk word).path, c.dfa.hasState S = true) ∧
          ∃ accepted, (c.dfa.walk word).outcome = .ok accepted ∧
            (accepted = true ↔ n.Accepts word)) ∧
    (¬ n.Reportable (.ofList symbols) →
      n.convert? (some (.list symbols)) (.text d.name) = .error .tooManyDigits) := by
  refine ⟨fun hreportable => ⟨_, convert?_list d hmarker hhash hfree hreportable, fun word hword => ?_⟩,
    convert?_eq_error_of_not_reportable d hmarker hhash hfree⟩
  have hd := Construction.isSubsetAutomaton_dfa ⟨OrderedSet.ofList symbols, d⟩ n
  have hsymbols : ∀ a ∈ word, a.Hashable ∧ (OrderedSet.ofList symbols).contains a = true :=
    fun a ha => ⟨hword.hashable hhash a ha, isWordOver_iff.mp hword a ha⟩
  have hwalk := hd.complete.outcome_eq_ok hd.hasState_start hsymbols
  exact ⟨hwalk.1, hd.complete.hasState_of_mem_path hd.hasState_start, _, hd.outcome_walk hsymbols,
    isAccepting_reached_iff (hword.beq_eq_false hfree)⟩

/-- The converted automaton accepts a word that is read around a cycle of marked transitions. -/
theorem walk_convert?_looped :
    ∃ c, looped.convert? (some (.list [.text "b", .text "a", .text "b"])) (.text "lifo") = .ok c ∧
      (c.dfa.walk [.text "a"]).path.length = 2 ∧ (c.dfa.walk [.text "a"]).outcome = .ok true := by
  obtain ⟨c, hc, hwalk⟩ := (walk_convert?_iff_accepts looped [.text "b", .text "a", .text "b"]
    .lifo (by decide) (by decide) (by decide)).1 (by decide)
  obtain ⟨hlength, -, accepted, houtcome, haccepts⟩ := hwalk [.text "a"] (by decide)
  exact ⟨c, hc, hlength, by rw [houtcome, haccepts.mpr looped_accepts_a]⟩

/-! ### Conversions that fail -/

/-- A transition from `0`, labelled `a`, to an integer with too many digits. -/
def enlarged : Nfa :=
  ((⟨.ofList [.int 0], .empty, .text "ε", .empty⟩ : Nfa).change
    (.add (.int 0) (.text "a") (.int (10 ^ digitLimit : Nat)))).2

theorem built_enlarged : enlarged.Built := by
  have hnew : new? (.list [.int 0]) (.list []) (.text "ε") =
      .ok ⟨.ofList [.int 0], .empty, .text "ε", .empty⟩ := rfl
  exact (Built.new hnew).change _

theorem writable_ten_pow_digitLimit : (Value.int (10 ^ digitLimit : Nat)).writable = false :=
  Value.writable_ten_pow (by decide)

/-- The set that `a` leads to is not that of the empty word, and it cannot be written. -/
theorem not_reportable_enlarged : ¬ enlarged.Reportable (.ofList [.text "a"]) := by
  have hreached : (enlarged.reached [.text "a"]).toList = [.int (10 ^ digitLimit : Nat)] := by
    decide +kernel
  have hnot : (enlarged.reached [.text "a"]).writable = false := by
    rw [ValueSet.writable, hreached, List.all_cons, writable_ten_pow_digitLimit, Bool.false_and]
  have hne : (enlarged.reached [.text "a"] == enlarged.reached []) = false := by
    refine Bool.eq_false_iff.mpr fun h => Bool.eq_false_iff.mp hnot ?_
    rw [ValueSet.writable_congr h]
    decide +kernel
  intro h
  rw [h [.text "a"] (by decide) hne] at hnot
  cases hnot

/-- Not every conversion over an alphabet without the marker makes an automaton. One that finds an
integer with more digits than can be written fails, and so does one over an alphabet with a list, which
cannot be a member of a set. -/
theorem convert?_enlarged :
    enlarged.convert? (some (.list [.text "a"])) (.text "fifo") = .error .tooManyDigits ∧
      looped.convert? (some (.list [.list []])) (.text "fifo") =
        .error (.shape (.unhashable (.list []))) :=
  ⟨convert?_eq_error_of_not_reportable .fifo (by decide) (by decide) (by decide)
    not_reportable_enlarged, rfl⟩

end Nfa

/-! ### Orders of exploration -/

/-- Lists of the same symbols make equal alphabets. -/
theorem IsWordOver.beq_ofList {A B : List Value} (hAB : IsWordOver A B) (hBA : IsWordOver B A) :
    (OrderedSet.ofList A == OrderedSet.ofList B) = true := by
  have hsub {xs ys : List Value} (h : IsWordOver xs ys) (a : Value)
      (ha : (OrderedSet.ofList ys).contains a = true) :
      (OrderedSet.ofList xs).contains a = true := by
    obtain ⟨b, hb, hba⟩ := OrderedSet.contains_ofList_iff.mp ha
    rw [← OrderedSet.contains_congr _ hba]
    exact isWordOver_iff.mp h b hb
  refine OrderedSet.beq_iff.mpr fun a => ?_
  rw [Bool.eq_iff_iff]
  exact ⟨hsub hBA a, hsub hAB a⟩

namespace Nfa

/-- Conversions with the same symbols are equal, or fail alike, whatever the orders of exploration. -/
theorem convert?_beq_of_sameSymbols [DigitLimit] (n : Nfa) (A B : List Value) (d e : Discipline)
    (hmarker : n.marker.Hashable) (hhash : ∀ a ∈ A, a.Hashable)
    (hfree : ∀ a ∈ A, (a == n.marker) = false) (hAB : IsWordOver A B) (hBA : IsWordOver B A) :
    (n.Reportable (.ofList A) →
      ∃ c c', n.convert? (some (.list A)) (.text d.name) = .ok c ∧
        n.convert? (some (.list B)) (.text e.name) = .ok c' ∧
        (c.dfa == c'.dfa) = true ∧ c.dfa.SameAnswers c'.dfa) ∧
    (¬ n.Reportable (.ofList A) →
      n.convert? (some (.list A)) (.text d.name) = .error .tooManyDigits ∧
      n.convert? (some (.list B)) (.text e.name) = .error .tooManyDigits) := by
  have hsame := hAB.beq_ofList hBA
  have hhashB := hAB.hashable hhash
  have hfreeB := hAB.beq_eq_false hfree
  have hequal := (Construction.isSubsetAutomaton_dfa ⟨OrderedSet.ofList A, d⟩ n).beq
    (Construction.isSubsetAutomaton_dfa ⟨OrderedSet.ofList B, e⟩ n) hsame
  refine ⟨fun hreportable => ?_, fun hnot => ⟨?_, ?_⟩⟩
  · exact ⟨_, _, convert?_list d hmarker hhash hfree hreportable,
      convert?_list e hmarker hhashB hfreeB (hreportable.congr hsame), hequal,
      Dfa.sameAnswers_of_beq hequal⟩
  · exact convert?_eq_error_of_not_reportable d hmarker hhash hfree hnot
  · exact convert?_eq_error_of_not_reportable e hmarker hhashB hfreeB
      (mt (reportable_congr hsame).mpr hnot)

/-- An alphabet in two orders, once with a repetition, and the two orders of expansion. -/
theorem convert?_looped_reversed :
    ∃ c c', looped.convert? (some (.list [.text "a", .text "b"])) (.text "fifo") = .ok c ∧
      looped.convert? (some (.list [.text "b", .text "a", .text "b"])) (.text "lifo") = .ok c' ∧
      (c.dfa == c'.dfa) = true ∧ c.dfa.SameAnswers c'.dfa :=
  (convert?_beq_of_sameSymbols looped [.text "a", .text "b"] [.text "b", .text "a", .text "b"]
    .fifo .lifo (by decide) (by decide) (by decide) (by decide) (by decide)).1 (by decide)

end Nfa

end Determinize
