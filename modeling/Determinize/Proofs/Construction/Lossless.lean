import Determinize.Proofs.Construction.Observation
import Determinize.Proofs.Dfa.Deciphering
import Determinize.Proofs.Dfa.Restored

/-!
# Converted automata from their data and from their text

What is written about a converted automaton says everything about it. From the data the automaton can
be made again. From the text it can be made again if the members of its states are integers and no
symbol contains a line break, whatever else the symbols contain. In both, the states are in the order
of their discovery.

## Main results

* `Nfa.startsAlone_of_convert?` — without symbols the start is the only state.
* `Nfa.plain_of_convert?` — automata over integers are converted into automata over integers.
* `Nfa.convert?_restored` — the data are lossless.
* `Nfa.convert?_deciphered` — the text is unambiguous.
-/

namespace Determinize.Nfa

section Converted

variable [DigitLimit] {n : Nfa} {alphabet : Option Value} {worklist : Value} {r : Conversion}

/-- Without symbols, nothing but the start is found. -/
theorem startsAlone_of_convert? (h : n.convert? alphabet worklist = .ok r) :
    r.dfa.StartsAlone := by
  intro hempty
  obtain ⟨c, hc, -⟩ := exists_dfa_of_convert? h
  have hstart : ∀ S ∈ r.dfa.states.toList, S = r.dfa.start := by
    rw [hc] at hempty ⊢
    change c.alphabet.isEmpty = true at hempty
    intro S hS
    rw [Construction.states_dfa] at hS
    obtain ⟨word, hword, rfl⟩ := Construction.exists_word_of_mem_explore hS
    cases word with
    | nil => rfl
    | cons a word =>
      have ha := hword a List.mem_cons_self
      rw [List.isEmpty_iff.mp hempty] at ha
      cases ha
  obtain ⟨target, htable⟩ := exists_isTable_of_convert? h
  obtain ⟨tail, htail⟩ := List.head?_eq_some_iff.mp htable.first
  have hnodup := r.dfa.states.nodup_toList
  rw [htail] at hstart hnodup ⊢
  cases tail with
  | nil => rfl
  | cons S tail =>
    rw [hstart S (List.mem_cons_of_mem _ List.mem_cons_self)] at hnodup
    exact absurd List.mem_cons_self (List.nodup_cons.mp hnodup).1

/-- An automaton over integers is converted into one whose states consist of integers. -/
theorem plain_of_convert? (h : n.convert? alphabet worklist = .ok r)
    (hstarts : ∀ p ∈ n.starts.toList, ∃ k : Int, p = .int k)
    (htargets : ∀ t ∈ n.transitions, ∃ k : Int, t.2.2 = .int k)
    (hsymbols : ∀ a ∈ r.dfa.alphabet.toList, ∃ s : String, a = .text s ∧ '\n' ∉ s.toList) :
    r.dfa.Plain :=
  ⟨forall_mem_states_convert? h hstarts htargets, hsymbols⟩

/-! ### The data -/

/-- The data of a converted automaton are lossless: the automaton is made from them again, and automata
with equal data are equal, with the same states in the same order. There are no data only if the states
and the symbols cannot all be written. -/
theorem convert?_restored (hn : n.Built) (h : n.convert? alphabet worklist = .ok r) :
    (∀ e, r.dfa.toValue? = .error e → e = .tooManyDigits ∧ r.dfa.writable = false) ∧
    ∀ data, r.dfa.toValue? = .ok data →
      (∃ d, Dfa.ofData? data = .ok d ∧ r.dfa.BeqInOrder d) ∧
      ∀ (n' : Nfa) (alphabet' : Option Value) (worklist' : Value) (r' : Conversion) (data' : Value),
        n'.convert? alphabet' worklist' = .ok r' → r'.dfa.toValue? = .ok data' →
          (data == data') = true → r.dfa.BeqInOrder r'.dfa := by
  obtain ⟨target, htable⟩ := exists_isTable_of_convert? h
  refine ⟨fun e => htable.writable_eq_false_of_toValue?_eq_error, fun data hdata => ?_⟩
  rw [Dfa.eq_toValue_of_toValue?_eq_ok hdata]
  refine ⟨htable.exists_ofData? (startsAlone_of_convert? h) (sound_of_convert? hn h).states, ?_⟩
  intro n' alphabet' worklist' r' data' h' hdata' hbeq
  rw [Dfa.eq_toValue_of_toValue?_eq_ok hdata'] at hbeq
  obtain ⟨target', htable'⟩ := exists_isTable_of_convert? h'
  exact Dfa.IsTable.beqInOrder_of_toValue_beq htable htable' (startsAlone_of_convert? h)
    (startsAlone_of_convert? h') hbeq

end Converted

/-- The automaton `remarked`, its states spelled differently. -/
def remarkedAgain : Nfa :=
  ((((⟨.ofList [.bool false], .ofList [.real (.finite 2)], .text "e", .empty⟩ : Nfa).change
    (.addMarked (.bool false) (.bool true))).2.change (.add (.int 1) (.text "a") (.int 2))).2.change
    (.setMarker (.text "ε"))).2

/-- The data are equal and spelled differently. -/
theorem convert?_restored_remarked :
    ∃ r r', remarked.convert? (some (.list [.text "e", .text "a"])) (.text "fifo") = .ok r ∧
      remarkedAgain.convert? (some (.list [.text "e", .text "a"])) (.text "fifo") = .ok r' ∧
      (∃ data d, r.dfa.toValue? = .ok data ∧ Dfa.ofData? data = .ok d ∧ r.dfa.BeqInOrder d) ∧
      r.dfa.BeqInOrder r'.dfa ∧
      (r.dfa.toValue.field "start").listItems = [.int 0] ∧
      (r'.dfa.toValue.field "start").listItems = [.bool false] := by
  have hconvert : remarked.convert? (some (.list [.text "e", .text "a"])) (.text "fifo") = .ok _ :=
    convert?_list .fifo (by decide) (by decide) (by decide) (by decide)
  have hconvert' : remarkedAgain.convert? (some (.list [.text "e", .text "a"])) (.text "fifo") =
      .ok _ := convert?_list .fifo (by decide) (by decide) (by decide) (by decide)
  obtain ⟨⟨d, hd, hrestored⟩, hequal⟩ := (convert?_restored built_remarked hconvert).2 _ rfl
  exact ⟨_, _, hconvert, hconvert', ⟨_, d, rfl, hd, hrestored⟩,
    hequal _ _ _ _ _ hconvert' rfl (by decide), by decide, by decide⟩

/-! ### The text -/

/-- The text of a converted automaton is unambiguous if its states consist of integers and its symbols
are texts without a line break: automata with the same text are equal, with the same states in the same
order. There is a text if the states can be written. -/
theorem convert?_deciphered [DigitLimit] {n n' : Nfa} {alphabet alphabet' : Option Value}
    {worklist worklist' : Value} {r r' : Conversion} (h : n.convert? alphabet worklist = .ok r)
    (h' : n'.convert? alphabet' worklist' = .ok r') (hplain : r.dfa.Plain)
    (hplain' : r'.dfa.Plain) :
    (r.dfa.states.toList.all ValueSet.writable = true → ∃ text, r.dfa.render? = .ok text) ∧
    (r'.dfa.states.toList.all ValueSet.writable = true → ∃ text, r'.dfa.render? = .ok text) ∧
    ∀ text, r.dfa.render? = .ok text → r'.dfa.render? = .ok text → r.dfa.BeqInOrder r'.dfa := by
  obtain ⟨target, htable⟩ := exists_isTable_of_convert? h
  obtain ⟨target', htable'⟩ := exists_isTable_of_convert? h'
  refine ⟨fun hwritable => ?_, fun hwritable => ?_, fun text htext htext' => ?_⟩
  · exact ⟨_, htable.render?_eq.trans (if_pos (hplain.writable hwritable))⟩
  · exact ⟨_, htable'.render?_eq.trans (if_pos (hplain'.writable hwritable))⟩
  · exact Dfa.IsTable.beqInOrder_of_render?_eq_ok htable htable' hplain hplain' htext htext'

/-- The symbols are the empty text and a text that looks like an arrow and a state. -/
def arrowed : Nfa :=
  (((((⟨.ofList [.int 0], .ofList [.int 1], .text "ε", .empty⟩ : Nfa).link
    (.int 0) (.text "") (.int 0)).link (.int 0) (.text "--> \x7b0\x7d") (.int 1)).link
    (.int 0) (.text "--> \x7b0\x7d") (.int (-2))).link (.int 1) (.text "") (.int 0)).link
    (.int (-2)) (.text "--> \x7b0\x7d") (.int 0)

theorem plain_convert?_arrowed {alphabet : Option Value} {worklist : Value} {r : Conversion}
    (h : arrowed.convert? alphabet worklist = .ok r)
    (hsymbols : ∀ a ∈ r.dfa.alphabet.toList, a = .text "" ∨ a = .text "--> \x7b0\x7d") :
    r.dfa.Plain := by
  have hints : ∀ x : Value, x = .int 0 ∨ x = .int 1 ∨ x = .int (-2) → ∃ k : Int, x = .int k := by
    rintro x (rfl | rfl | rfl) <;> exact ⟨_, rfl⟩
  have hstarts : ∀ p ∈ arrowed.starts.toList, p = .int 0 ∨ p = .int 1 ∨ p = .int (-2) := by decide
  have htargets : ∀ t ∈ arrowed.transitions,
      t.2.2 = .int 0 ∨ t.2.2 = .int 1 ∨ t.2.2 = .int (-2) := by decide
  refine plain_of_convert? h (fun p hp => hints p (hstarts p hp))
    (fun t ht => hints _ (htargets t ht)) fun a ha => ?_
  rcases hsymbols a ha with rfl | rfl
  · exact ⟨_, rfl, by decide⟩
  · exact ⟨_, rfl, by decide⟩

/-- Lines of transitions look alike up to the last arrow. -/
theorem convert?_deciphered_arrowed :
    ∃ r r', arrowed.convert? (some (.list [.text "", .text "--> \x7b0\x7d"])) (.text "fifo") =
        .ok r ∧
      arrowed.convert? (some (.list [.text "--> \x7b0\x7d", .text ""])) (.text "lifo") = .ok r' ∧
      r.dfa.render? = .ok ("DFA Transitions:\nFrom state(s) \x7b0\x7d (start):\n" ++
        "  ----> \x7b0\x7d\n  ----> \x7b0\x7d--> \x7b-2, 1\x7d\n" ++
        "From state(s) \x7b-2, 1\x7d (accept):\n" ++
        "  ----> \x7b0\x7d\n  ----> \x7b0\x7d--> \x7b0\x7d") ∧
      r.dfa.BeqInOrder r'.dfa := by
  have hconvert : arrowed.convert? (some (.list [.text "", .text "--> \x7b0\x7d"]))
      (.text "fifo") = .ok _ := convert?_list .fifo (by decide) (by decide) (by decide) (by decide)
  have hconvert' : arrowed.convert? (some (.list [.text "--> \x7b0\x7d", .text ""]))
      (.text "lifo") = .ok _ := convert?_list .lifo (by decide) (by decide) (by decide) (by decide)
  obtain ⟨-, -, hequal⟩ := convert?_deciphered hconvert hconvert'
    (plain_convert?_arrowed hconvert (by decide)) (plain_convert?_arrowed hconvert' (by decide))
  exact ⟨_, _, hconvert, hconvert', rfl, hequal _ rfl rfl⟩

end Determinize.Nfa
