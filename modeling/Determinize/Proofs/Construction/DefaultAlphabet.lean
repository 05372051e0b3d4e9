import Determinize.Proofs.Construction.Exploration
import Determinize.Proofs.Nfa.History

/-!
# Conversions without an alphabet

Without an alphabet, a conversion takes the symbols of the automaton: the labels of its transitions
other than its marker. They can be members of a set whatever the history of the automaton is, and
the marker, also if it was changed after transitions were added, is not one of them. So the
conversion is not refused, and it loses no word: an accepted word has only labels of transitions as
symbols. A walk along another word stops at the first symbol that labels no transition.

There is one exception. A marker that is not a number differs from itself, so it is taken for a symbol
if it labels a transition. Then the conversion is refused, because it finds the marker among the
symbols.

## Main results

* `Nfa.walk_convert?_none`.
* `Nfa.convert?_none_of_isNaN` — the exception.
-/

namespace Determinize.Nfa

variable {n : Nfa} {a : Value}

/-- The symbols can be members of a set. -/
theorem Sound.hashable_symbols (hn : n.Sound) : ∀ a ∈ n.symbols.toList, a.Hashable := fun _ ha =>
  hn.hashable_of_labels (contains_symbols_iff.mp (OrderedSet.contains_of_mem ha)).1

/-- A marker that is a number or no double is not among the symbols. -/
theorem beq_marker_of_mem_symbols (hnumber : n.marker.isNaN = false) :
    ∀ a ∈ n.symbols.toList, (a == n.marker) = false := by
  intro a ha
  have hdiffers := (contains_symbols_iff.mp (OrderedSet.contains_of_mem ha)).2
  rwa [Value.differs_of_isNaN_eq_false hnumber, Bool.not_eq_true'] at hdiffers

/-- Without an alphabet, a conversion is a run over the symbols, unless the marker is one of them. -/
theorem Sound.convert?_none_eq [DigitLimit] (hn : n.Sound) {worklist : Value} {d : Discipline}
    (hd : Discipline.ofValue? worklist = some d) :
    n.convert? none worklist =
      if n.symbols.contains n.marker then .error (.markerInAlphabet n.marker)
      else Construction.run? ⟨n.symbols, d⟩ n := by
  rw [convert?, Option.getD_none,
    Construction.prepare?_eq hd (ValueSet.ofValue?_list hn.hashable_symbols),
    OrderedSet.ofList_toList]
  split <;> rfl

theorem beq_ofList_symbols (n : Nfa) : (OrderedSet.ofList n.symbols.toList == n.symbols) = true :=
  OrderedSet.beq_iff.mpr fun _ => OrderedSet.contains_ofList ..

/-- Of the values other than the marker, the labels are in the alphabet of such a conversion. -/
theorem contains_ofList_symbols_iff (ha : (a == n.marker) = false) :
    (OrderedSet.ofList n.symbols.toList).contains a = true ↔ n.Labels a := by
  rw [OrderedSet.beq_iff.mp n.beq_ofList_symbols, contains_symbols_iff,
    and_iff_left (Value.differs_of_beq_eq_false ha)]

/-- A conversion without an alphabet accepts the words that the automaton accepts, and a walk fails
only at the first symbol that labels no transition. The conversion is not refused, unless the marker is
not a number; it fails only if a reached set that it reports cannot be written. -/
theorem walk_convert?_none [DigitLimit] (n : Nfa) (d : Discipline) (hn : n.Built)
    (hmarker : n.marker.Hashable) (hnumber : n.marker.isNaN = false) :
    (n.Reportable n.symbols → ∃ c, n.convert? none (.text d.name) = .ok c ∧
      ∀ word, (∀ a ∈ word, a.Hashable ∧ (a == n.marker) = false) →
        ((c.dfa.walk word).outcome = .ok true ↔ n.Accepts word) ∧
        (∀ S ∈ (c.dfa.walk word).path, c.dfa.hasState S = true) ∧
        ∀ e, (c.dfa.walk word).outcome = .error e →
          ∃ before a after last, word = before ++ a :: after ∧
            (∀ b ∈ before, n.Labels b) ∧ ¬ n.Labels a ∧
            (c.dfa.walk word).path.length = before.length + 1 ∧
            (c.dfa.walk word).path.getLast? = some last ∧
            e = .unknownSymbol a (some (.states last))) ∧
    (¬ n.Reportable n.symbols → n.convert? none (.text d.name) = .error .tooManyDigits) := by
  have hhash := hn.sound.hashable_symbols
  have hfree := beq_marker_of_mem_symbols hnumber
  have hreportable := reportable_congr (n := n) n.beq_ofList_symbols
  refine ⟨fun h => ⟨_, convert?_list d hmarker hhash hfree (hreportable.mpr h), fun word hword => ?_⟩,
    fun h => convert?_eq_error_of_not_reportable d hmarker hhash hfree (mt hreportable.mp h)⟩
  have hd := Construction.isSubsetAutomaton_dfa ⟨OrderedSet.ofList n.symbols.toList, d⟩ n
  have hstart := hd.hasState_start
  have hlabels {a : Value} (ha : a ∈ word) :
      (OrderedSet.ofList n.symbols.toList).contains a = true ↔ n.Labels a :=
    contains_ofList_symbols_iff (hword a ha).2
  have haccepts (h : ∀ a ∈ word, n.Labels a) :
      ((Construction.dfa ⟨OrderedSet.ofList n.symbols.toList, d⟩ n).walk word).outcome = .ok true ↔
        n.Accepts word := by
    rw [hd.outcome_walk fun a ha => ⟨(hword a ha).1, (hlabels ha).mpr (h a ha)⟩, Except.ok.injEq,
      isAccepting_reached_iff fun a ha => (hword a ha).2]
  refine ⟨⟨fun h => ?_, fun h => ?_⟩, hd.complete.hasState_of_mem_path hstart, fun e he => ?_⟩
  · refine (haccepts fun a ha => (hlabels ha).mp ?_).mp h
    rw [← hd.contains_alphabet]
    exact hd.complete.contains_of_outcome_eq_ok hstart h a ha
  · exact (haccepts fun a ha => h.labels_of_mem ha).mpr h
  · obtain ⟨before, a, after, last, rfl, hbefore, ha, hlength, hlast, he⟩ :=
      hd.complete.outcome_eq_error hstart (fun a ha => (hword a ha).1) he
    simp only [hd.contains_alphabet] at hbefore ha
    refine ⟨before, a, after, last, rfl, fun b hb => ?_, fun hlabel => ?_, hlength, hlast, he⟩
    · exact (hlabels (List.mem_append_left _ hb)).mp (hbefore b hb)
    · rw [(hlabels (List.mem_append_right _ List.mem_cons_self)).mpr hlabel] at ha
      exact Bool.noConfusion ha

/-- The label of a transition that was added under an earlier marker is read. -/
theorem walk_convert?_remarked :
    ∃ c, remarked.convert? none (.text "fifo") = .ok c ∧
      (c.dfa.walk [.text "e", .text "a"]).outcome = .ok true := by
  obtain ⟨c, hc, hwalk⟩ :=
    (walk_convert?_none remarked .fifo built_remarked (by decide) (by decide)).1 (by decide)
  exact ⟨c, hc, (hwalk [.text "e", .text "a"] (by decide)).1.mpr remarked_accepts_ea⟩

/-! ### A marker that is not a number -/

/-- A marker that is not a number is taken for a symbol, and then found among the symbols. -/
theorem convert?_none_of_isNaN [DigitLimit] (d : Discipline) (hn : n.Built)
    (hnumber : n.marker.isNaN = true) (hlabels : n.Labels n.marker) :
    n.convert? none (.text d.name) = .error (.markerInAlphabet n.marker) := by
  have hdiffers : n.marker.differs n.marker = true := by rw [Value.differs, hnumber, Bool.true_or]
  rw [hn.sound.convert?_none_eq d.ofValue?_name,
    if_pos (contains_symbols_iff.mpr ⟨hlabels, hdiffers⟩)]

/-- A transition from `0` to `1` under a marker that is not a number. -/
def numberless : Nfa :=
  ((⟨.ofList [.int 0], .ofList [.int 1], .real (.nan 0), .empty⟩ : Nfa).change
    (.addMarked (.int 0) (.int 1))).2

theorem built_numberless : numberless.Built := by
  have hnew : new? (.list [.int 0]) (.list [.int 1]) (.real (.nan 0)) =
      .ok ⟨.ofList [.int 0], .ofList [.int 1], .real (.nan 0), .empty⟩ := rfl
  exact (Built.new hnew).change _

/-- A conversion without an alphabet is refused, for the marker is among the symbols. -/
theorem convert?_none_numberless :
    numberless.Built ∧ numberless.marker.Hashable ∧
      numberless.convert? none (.text "fifo") = .error (.markerInAlphabet numberless.marker) :=
  ⟨built_numberless, by decide,
    convert?_none_of_isNaN .fifo built_numberless (by decide) (by decide)⟩

end Determinize.Nfa
