import Determinize.Proofs.Dfa.Data
import Determinize.Proofs.Dfa.Observation
import Determinize.Proofs.Value.Text
import Mathlib.Data.List.SplitBy

/-!
# An automaton from its text

Symbols are written into the text of an automaton as they are, so a symbol can look like an arrow and a
state. If the members of the states are integers and no symbol contains a line break, the text can be
read all the same. It consists of lines. The headers are the lines that begin with a letter, and with
each of them a block begins. In a header the members of the state end at the closing brace. In the line
of a transition the target begins at the last opening brace, whatever the symbol contains, and what
stands between the arrows is the symbol.

## Main definitions

* `Dfa.Plain` — the members of the states are integers and the symbols texts of one line.
* `Dfa.linesOf`, `Dfa.blocksOf` — the lines and the blocks of a text.

## Main results

* `Dfa.IsTable.blocksOf_eq` — the blocks of the text are those of the states.
* `Dfa.eq_of_header_eq`, `Dfa.eq_of_transitionLine_eq` — a line says what it was written for.
* `Dfa.IsTable.beqInOrder_of_render?_eq` — the text tells automata apart.
-/

namespace Determinize

/-- A list is split in one way at the last occurrence of an item. -/
theorem append_cons_inj_of_not_mem {α : Type} {c : α} {xs ys zs ws : List α} (hys : c ∉ ys)
    (hws : c ∉ ws) (h : xs ++ c :: ys = zs ++ c :: ws) : xs = zs ∧ ys = ws := by
  rcases List.append_eq_append_iff.mp h with ⟨between, rfl, hbetween⟩ | ⟨between, rfl, hbetween⟩
  · cases between with
    | nil => exact ⟨(List.append_nil _).symm, (List.cons.inj hbetween).2⟩
    | cons _ between =>
      rw [(List.cons.inj hbetween).2] at hys
      exact absurd (List.mem_append_right between List.mem_cons_self) hys
  · cases between with
    | nil => exact ⟨List.append_nil _, (List.cons.inj hbetween).2.symm⟩
    | cons _ between =>
      rw [(List.cons.inj hbetween).2] at hws
      exact absurd (List.mem_append_right between List.mem_cons_self) hws

/-! ### Sets of integers as text -/

namespace ValueSet

/-- The members of a set are integers. -/
def OfInts (S : ValueSet) : Prop := ∀ x ∈ S.toList, ∃ n : Int, x = .int n

/-- The members as they are shown. -/
def memberText (S : ValueSet) : List Char := Value.separated (S.sorted.map (·.quoted.toList))

namespace OfInts

variable {S T : ValueSet} (hS : S.OfInts) (hT : T.OfInts)

include hS

theorem exists_int {x : Value} (hx : x ∈ S.sorted) : ∃ n : Int, x = .int n :=
  hS x (mem_sorted.mp hx)

theorem representable {x : Value} (hx : x ∈ S.sorted) : x.Representable := by
  obtain ⟨n, rfl⟩ := hS.exists_int hx
  trivial

theorem toList_render : S.render.toList = '\x7b' :: (S.memberText ++ ['\x7d']) := by
  have hmembers : S.sorted.map Value.display = Value.quotedItems S.sorted := by
    rw [Value.quotedItems_eq_map]
    refine List.map_congr_left fun x hx => ?_
    obtain ⟨n, rfl⟩ := hS.exists_int hx
    rfl
  rw [render, hmembers, String.toList_append, String.toList_append,
    Value.toList_intercalate_quotedItems]
  rfl

theorem mem_memberText {c : Char} (hc : c ∈ S.memberText) :
    c = ',' ∨ c = ' ' ∨ c = '-' ∨ c.isDigit = true := by
  refine (Value.mem_separated hc).imp_right fun h => h.imp_right ?_
  rintro ⟨t, ht, hct⟩
  obtain ⟨x, hx, rfl⟩ := List.mem_map.mp ht
  obtain ⟨n, rfl⟩ := hS.exists_int hx
  exact mem_toString_int hct

/-- A character that is neither a digit nor in the punctuation of a set is not in its text. -/
theorem not_mem_memberText {c : Char} (hc : c ∉ [',', ' ', '-']) (hdigit : c.isDigit = false) :
    c ∉ S.memberText := by
  intro hmem
  rcases hS.mem_memberText hmem with rfl | rfl | rfl | h
  · exact hc (by decide)
  · exact hc (by decide)
  · exact hc (by decide)
  · rw [hdigit] at h
    cases h

theorem not_mem_render : '\n' ∉ S.render.toList := by
  have hmembers : '\n' ∉ S.memberText := hS.not_mem_memberText (by decide) (by decide)
  rw [hS.toList_render, List.mem_cons, List.mem_append, List.mem_singleton, not_or, not_or]
  exact ⟨by decide, hmembers, by decide⟩

include hT

/-- The text of a set ends at its closing brace and tells the members. -/
theorem render_append_inj {rest rest' : List Char}
    (h : S.render.toList ++ rest = T.render.toList ++ rest') :
    S.sorted = T.sorted ∧ rest = rest' := by
  rw [hS.toList_render, hT.toList_render, List.cons_append, List.cons_append, List.append_assoc,
    List.append_assoc] at h
  exact Value.separated_append_inj (.inr (.inr rfl))
    (fun x hx => Value.leads_quoted (hS.representable hx))
    (fun x hx => Value.leads_quoted (hT.representable hx))
    (fun x hx y hy => Value.readable_quoted x y (hS.representable hx) (hT.representable hy))
    (List.cons.inj h).2

end OfInts

theorem beq_of_sorted_eq {S T : ValueSet} (h : S.sorted = T.sorted) : (S == T) = true :=
  beq_of_list_sorted_beq (h ▸ BEq.rfl)

end ValueSet

namespace Dfa

/-- The members of the states are integers, and the symbols are texts without a line break. -/
structure Plain (d : Dfa) : Prop where
  states : ∀ S ∈ d.states.toList, S.OfInts
  symbols : ∀ a ∈ d.alphabet.toList, ∃ s : String, a = .text s ∧ '\n' ∉ s.toList

/-- The symbols can be written, so everything can be if the states can be. -/
theorem Plain.writable [DigitLimit] {d : Dfa} (h : d.Plain)
    (hstates : d.states.toList.all ValueSet.writable = true) : d.writable = true := by
  refine Bool.and_eq_true_iff.mpr ⟨hstates, List.all_eq_true.mpr fun a ha => ?_⟩
  obtain ⟨s, rfl, -⟩ := h.symbols a ha
  rfl

/-- Whether a line is the header of a block. -/
def isHeader (line : String) : Bool := line.toList.head? == some 'F'

/-- The lines of a text. -/
def linesOf (text : String) : List String := (text.split '\n').toList.map (·.copy)

/-- The blocks of a text, which follow the title. -/
def blocksOf (text : String) : List (List String) :=
  (linesOf text).tail.splitBy fun _ line => !isHeader line

variable {d e : Dfa} {S T : ValueSet} {a b : Value}

/-! ### Lines -/

theorem toList_header (d : Dfa) (S : ValueSet) (accepting : Bool) :
    (d.header S accepting).toList =
      "From state(s) ".toList ++ (S.render.toList ++ (d.markers S accepting ++ ":").toList) := by
  have hparts (title marks : String) : (title ++ S.render ++ marks ++ ":").toList =
      title.toList ++ (S.render.toList ++ (marks ++ ":").toList) := by
    simp only [String.toList_append, List.append_assoc]
  exact hparts _ _

theorem isHeader_header (d : Dfa) (S : ValueSet) (accepting : Bool) :
    isHeader (d.header S accepting) = true := by
  rw [isHeader, toList_header]
  rfl

theorem isHeader_transitionLine (a : Value) (T : ValueSet) :
    isHeader (transitionLine a T) = false := by
  rw [isHeader, transitionLine, String.toList_append, String.toList_append, String.toList_append]
  rfl

/-- The words after the members of a state, by whether it is the start and whether it is accepting. -/
def marks : Bool → Bool → String
  | false, false => ""
  | true, false => " (start)"
  | false, true => " (accept)"
  | true, true => " (start, accept)"

theorem markers_eq (d : Dfa) (S : ValueSet) (accepting : Bool) :
    d.markers S accepting = marks (S == d.start) accepting := by
  rw [markers]
  cases S == d.start <;> cases accepting <;> rfl

/-- The marks of a state tell whether it is accepting. -/
theorem eq_of_marks_eq {start start' accepting accepting' : Bool}
    (h : marks start accepting ++ ":" = marks start' accepting' ++ ":") :
    accepting = accepting' := by
  revert start start' accepting accepting'
  decide

/-- A header tells the state and whether it is accepting. -/
theorem eq_of_header_eq {accepting accepting' : Bool} (hS : S.OfInts) (hT : T.OfInts)
    (h : d.header S accepting = e.header T accepting') :
    S.sorted = T.sorted ∧ accepting = accepting' := by
  have hchars := congrArg String.toList h
  rw [toList_header, toList_header] at hchars
  obtain ⟨hsorted, hmarkers⟩ := hS.render_append_inj hT (List.append_cancel_left hchars)
  rw [markers_eq, markers_eq] at hmarkers
  exact ⟨hsorted, eq_of_marks_eq (String.toList_injective hmarkers)⟩

/-- The line of a transition tells the symbol and the state that it leads to. -/
theorem eq_of_transitionLine_eq {s t : String} (hS : S.OfInts) (hT : T.OfInts)
    (h : transitionLine (.text s) S = transitionLine (.text t) T) :
    s = t ∧ S.sorted = T.sorted := by
  have hline (s : String) {S : ValueSet} (hS : S.OfInts) :
      (transitionLine (.text s) S).toList =
        "  --".toList ++ (s.toList ++ "--> ".toList) ++ '\x7b' :: (S.memberText ++ ['\x7d']) := by
    simp only [transitionLine, Value.display, String.toList_append, List.append_assoc,
      hS.toList_render]
  have hbrace {S : ValueSet} (hS : S.OfInts) : '\x7b' ∉ S.memberText ++ ['\x7d'] := by
    rw [List.mem_append, not_or]
    exact ⟨hS.not_mem_memberText (by decide) (by decide), by decide⟩
  have hchars := congrArg String.toList h
  rw [hline s hS, hline t hT] at hchars
  obtain ⟨hsymbol, hmembers⟩ := append_cons_inj_of_not_mem (hbrace hS) (hbrace hT) hchars
  have hrender : S.render.toList ++ [] = T.render.toList ++ [] := by
    rw [hS.toList_render, hT.toList_render, hmembers]
  exact ⟨String.toList_injective (List.append_cancel_right (List.append_cancel_left hsymbol)),
    (hS.render_append_inj hT hrender).1⟩

theorem not_mem_header (hS : S.OfInts) (accepting : Bool) :
    '\n' ∉ (d.header S accepting).toList := by
  have htitle : '\n' ∉ "From state(s) ".toList := by decide
  have hmarks : ∀ start accepting, '\n' ∉ (marks start accepting ++ ":").toList := by decide
  rw [toList_header, markers_eq, List.mem_append, List.mem_append, not_or, not_or]
  exact ⟨htitle, hS.not_mem_render, hmarks _ _⟩

theorem not_mem_transitionLine {s : String} (hs : '\n' ∉ s.toList) (hT : T.OfInts) :
    '\n' ∉ (transitionLine (.text s) T).toList := by
  have hleft : '\n' ∉ "  --".toList := by decide
  have hright : '\n' ∉ "--> ".toList := by decide
  simp only [transitionLine, Value.display, String.toList_append, List.mem_append, not_or]
  exact ⟨⟨⟨hleft, hs⟩, hright⟩, hT.not_mem_render⟩

/-! ### Blocks -/

theorem linesOf_intercalate {lines : List String} (hne : lines ≠ [])
    (h : ∀ line ∈ lines, '\n' ∉ line.toList) : linesOf ("\n".intercalate lines) = lines :=
  (String.toList_split_intercalate h).trans (if_neg hne)

namespace IsTable

variable {accepting accepting' : ValueSet → Bool} {target target' : ValueSet → Value → ValueSet}

theorem not_mem_lines (h : d.IsTable accepting target) (hplain : d.Plain) :
    ∀ line ∈ "DFA Transitions:" :: d.states.toList.flatMap (d.block accepting target),
      '\n' ∉ line.toList := by
  rw [List.forall_mem_cons]
  refine ⟨by decide, fun line hline => ?_⟩
  obtain ⟨S, hS, hline⟩ := List.mem_flatMap.mp hline
  rcases List.mem_cons.mp hline with rfl | hline
  · exact not_mem_header (hplain.states S hS) _
  · obtain ⟨a, ha, rfl⟩ := List.mem_map.mp hline
    rw [ValueSet.mem_sorted] at ha
    obtain ⟨s, rfl, hs⟩ := hplain.symbols a ha
    exact not_mem_transitionLine hs (hplain.states _ (h.closed S hS _ ha))

/-- The blocks of the text are those of the states. -/
theorem blocksOf_eq (h : d.IsTable accepting target) (hplain : d.Plain) :
    blocksOf ("\n".intercalate
      ("DFA Transitions:" :: d.states.toList.flatMap (d.block accepting target))) =
      d.states.toList.map (d.block accepting target) := by
  rw [blocksOf, linesOf_intercalate (List.cons_ne_nil _ _) (h.not_mem_lines hplain), List.tail_cons,
    List.flatMap]
  refine List.splitBy_flatten ?_ ?_ ?_
  · intro hnil
    obtain ⟨S, -, hS⟩ := List.mem_map.mp hnil
    cases hS
  · -- Only the first line of a block is a header.
    intro block hblock
    obtain ⟨S, -, rfl⟩ := List.mem_map.mp hblock
    have hlines : ∀ a, (!isHeader (transitionLine a (target S a))) = true := fun a => by
      rw [isHeader_transitionLine, Bool.not_false]
    refine (List.pairwise_cons.mpr ⟨fun line hline => ?_, ?_⟩).isChain
    · obtain ⟨a, -, rfl⟩ := List.mem_map.mp hline
      exact hlines a
    · exact List.pairwise_map.mpr (List.pairwise_of_forall fun _ => hlines)
  · refine (List.pairwise_map.mpr (List.pairwise_of_forall fun S T => ?_)).isChain
    exact ⟨List.cons_ne_nil _ _, List.cons_ne_nil _ _, congrArg not (isHeader_header d T _)⟩

/-- Equal blocks are those of equal rows. -/
theorem rowsAgree_of_block_eq (hd : d.IsTable accepting target)
    (he : e.IsTable accepting' target') (hplain : d.Plain) (hplain' : e.Plain)
    (hS : S ∈ d.states.toList) (hT : T ∈ e.states.toList)
    (h : d.block accepting target S = e.block accepting' target' T) :
    d.alphabet.sorted = e.alphabet.sorted ∧
      RowsAgree d e accepting accepting' target target' S T := by
  obtain ⟨hheader, hlines⟩ := List.cons.inj h
  obtain ⟨hsorted, haccepting⟩ :=
    eq_of_header_eq (hplain.states S hS) (hplain'.states T hT) hheader
  have hsymbols : List.Forall₂ (fun a b => a = b ∧ (target S a).sorted = (target' T b).sorted)
      d.alphabet.sorted e.alphabet.sorted := by
    refine (forall₂_mem (forall₂_of_map_eq_map hlines)).imp fun a b hline => ?_
    obtain ⟨ha, hb, hline⟩ := hline
    rw [ValueSet.mem_sorted] at ha hb
    have htarget := hplain.states _ (hd.closed S hS a ha)
    have htarget' := hplain'.states _ (he.closed T hT b hb)
    obtain ⟨s, rfl, -⟩ := hplain.symbols a ha
    obtain ⟨t, rfl, -⟩ := hplain'.symbols b hb
    obtain ⟨rfl, hsame⟩ := eq_of_transitionLine_eq htarget htarget' hline
    exact ⟨rfl, hsame⟩
  refine ⟨?_, ValueSet.beq_of_sorted_eq hsorted, haccepting, fun a ha b hb hab => ?_⟩
  · rw [← List.forall₂_eq_eq_eq]
    exact hsymbols.imp fun _ _ h => h.1
  · obtain ⟨b', hb', rfl, hsame⟩ := exists_of_forall₂ hsymbols (ValueSet.mem_sorted.mpr ha)
    obtain rfl := OrderedSet.eq_of_beq_of_mem (ValueSet.mem_sorted.mp hb') hb hab
    exact ValueSet.beq_of_sorted_eq hsame

/-- Automata with the same text are equal and have the same states in the same order. -/
theorem beqInOrder_of_render?_eq_ok [DigitLimit] (hd : d.IsTable accepting target)
    (he : e.IsTable accepting' target') (hplain : d.Plain) (hplain' : e.Plain) {text : String}
    (htext : d.render? = .ok text) (htext' : e.render? = .ok text) : d.BeqInOrder e := by
  have h := (hd.eq_of_render?_eq_ok htext).symm.trans (he.eq_of_render?_eq_ok htext')
  have hblocks : List.Forall₂ (fun S T => d.block accepting target S = e.block accepting' target' T)
      d.states.toList e.states.toList := by
    have hsame := congrArg blocksOf h
    rw [hd.blocksOf_eq hplain, he.blocksOf_eq hplain'] at hsame
    exact forall₂_of_map_eq_map hsame
  have hrows := (forall₂_mem hblocks).imp fun S T hST =>
    rowsAgree_of_block_eq hd he hplain hplain' hST.1 hST.2.1 hST.2.2
  obtain ⟨T, -, halphabet, -⟩ := exists_of_forall₂ hrows hd.start_mem
  exact hd.beqInOrder he (ValueSet.beq_of_sorted_eq halphabet) (hrows.imp fun _ _ h => h.2)

end IsTable

end Dfa

end Determinize
