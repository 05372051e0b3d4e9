import Determinize.Proofs.Construction.Reached
import Determinize.Proofs.Nfa.Renaming

/-!
# Conversions of renamed automata

The conversion of a renamed automaton makes the renamed automaton: the sets that are met are the images
of the sets that are met without the renaming, in the same order, and they accept and lead on alike.
All that is asked of a renaming is that it respects equality and tells the states, and the letters,
apart. So no value is special, neither `null` nor a value that is empty or zero, apart from integers
with so many digits that they cannot be written.

## Main definitions

* `Construction.Renamed` — the symbols are renamed.
* `Dfa.Renamed` — an automaton is the image of another one.

## Main results

* `Nfa.Renamed.forall₂_explore` — the sets that are met.
* `Nfa.Renamed.renamed_dfa`, `Nfa.Renamed.exists_convert?` — what a run and a conversion make.
* `Nfa.convert?_renamed`.
-/

namespace Determinize

/-- The symbols of a construction are the images of those of another one, in the same order. -/
structure Construction.Renamed (g : Value → Value) (c c' : Construction) : Prop where
  discipline : c.discipline = c'.discipline
  alphabet : c'.alphabet.toList = c.alphabet.toList.map g

/-- The states of `d'` are the images of the states of `d`, in the same order, and the image of a
state accepts if the state does and leads to the images of what the state leads to. -/
structure Dfa.Renamed (f g : Value → Value) (d d' : Dfa) : Prop where
  states : List.Forall₂ (fun S T => (S.image f == T) = true) d.states.toList d'.states.toList
  acceptStates : List.Forall₂ (fun S T => (S.image f == T) = true) d.acceptStates d'.acceptStates
  start : (d.start.image f == d'.start) = true
  alphabet : d'.alphabet.toList = d.alphabet.toList.map g
  step : ∀ S, d.hasState S = true → ∀ a, d.alphabet.contains a = true →
    ∃ T T', d.step? S a = .ok T ∧ d'.step? (S.image f) (g a) = .ok T' ∧ (T.image f == T') = true
  accepting : ∀ S, d.hasState S = true → ∃ accepted,
    d.isAccepting? S = .ok accepted ∧ d'.isAccepting? (S.image f) = .ok accepted
  dead : d'.hasDeadState = d.hasDeadState

namespace Nfa

variable {n n' : Nfa} {f g : Value → Value} {S T : ValueSet} {a : Value} {symbols : List Value}

/-! ### Runs -/

namespace Renamed

variable {c c' : Construction} (h : n.Renamed f g n') (hf : n.states.Faithful f)
  (hg : (n.letters symbols).Faithful g) (hc : c.Renamed g c')
  (hsymbols : ∀ a ∈ c.alphabet.toList, a ∈ symbols)

include h hf hg hc hsymbols

/-- The sets that are met are the images of those that are met without the renaming. -/
theorem forall₂_explore : List.Forall₂ (n.IsImage f) (c.explore n).discovered.toList
    (c'.explore n').discovered.toList := by
  have hnext (S T : ValueSet) (hST : n.IsImage f S T) :
      List.Forall₂ (n.IsImage f) (c.successors n S) (c'.successors n' T) := by
    refine Construction.forall₂_successors ?_
    rw [hc.alphabet]
    refine List.forall₂_map_right_iff.mpr (List.forall₂_same.mpr fun a ha => ?_)
    exact h.isImage_successor hf hg (contains_letters_of_mem (hsymbols a ha)) BEq.rfl hST
  exact Construction.forall₂_explore (respectsBEq_isImage hf) hc.discipline
    (h.isImage_closure hf hg h.isImage_starts) hnext

theorem hasState_eq (hST : n.IsImage f S T) : (c'.dfa n').hasState T = (c.dfa n).hasState S := by
  have hexplore := h.forall₂_explore hf hg hc hsymbols
  rw [← Dfa.contains_states, ← Dfa.contains_states, Construction.states_dfa,
    Construction.states_dfa,
    OrderedSet.contains_eq_of_forall₂ (respectsBEq_isImage hf) hexplore hST]

/-- A state leads to the image of what it leads to without the renaming. -/
theorem exists_step? (hS : (c.dfa n).hasState S = true) (hST : n.IsImage f S T)
    (ha : c.alphabet.contains a = true) (hhash : ∀ a ∈ symbols, a.Hashable ∧ (g a).Hashable) :
    ∃ U U', (c.dfa n).step? S a = .ok U ∧ (c'.dfa n').step? T (g a) = .ok U' ∧
      (U.image f == U') = true := by
  have hd := c.isSubsetAutomaton_dfa n
  have hd' := c'.isSubsetAutomaton_dfa n'
  -- The symbol need not be spelled as in the alphabet.
  obtain ⟨b, hb, hba⟩ := OrderedSet.contains_iff.mp ha
  have hletter := contains_letters_of_mem (n := n) (hsymbols b hb)
  have himage : (g b == g a) = true := hg.beq_of_beq hletter hba
  have ha' : c'.alphabet.contains (g a) = true :=
    OrderedSet.contains_iff.mpr ⟨g b, hc.alphabet ▸ List.mem_map_of_mem hb, himage⟩
  obtain ⟨hb, hb'⟩ := hhash b (hsymbols b hb)
  obtain ⟨U, hU, hsucc⟩ := hd.exists_step? hS ((Value.hashable_congr hba).mp hb) ha
  obtain ⟨U', hU', hsucc'⟩ := hd'.exists_step?
    (h.hasState_eq hf hg hc hsymbols hST ▸ hS) ((Value.hashable_congr himage).mp hb') ha'
  refine ⟨U, U', hU, hU', ?_⟩
  have hnext := h.isImage_successor hf hg (OrderedSet.contains_congr _ hba ▸ hletter) BEq.rfl hST
  have hsub : U.isSubset n.states = true := OrderedSet.isSubset_iff.mpr fun q hq =>
    hd.contains_states_of_contains (hd.hasState_of_beq_successor hS ha hsucc) hq
  rw [BEq.congr_right hsucc', ← BEq.congr_right hnext.beq, hf.beq_image hsub hnext.isSubset]
  exact hsucc

/-- A run on the renamed automaton makes the renamed automaton. -/
theorem renamed_dfa (hhash : ∀ a ∈ symbols, a.Hashable ∧ (g a).Hashable) :
    (c.dfa n).Renamed f g (c'.dfa n') := by
  have hexplore := h.forall₂_explore hf hg hc hsymbols
  have hd := c.isSubsetAutomaton_dfa n
  have himage (S : ValueSet) (hS : (c.dfa n).hasState S = true) : n.IsImage f S (S.image f) :=
    ⟨OrderedSet.isSubset_iff.mpr fun q hq => hd.contains_states_of_contains hS hq, BEq.rfl⟩
  constructor
  case states =>
    rw [Construction.states_dfa, Construction.states_dfa]
    exact hexplore.imp fun _ _ hST => hST.beq
  case acceptStates =>
    rw [Construction.acceptStates_dfa, Construction.acceptStates_dfa]
    refine (List.rel_filter (fun S T hST => ?_) hexplore).imp fun _ _ hST => hST.beq
    dsimp only
    rw [h.isAccepting_eq hf hST]
  case start => exact (h.isImage_closure hf hg h.isImage_starts).beq
  case alphabet => exact hc.alphabet
  case step =>
    exact fun S hS a ha => h.exists_step? hf hg hc hsymbols hS (himage S hS) ha hhash
  case accepting =>
    intro S hS
    refine ⟨_, hd.isAccepting?_eq hS, ?_⟩
    rw [(c'.isSubsetAutomaton_dfa n').isAccepting?_eq
      (h.hasState_eq hf hg hc hsymbols (himage S hS) ▸ hS), h.isAccepting_eq hf (himage S hS)]
  case dead => exact h.hasState_eq hf hg hc hsymbols ⟨rfl, BEq.rfl⟩

end Renamed

/-! ### Conversions -/

/-- Conversions of an automaton and of a renamed one. -/
theorem Renamed.exists_convert? [DigitLimit] (h : n.Renamed f g n') (hf : n.states.Faithful f)
    (hg : (n.letters symbols).Faithful g) (d : Discipline)
    (hmarker : n.marker.Hashable ∧ (g n.marker).Hashable)
    (hhash : ∀ a ∈ symbols, a.Hashable ∧ (g a).Hashable)
    (hfree : ∀ a ∈ symbols, (a == n.marker) = false) :
    (n.Reportable (.ofList symbols) → n'.Reportable (.ofList (symbols.map g)) →
      ∃ c c', n.convert? (some (.list symbols)) (.text d.name) = .ok c ∧
        n'.convert? (some (.list (symbols.map g))) (.text d.name) = .ok c' ∧
        c.dfa.Renamed f g c'.dfa) ∧
    (¬ n'.Reportable (.ofList (symbols.map g)) →
      n'.convert? (some (.list (symbols.map g))) (.text d.name) = .error .tooManyDigits) := by
  have hfree' : ∀ a ∈ symbols, (g a == n'.marker) = false := by
    intro a ha
    rw [← BEq.congr_right h.marker,
      hg a n.marker (contains_letters_of_mem ha) (n.contains_letters_marker symbols), hfree a ha]
  have halphabet := hg.toList_ofList_map fun a (ha : a ∈ symbols) => contains_letters_of_mem ha
  have hmarker' : n'.marker.Hashable := (Value.hashable_congr h.marker).mp hmarker.2
  have hhash' : ∀ a ∈ symbols.map g, a.Hashable :=
    List.forall_mem_map.mpr fun a ha => (hhash a ha).2
  refine ⟨fun hreportable hreportable' => ⟨_, _,
    convert?_list d hmarker.1 (fun a ha => (hhash a ha).1) hfree hreportable,
    convert?_list d hmarker' hhash' (List.forall_mem_map.mpr hfree') hreportable', ?_⟩,
    convert?_eq_error_of_not_reportable d hmarker' hhash' (List.forall_mem_map.mpr hfree')⟩
  exact h.renamed_dfa hf hg ⟨rfl, halphabet⟩ (fun a => OrderedSet.mem_of_mem_toList_ofList) hhash

/-- An automaton can be renamed by adding the images of its transitions, and the conversion of a
renamed automaton makes the renamed automaton, whatever the states and the letters are renamed to,
unless a set that one of the two conversions reports cannot be written: then this conversion fails. -/
theorem convert?_renamed [DigitLimit] (n : Nfa) (f g : Value → Value) (symbols : List Value) (d : Discipline)
    (hf : n.states.Faithful f) (hg : (n.letters symbols).Faithful g)
    (hstates : ∀ p ∈ n.states.toList, (f p).Hashable)
    (hletters : ∀ a ∈ (n.letters symbols).toList, (g a).Hashable)
    (hmarker : n.marker.Hashable) (hhash : ∀ a ∈ symbols, a.Hashable)
    (hfree : ∀ a ∈ symbols, (a == n.marker) = false) :
    (∃ n', n.rename? f g = .ok n' ∧ n.Renamed f g n') ∧
      (¬ n.Reportable (.ofList symbols) →
        n.convert? (some (.list symbols)) (.text d.name) = .error .tooManyDigits) ∧
      ∀ n', n.Renamed f g n' →
        (n.Reportable (.ofList symbols) → n'.Reportable (.ofList (symbols.map g)) →
          ∃ c c', n.convert? (some (.list symbols)) (.text d.name) = .ok c ∧
            n'.convert? (some (.list (symbols.map g))) (.text d.name) = .ok c' ∧
            c.dfa.Renamed f g c'.dfa) ∧
        (¬ n'.Reportable (.ofList (symbols.map g)) →
          n'.convert? (some (.list (symbols.map g))) (.text d.name) = .error .tooManyDigits) := by
  have himage := hg.hashable hletters
  refine ⟨exists_rename? (hf.hashable hstates) fun t ht =>
    himage t.2.1 (contains_letters_of_mem_transitions ht),
    convert?_eq_error_of_not_reportable d hmarker hhash hfree, fun n' h => ?_⟩
  exact h.exists_convert? hf hg d ⟨hmarker, himage _ (n.contains_letters_marker symbols)⟩
    (fun a ha => ⟨hhash a ha, himage a (contains_letters_of_mem ha)⟩) hfree

/-- A value looked up in a table. A value that is not in the table stands for itself. -/
def replaced (table : List (Value × Value)) (x : Value) : Value :=
  (table.find? fun e => e.1 == x).elim x (·.2)

theorem replaced_beq (table : List (Value × Value)) {x y : Value} (h : (x == y) = true) :
    (replaced table x == replaced table y) = true := by
  have hsame : (fun e : Value × Value => e.1 == x) = fun e => e.1 == y := by
    funext e
    exact BEq.congr_right h
  rw [replaced, replaced, hsame]
  cases table.find? fun e => e.1 == y with
  | none => exact h
  | some e => exact BEq.rfl

/-- States and letters are replaced by `null` and by values that are empty or zero. -/
theorem convert?_looped_renamed :
    let f := replaced [(.int 0, .null), (.null, .text ""), (.text "x", .bool false),
      (.tuple [.int 1], .tuple [])]
    let g := replaced [(.text "ε", .int 0), (.text "a", .null), (.text "b", .text "")]
    ∃ n' c c', looped.rename? f g = .ok n' ∧
      looped.convert? (some (.list [.text "a", .text "b"])) (.text "lifo") = .ok c ∧
      n'.convert? (some (.list [.null, .text ""])) (.text "lifo") = .ok c' ∧
      c.dfa.Renamed f g c'.dfa := by
  intro f g
  have hf : looped.states.Faithful f :=
    OrderedSet.faithful_of_forall_mem (fun x y => replaced_beq _) (by decide +kernel)
  have hg : (looped.letters [.text "a", .text "b"]).Faithful g :=
    OrderedSet.faithful_of_forall_mem (fun x y => replaced_beq _) (by decide +kernel)
  obtain ⟨⟨n', hn', h⟩, -, hconvert⟩ := convert?_renamed looped f g [.text "a", .text "b"] .lifo hf
    hg (by decide +kernel) (by decide +kernel) (by decide) (by decide) (by decide)
  have hwritten : ∀ n' ∈ (looped.rename? f g).toOption,
      n'.Reportable (.ofList [g (.text "a"), g (.text "b")]) := by decide +kernel
  have hreportable := hwritten n' (congrArg Except.toOption hn')
  obtain ⟨c, c', hc, hc', hd⟩ := (hconvert n' h).1 (by decide) hreportable
  exact ⟨n', c, c', hn', hc, hc', hd⟩

end Nfa

end Determinize
