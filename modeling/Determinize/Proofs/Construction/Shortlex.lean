import Determinize.Proofs.Collection.BreadthFirst
import Determinize.Proofs.Construction.Exploration
import Mathlib.Data.List.Pairwise
import Mathlib.Data.List.Shortlex

/-!
# Conversions first in, first out discover states in shortlex order

Words are compared by length first, and words of one length by the places of their symbols in the
alphabet (*shortlex* order). Every state of a converted automaton has a least word among those that
lead to it. A conversion that expands states first in, first out discovers them in the order of
their least words, so a state that is reached by a shorter word is not discovered after a state that
needs a longer one.

## Main definitions

* `place`, `ShortlexBefore` — the order of words.
* `Dfa.LeadsTo`, `Dfa.IsLeastWord` — the words of a state.

## Main results

* `Construction.exists_leastWords` — the words by which a conversion meets states.
* `Nfa.convert?_fifo_shortlex`.
-/

namespace Determinize

/-! ### Places of symbols and the order of words -/

/-- The place of a symbol in an alphabet: that of the first symbol that equals it. -/
def place (symbols : List Value) (a : Value) : Nat := symbols.findIdx (· == a)

/-- Shorter words come first, and words of one length in the order of the places of their
symbols. -/
def ShortlexBefore (symbols u v : List Value) : Prop :=
  List.Shortlex (· < ·) (u.map (place symbols)) (v.map (place symbols))

theorem shortlexBefore_iff {symbols u v : List Value} :
    ShortlexBefore symbols u v ↔ wordKey (place symbols) u < wordKey (place symbols) v := by
  rw [ShortlexBefore, List.shortlex_def, wordKey_lt_iff, List.length_map, List.length_map]
  rfl

theorem place_congr (symbols : List Value) {a b : Value} (h : (a == b) = true) :
    place symbols a = place symbols b := by
  have : (fun x : Value => x == a) = fun x => x == b := by
    funext x
    exact Bool.eq_iff_iff.mpr ⟨fun hx => BEq.trans hx h, fun hx => BEq.trans hx (BEq.symm h)⟩
  rw [place, this, place]

theorem place_append_singleton (symbols : List Value) (c a : Value) :
    place (symbols ++ [c]) a =
      if place symbols a < symbols.length then place symbols a
      else place [c] a + symbols.length :=
  List.findIdx_append

/-- The symbols of an alphabet without repetitions are in the order of their places. -/
theorem pairwise_place_lt (symbols : List Value) :
    (OrderedSet.ofList symbols).toList.Pairwise fun a b => place symbols a < place symbols b := by
  induction symbols using List.reverseRecOn with
  | nil => exact .nil
  | append_singleton symbols c ih =>
    have hplace {a : Value} (ha : ∃ b ∈ symbols, (b == a) = true) :
        place symbols a < symbols.length ∧ place (symbols ++ [c]) a = place symbols a := by
      obtain ⟨b, hb, hba⟩ := ha
      have hlt : place symbols a < symbols.length := List.findIdx_lt_length.mpr ⟨b, hb, hba⟩
      exact ⟨hlt, by rw [place_append_singleton, if_pos hlt]⟩
    have hmem {a : Value} (ha : a ∈ (OrderedSet.ofList symbols).toList) :=
      hplace ⟨a, OrderedSet.mem_of_mem_toList_ofList ha, BEq.rfl⟩
    have hofList : OrderedSet.ofList (symbols ++ [c]) = (OrderedSet.ofList symbols).insert c := by
      simp [OrderedSet.ofList, OrderedSet.insertAll]
    have hbefore : (OrderedSet.ofList symbols).toList.Pairwise fun a b =>
        place (symbols ++ [c]) a < place (symbols ++ [c]) b :=
      ih.imp_of_mem fun ha hb hab => by rwa [(hmem ha).2, (hmem hb).2]
    rw [hofList, OrderedSet.toList_insert]
    split
    · exact hbefore
    · rename_i hnew
      refine List.pairwise_append.mpr ⟨hbefore, List.pairwise_singleton .., fun a ha b hb => ?_⟩
      have hlength : place symbols c = symbols.length := by
        refine List.findIdx_eq_length_of_false fun x hx => ?_
        rw [← Bool.not_eq_true]
        exact fun hxc => hnew (OrderedSet.contains_ofList_iff.mpr ⟨x, hx, hxc⟩)
      rw [List.mem_singleton.mp hb, (hmem ha).2, place_append_singleton,
        if_neg (hlength.symm ▸ lt_irrefl _)]
      exact Nat.lt_add_left _ (hmem ha).1

/-! ### Words that lead to states -/

namespace Dfa

/-- The word leads from the start to the state. -/
def LeadsTo (d : Dfa) (word : List Value) (S : ValueSet) : Prop :=
  ∃ T, word.foldlM d.step? d.start = .ok T ∧ (T == S) = true

/-- A least word of those over an alphabet that lead to a state. -/
structure IsLeastWord (d : Dfa) (symbols : List Value) (S : ValueSet) (word : List Value) :
    Prop where
  isWordOver : IsWordOver symbols word
  leads : d.LeadsTo word S
  least : ∀ v, IsWordOver symbols v → d.LeadsTo v S → ¬ ShortlexBefore symbols v word

variable {d : Dfa} {n : Nfa} {A : ValueSet} {S T : ValueSet} {symbols u v word : List Value}

/-- Least words of one state have the same length and the same places of symbols. -/
theorem IsLeastWord.wordKey_eq (hu : d.IsLeastWord symbols S u) (hv : d.IsLeastWord symbols S v) :
    wordKey (place symbols) u = wordKey (place symbols) v := by
  have huv := hv.least u hu.isWordOver hu.leads
  have hvu := hu.least v hv.isWordOver hv.leads
  rw [shortlexBefore_iff, not_lt] at huv hvu
  exact le_antisymm hvu huv

/-- In a subset automaton, a word leads to the set that is reached by it. -/
theorem IsSubsetAutomaton.leadsTo_iff (hd : d.IsSubsetAutomaton n A)
    (hword : ∀ a ∈ word, a.Hashable ∧ A.contains a = true) :
    d.LeadsTo word S ↔ (n.reached word == S) = true := by
  have hreached (word : List Value) (hword : ∀ a ∈ word, a.Hashable ∧ A.contains a = true)
      (S T : ValueSet) (hS : d.hasState S = true) (hST : (S == T) = true) :
      ∃ X, word.foldlM d.step? S = .ok X ∧ (X == word.foldl n.successor T) = true := by
    induction word generalizing S T with
    | nil => exact ⟨S, rfl, hST⟩
    | cons a word ih =>
      rw [List.forall_mem_cons] at hword
      obtain ⟨next, hnext, hsucc⟩ := hd.exists_step? hS hword.1.1 hword.1.2
      rw [List.foldlM_cons, hnext]
      exact ih hword.2 next _ (hd.hasState_of_beq_successor hS hword.1.2 hsucc)
        (BEq.trans hsucc (Nfa.successor_congr hST BEq.rfl))
  obtain ⟨X, hX, hequal⟩ := hreached word hword d.start _ hd.hasState_start hd.start
  constructor
  · rintro ⟨T, hT, hTS⟩
    rw [hX] at hT
    injection hT with hT
    exact BEq.trans (BEq.symm hequal) (hT ▸ hTS)
  · exact fun h => ⟨X, hX, BEq.trans hequal h⟩

end Dfa

/-! ### Conversions -/

/-- A word over an alphabet, spelled with the symbols of the alphabet. -/
theorem Nfa.exists_spelled (n : Nfa) {symbols word : List Value} (hword : IsWordOver symbols word) :
    ∃ v, (∀ a ∈ v, a ∈ (OrderedSet.ofList symbols).toList) ∧
      wordKey (place symbols) v = wordKey (place symbols) word ∧
      (n.reached v == n.reached word) = true := by
  induction word using List.reverseRecOn with
  | nil => exact ⟨[], fun _ ha => absurd ha List.not_mem_nil, rfl, BEq.rfl⟩
  | append_singleton word a ih =>
    rw [isWordOver_iff, List.forall_mem_append] at hword
    obtain ⟨v, hv, hkey, hreached⟩ := ih (isWordOver_iff.mpr hword.1)
    obtain ⟨b, hb, hba⟩ := OrderedSet.contains_iff.mp (hword.2 a List.mem_cons_self)
    obtain ⟨hlength, hplaces⟩ := Prod.mk.inj (toLex.injective hkey)
    refine ⟨v ++ [b], ?_, ?_, ?_⟩
    · rw [List.forall_mem_append]
      exact ⟨hv, List.forall_mem_singleton.mpr hb⟩
    · simp only [wordKey, List.length_append, List.map_append, hlength, hplaces, List.map_cons,
        List.map_nil, place_congr symbols hba, List.length_singleton]
    · rw [reached_append_singleton, reached_append_singleton]
      exact successor_congr hreached hba

/-- A run first in, first out meets the reached sets by ascending words, which are the least words
over the alphabet that reach the sets. -/
theorem Construction.exists_leastWords (n : Nfa) (symbols : List Value) :
    ∃ words : List (List Value),
      (explore ⟨OrderedSet.ofList symbols, .fifo⟩ n).discovered.toList = words.map n.reached ∧
      words.Pairwise (fun u v => wordKey (place symbols) u < wordKey (place symbols) v) ∧
      (∀ w ∈ words, IsWordOver symbols w) ∧
      ∀ w ∈ words, ∀ v, IsWordOver symbols v → (n.reached v == n.reached w) = true →
        wordKey (place symbols) w ≤ wordKey (place symbols) v := by
  obtain ⟨words, pending, h⟩ := (Search.ascending_start (place symbols)
    (OrderedSet.ofList symbols).toList n.successor (n.closure n.starts)).run
      (pairwise_place_lt symbols) (Nat.pow 2 n.states.size)
  have hpending : pending = [] :=
    List.map_eq_nil_iff.mp (h.waiting.symm.trans (waiting_explore_eq_nil ⟨_, .fifo⟩ n))
  subst hpending
  have happend : words ++ [] = words := List.append_nil words
  have hdiscovered : (explore ⟨OrderedSet.ofList symbols, .fifo⟩ n).discovered.toList =
      words.map n.reached := happend ▸ h.discovered
  have hdistinct : words.Pairwise fun u v => (n.reached u == n.reached v) = false :=
    List.pairwise_map.mp (hdiscovered ▸ OrderedSet.distinct _)
  refine ⟨words, hdiscovered, happend ▸ h.ascending, fun w hw => ?_, fun w hw v hv hvw => ?_⟩
  · exact isWordOver_iff.mpr fun a ha =>
      OrderedSet.contains_of_mem (h.letter_mem w (happend.symm ▸ hw) a ha)
  · obtain ⟨v', hv', hkey, hreached⟩ := n.exists_spelled hv
    obtain ⟨u, hu, hle, hequal⟩ :=
      h.exists_le (fun x y a hxy => Nfa.successor_congr hxy BEq.rfl) hv'
    have huw : (n.reached u == n.reached w) = true := BEq.trans hequal (BEq.trans hreached hvw)
    -- The word by which the set was met is the only one that reaches it.
    have : Std.Symm fun u v => (n.reached u == n.reached v) = false :=
      ⟨fun _ _ h => by rwa [BEq.comm]⟩
    obtain rfl : u = w := by
      by_contra hne
      rw [hdistinct.forall hu hw hne] at huw
      exact Bool.noConfusion huw
    exact hkey ▸ hle

namespace Nfa

/-- First in, first out, states are discovered in the order of their least words. A conversion fails
only if a reached set that it reports cannot be written. -/
theorem convert?_fifo_shortlex [DigitLimit] (n : Nfa) (symbols : List Value)
    (hmarker : n.marker.Hashable) (hhash : ∀ a ∈ symbols, a.Hashable)
    (hfree : ∀ a ∈ symbols, (a == n.marker) = false) :
    (n.Reportable (.ofList symbols) →
      ∃ c, n.convert? (some (.list symbols)) (.text "fifo") = .ok c ∧
        (∀ S ∈ c.dfa.states.toList, ∃ w, c.dfa.IsLeastWord symbols S w) ∧
        (c.dfa.states.toList.Pairwise fun S T => ∀ u v, c.dfa.IsLeastWord symbols S u →
          c.dfa.IsLeastWord symbols T v → ShortlexBefore symbols u v) ∧
        c.dfa.states.toList.Pairwise fun S T => ∀ v, IsWordOver symbols v → c.dfa.LeadsTo v T →
          ∃ u, IsWordOver symbols u ∧ c.dfa.LeadsTo u S ∧ u.length ≤ v.length) ∧
    (¬ n.Reportable (.ofList symbols) →
      n.convert? (some (.list symbols)) (.text "fifo") = .error .tooManyDigits) := by
  refine ⟨fun hreportable => ⟨_, convert?_list .fifo hmarker hhash hfree hreportable, ?_⟩,
    convert?_eq_error_of_not_reportable .fifo hmarker hhash hfree⟩
  have hd := Construction.isSubsetAutomaton_dfa ⟨OrderedSet.ofList symbols, .fifo⟩ n
  have hleads {word : List Value} (hword : IsWordOver symbols word) (S : ValueSet) :=
    hd.leadsTo_iff (S := S) fun a ha =>
      ⟨hword.hashable hhash a ha, isWordOver_iff.mp hword a ha⟩
  obtain ⟨words, hwords, hascending, hover, hleast⟩ := Construction.exists_leastWords n symbols
  have hisLeast : ∀ w ∈ words, Dfa.IsLeastWord
      (Construction.dfa ⟨OrderedSet.ofList symbols, .fifo⟩ n) symbols (n.reached w) w := by
    refine fun w hw => ⟨hover w hw, (hleads (hover w hw) _).mpr BEq.rfl, fun v hv hlead => ?_⟩
    rw [shortlexBefore_iff, not_lt]
    exact hleast w hw v hv ((hleads hv _).mp hlead)
  rw [Construction.states_dfa, hwords, List.pairwise_map, List.pairwise_map, List.forall_mem_map]
  refine ⟨fun w hw => ⟨w, hisLeast w hw⟩,
    hascending.imp_of_mem fun {w w'} hw hw' hlt u v hu hv => ?_,
    hascending.imp_of_mem fun {w w'} hw hw' hlt v hv hlead => ?_⟩
  · rwa [shortlexBefore_iff, hu.wordKey_eq (hisLeast w hw), hv.wordKey_eq (hisLeast w' hw')]
  · refine ⟨w, hover w hw, (hisLeast w hw).leads, ?_⟩
    have hle := hlt.le.trans (hleast w' hw' v hv ((hleads hv _).mp hlead))
    exact (Prod.Lex.toLex_le_toLex.mp hle).elim le_of_lt fun h => h.1.le

/-- The alphabet `b`, `a`, given with a repetition: words with `b` come before words with `a`. -/
theorem convert?_looped_shortlex :
    ∃ c, looped.convert? (some (.list [.text "b", .text "a", .text "b"])) (.text "fifo") = .ok c ∧
      (∀ S ∈ c.dfa.states.toList, ∃ w,
        c.dfa.IsLeastWord [.text "b", .text "a", .text "b"] S w) ∧
      c.dfa.states.toList.Pairwise fun S T => ∀ u v,
        c.dfa.IsLeastWord [.text "b", .text "a", .text "b"] S u →
          c.dfa.IsLeastWord [.text "b", .text "a", .text "b"] T v →
            ShortlexBefore [.text "b", .text "a", .text "b"] u v := by
  obtain ⟨c, hc, hleast, hascending, -⟩ := (convert?_fifo_shortlex looped
    [.text "b", .text "a", .text "b"] (by decide) (by decide) (by decide)).1 (by decide)
  exact ⟨c, hc, hleast, hascending⟩

end Nfa

end Determinize
