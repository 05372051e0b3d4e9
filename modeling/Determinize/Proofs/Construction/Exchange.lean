import Determinize.Proofs.Construction.Table
import Determinize.Proofs.Dfa.Numbering

/-!
# Converting a converted automaton again

The records of a converted automaton, with numbers for the states, describe an automaton that can be
converted again. It has no marked transitions, because the marker is not a symbol, and every number has
one target under a symbol. So the second conversion meets sets of one number only. It meets them in
step with the first one: whenever the first meets a state, the second meets the set of its number.

## Main definitions

* `Construction.renumbered` — the automaton that the records describe.
* `Dfa.Numbers` — an automaton has numbers as states and is otherwise the same.

## Main results

* `Construction.successor_numeral`, `Construction.forall₂_explore_renumbered` — the second run.
* `Nfa.convert?_numbered`.
-/

namespace Determinize

/-- The states of `e` are the sets of one number, in order, and they accept and lead on as the states
of `d` at these positions. -/
structure Dfa.Numbers (d e : Dfa) : Prop where
  states : e.states.toList = (List.range d.size).map numeral
  step : ∀ (i j : Nat) (S T : ValueSet), d.states.toList[i]? = some S →
    d.states.toList[j]? = some T → ∀ a, e.step? (numeral i) a = .ok (numeral j) ↔
      d.step? S a = .ok T
  accepting : ∀ (i : Nat) (S : ValueSet), d.states.toList[i]? = some S →
    e.isAccepting? (numeral i) = d.isAccepting? S

namespace Construction

/-- The automaton between numbers that the records of a run describe. -/
def renumbered (c : Construction) (n : Nfa) : Nfa := ((c.dfa n).numbered (c.dfa n).records n.marker).build

variable {c : Construction} {n : Nfa} {S T : ValueSet} {p a b q : Value} {i : Nat}

/-! ### Targets of a run -/

/-- A symbol leads from a state to a state, spelled as it is stored. -/
theorem exists_find?_targets_row (hS : (c.dfa n).hasState S = true)
    (ha : c.alphabet.contains a = true) :
    ∃ T ∈ (c.dfa n).states.toList,
      (c.row n (c.explore n).discovered S).targets.find? a = some T ∧
        (T == n.successor S a) = true := by
  obtain ⟨b, -, hba, hb⟩ := OrderedSet.exists_find?_of_contains ha
  have hstate : (c.explore n).discovered.contains (n.successor S b) = true := by
    rw [← states_dfa, Dfa.contains_states]
    exact (c.isSubsetAutomaton_dfa n).hasState_of_beq_successor hS ha
      (Nfa.successor_congr BEq.rfl hba)
  obtain ⟨T, hT, hsucc, hfind⟩ := OrderedSet.exists_find?_of_contains hstate
  refine ⟨T, states_dfa c n ▸ hT, ?_, BEq.trans hsucc (Nfa.successor_congr BEq.rfl hba)⟩
  rw [find?_targets_row, hb, Option.map_some, hfind, Option.getD_some]

theorem exists_step?_mem (hS : (c.dfa n).hasState S = true) (hhash : a.Hashable)
    (ha : c.alphabet.contains a = true) :
    ∃ T ∈ (c.dfa n).states.toList, (c.dfa n).step? S a = .ok T ∧
      (T == n.successor S a) = true := by
  obtain ⟨row, hrow⟩ := Dfa.exists_row_of_hasState hS
  obtain ⟨S', hS', rfl⟩ := exists_of_find?_rows_dfa hrow
  have hstate : (c.dfa n).hasState S' = true := (Dfa.hasState_congr hS').trans hS
  obtain ⟨T, hT, hfind, hsucc⟩ := exists_find?_targets_row hstate ha
  refine ⟨T, hT, ?_, BEq.trans hsucc (Nfa.successor_congr hS' BEq.rfl)⟩
  rw [Dfa.step?_eq hrow hhash, (c.isSubsetAutomaton_dfa n).contains_alphabet, ha, if_pos rfl, hfind]

/-- The records of a run are the states, the symbols and the states that these lead to. -/
theorem mem_records_dfa_iff {r : ValueSet × Value × ValueSet} :
    r ∈ (c.dfa n).records ↔ r.1 ∈ (c.dfa n).states.toList ∧ r.2.1 ∈ c.alphabet.toList ∧
      r.2.2 ∈ (c.dfa n).states.toList ∧ (r.2.2 == n.successor r.1 r.2.1) = true := by
  have hrows (S : ValueSet) (row : Dfa.Row) : (S, row) ∈ (c.dfa n).rows.entries ↔
      S ∈ (c.dfa n).states.toList ∧ row = c.row n (c.explore n).discovered S := by
    rw [states_dfa]
    simp only [dfa, OrderedMap.ofKeys, List.mem_map, Prod.mk.injEq]
    constructor
    · rintro ⟨S, hS, rfl, rfl⟩
      exact ⟨hS, rfl⟩
    · rintro ⟨hS, rfl⟩
      exact ⟨S, hS, rfl, rfl⟩
  have hkeys (S : ValueSet) :
      (c.row n (c.explore n).discovered S).targets.keys = c.alphabet := OrderedMap.keys_ofKeys ..
  rw [Dfa.mem_records_iff]
  constructor
  · rintro ⟨row, hrow, ha, hT⟩
    obtain ⟨hS, rfl⟩ := (hrows _ _).mp hrow
    rw [hkeys] at ha
    obtain ⟨T, hmem, hfind, hsucc⟩ :=
      exists_find?_targets_row (Dfa.hasState_of_mem hS) (OrderedSet.contains_of_mem ha)
    obtain rfl := Option.some.inj (hT.symm.trans hfind)
    exact ⟨hS, ha, hmem, hsucc⟩
  · rintro ⟨hS, ha, hT, hsucc⟩
    obtain ⟨T, hmem, hfind, hsucc'⟩ :=
      exists_find?_targets_row (Dfa.hasState_of_mem hS) (OrderedSet.contains_of_mem ha)
    obtain rfl := OrderedSet.eq_of_beq_of_mem hmem hT (BEq.trans hsucc' (BEq.symm hsucc))
    exact ⟨_, (hrows _ _).mpr ⟨hS, rfl⟩, (hkeys _).symm ▸ ha, hfind⟩

/-! ### The automaton between numbers -/

theorem marker_renumbered (c : Construction) (n : Nfa) : (c.renumbered n).marker = n.marker :=
  (Nfa.Description.linkAll_fields ..).1

theorem starts_renumbered (c : Construction) (n : Nfa) : (c.renumbered n).starts = numeral 0 :=
  (Nfa.Description.linkAll_fields ..).2.1

theorem accepts_renumbered (c : Construction) (n : Nfa) : (c.renumbered n).accepts =
    OrderedSet.ofList ((c.dfa n).acceptStates.map fun S => .int ((c.dfa n).position S)) := by
  rw [renumbered, Nfa.Description.build, (Nfa.Description.linkAll_fields _ _).2.2]
  rfl

section

variable (hnull : Value.null ∉ c.alphabet.toList)

include hnull

/-- No label is given as `null`, so labels stand for themselves. -/
theorem mem_links_numbered_iff {t : Value × Value × Value} :
    t ∈ ((c.dfa n).numbered (c.dfa n).records n.marker).links ↔ ∃ r ∈ (c.dfa n).records,
      (Value.int ((c.dfa n).position r.1), r.2.1, Value.int ((c.dfa n).position r.2.2)) = t := by
  have hlabels : ((c.dfa n).numbered (c.dfa n).records n.marker).links =
      ((c.dfa n).numbered (c.dfa n).records n.marker).transitions := by
    refine (List.map_congr_left fun t ht => ?_).trans (List.map_id _)
    obtain ⟨r, hr, rfl⟩ := List.mem_map.mp ht
    have hne : r.2.1 ≠ .null := by
      intro h
      exact hnull (h ▸ (mem_records_dfa_iff.mp hr).2.1)
    simp only [Nfa.Description.labelled, if_neg hne, id]
  rw [hlabels]
  exact List.mem_map

/-- The targets of a number are numbers of successors. -/
theorem exists_of_mem_targets_renumbered (hq : q ∈ ((c.renumbered n).targets p a).toList) :
    ∃ S b, (c.dfa n).hasState S = true ∧ b ∈ c.alphabet.toList ∧
      (Value.int ((c.dfa n).position S) == p) = true ∧ (b == a) = true ∧
        q = .int ((c.dfa n).position (n.successor S b)) := by
  rcases Nfa.Description.mem_targets_linkAll hq with hbare | ⟨t, ht, hp, ha, rfl⟩
  · cases hbare
  · obtain ⟨r, hr, rfl⟩ := (mem_links_numbered_iff hnull).mp ht
    obtain ⟨hS, hb, -, hsucc⟩ := mem_records_dfa_iff.mp hr
    exact ⟨r.1, r.2.1, Dfa.hasState_of_mem hS, hb, hp, ha, by rw [Dfa.position_congr hsucc]⟩

theorem hasEdge_renumbered (hS : (c.dfa n).hasState S = true) (ha : a ∈ c.alphabet.toList) :
    (c.renumbered n).HasEdge (.int ((c.dfa n).position S)) a
      (.int ((c.dfa n).position (n.successor S a))) := by
  obtain ⟨S', hS', hS'S⟩ := Dfa.exists_mem_of_hasState hS
  obtain ⟨T, hT, -, hsucc⟩ :=
    exists_find?_targets_row (Dfa.hasState_of_mem hS') (OrderedSet.contains_of_mem ha)
  have hr : (S', a, T) ∈ (c.dfa n).records := mem_records_dfa_iff.mpr ⟨hS', ha, hT, hsucc⟩
  refine Nfa.Description.hasEdge_build.mpr
    ⟨_, (mem_links_numbered_iff hnull).mpr ⟨_, hr, rfl⟩, ?_, BEq.rfl, ?_⟩
  · rw [Dfa.position_congr hS'S]
    exact BEq.rfl
  · rw [Dfa.position_congr (BEq.trans hsucc (Nfa.successor_congr hS'S BEq.rfl))]
    exact BEq.rfl

variable (hfree : c.alphabet.contains n.marker = false)

include hfree

/-- There are no marked transitions. -/
theorem closure_numeral (i : Nat) : (c.renumbered n).closure (numeral i) = numeral i := by
  refine eq_numeral ?_ (Nfa.closure_induction (fun x hx => ?_) fun _ _ y hy => ?_)
  · exact Nfa.contains_closure_iff.mpr ⟨.int i, contains_numeral_iff.mpr BEq.rfl, .refl BEq.rfl⟩
  · rwa [toList_numeral, List.mem_singleton] at hx
  · -- The label of a transition is a symbol, and the marker is none.
    obtain ⟨S, b, -, hb, -, hmarker, -⟩ := exists_of_mem_targets_renumbered hnull hy
    rw [marker_renumbered] at hmarker
    rw [← OrderedSet.contains_congr _ hmarker, OrderedSet.contains_of_mem hb] at hfree
    cases hfree

/-- The successor of the number of a state is the number of its successor. -/
theorem successor_numeral (hS : (c.dfa n).hasState S = true) (ha : a ∈ c.alphabet.toList) :
    (c.renumbered n).successor (numeral ((c.dfa n).position S)) a =
      numeral ((c.dfa n).position (n.successor S a)) := by
  have hmove : (c.renumbered n).move [.int ((c.dfa n).position S)] a =
      numeral ((c.dfa n).position (n.successor S a)) := by
    refine eq_numeral ?_ fun x hx => ?_
    · exact Nfa.contains_move_iff.mpr ⟨_, List.mem_cons_self, hasEdge_renumbered hnull hS ha⟩
    · obtain ⟨p, hp, hx⟩ := List.mem_flatMap.mp (OrderedSet.mem_of_mem_toList_ofList hx)
      obtain rfl := List.mem_singleton.mp hp
      obtain ⟨S', b, hS', hb, hp, hba, rfl⟩ := exists_of_mem_targets_renumbered hnull hx
      rw [Value.int_beq_int_iff, Int.ofNat_inj, Dfa.position_eq_position_iff hS' hS] at hp
      rw [Dfa.position_congr (Nfa.successor_congr hp hba)]
  rw [Nfa.successor, toList_numeral, hmove, closure_numeral hnull hfree]

/-! ### The second run -/

/-- Whenever the first run meets a state, the second one meets the set of its number. -/
theorem forall₂_explore_renumbered :
    List.Forall₂ (fun S T => (c.dfa n).hasState S = true ∧ T = numeral ((c.dfa n).position S))
      (c.explore n).discovered.toList (c.explore (c.renumbered n)).discovered.toList := by
  refine forall₂_explore ?_ rfl ⟨(c.isSubsetAutomaton_dfa n).hasState_start, ?_⟩ ?_
  · rintro S _ S' _ ⟨hS, rfl⟩ ⟨hS', rfl⟩
    rw [Bool.eq_iff_iff, numeral_beq_iff, Dfa.position_eq_position_iff hS hS']
  · have hfirst : (c.dfa n).states.toList[0]? = some (c.dfa n).start := by
      rw [← List.head?_eq_getElem?, states_dfa]
      exact head?_explore c n
    rw [starts_renumbered, closure_numeral hnull hfree]
    have hposition : (c.dfa n).position (n.closure n.starts) = 0 :=
      Dfa.position_eq_of_getElem? hfirst BEq.rfl
    rw [hposition]
  · rintro S _ ⟨hS, rfl⟩
    exact forall₂_successors (List.forall₂_same.mpr fun a ha =>
      ⟨hasState_successor hS ha, successor_numeral hnull hfree hS ha⟩)

theorem states_dfa_renumbered :
    (c.dfa (c.renumbered n)).states.toList = (List.range (c.dfa n).size).map numeral := by
  have hsets := List.forall₂_map_left_iff.mpr
    ((forall₂_explore_renumbered hnull hfree).imp fun S T hST => hST.2.symm)
  rw [List.forall₂_eq_eq_eq] at hsets
  rw [states_dfa, ← hsets, ← Dfa.map_position, List.map_map, states_dfa]
  rfl

theorem hasState_numeral (hS : (c.dfa n).hasState S = true) :
    (c.dfa (c.renumbered n)).hasState (numeral ((c.dfa n).position S)) = true := by
  obtain ⟨S', hS', hS'S⟩ := Dfa.exists_mem_of_hasState hS
  apply Dfa.hasState_of_mem
  rw [states_dfa_renumbered hnull hfree, ← Dfa.map_position, ← Dfa.position_congr hS'S]
  exact List.mem_map_of_mem (List.mem_map_of_mem hS')

/-- The number of a state leads to the number of the successor. -/
theorem step?_numeral (hS : (c.dfa n).hasState S = true) (hhash : a.Hashable)
    (ha : c.alphabet.contains a = true) :
    (c.dfa (c.renumbered n)).step? (numeral ((c.dfa n).position S)) a =
      .ok (numeral ((c.dfa n).position (n.successor S a))) := by
  obtain ⟨b, hb, hba⟩ := OrderedSet.contains_iff.mp ha
  obtain ⟨T, hT, hstep, hsucc⟩ := exists_step?_mem (hasState_numeral hnull hfree hS) hhash ha
  -- A target is spelled as a state, and the states of the second run are known.
  rw [states_dfa_renumbered hnull hfree] at hT
  obtain ⟨k, -, rfl⟩ := List.mem_map.mp hT
  have hnumber : (numeral k == numeral ((c.dfa n).position (n.successor S b))) = true := by
    rw [← successor_numeral hnull hfree hS hb]
    exact BEq.trans hsucc (Nfa.successor_congr BEq.rfl (BEq.symm hba))
  rw [hstep, numeral_beq_iff.mp hnumber, Dfa.position_congr (Nfa.successor_congr BEq.rfl hba)]

/-- Numbers lead to numbers as the states at these positions lead to each other. -/
theorem step?_renumbered_iff {j : Nat} (hS : (c.dfa n).states.toList[i]? = some S)
    (hT : (c.dfa n).states.toList[j]? = some T) :
    (c.dfa (c.renumbered n)).step? (numeral i) a = .ok (numeral j) ↔
      (c.dfa n).step? S a = .ok T := by
  have hmem := List.mem_of_getElem? hT
  have hstate := Dfa.hasState_of_mem (List.mem_of_getElem? hS)
  have hnumeral := hasState_numeral hnull hfree hstate
  obtain rfl := Dfa.position_eq_of_getElem? hS BEq.rfl
  obtain rfl := Dfa.position_eq_of_getElem? hT BEq.rfl
  constructor
  · intro h
    obtain ⟨hhash, ha⟩ := Dfa.hashable_and_contains_of_step?_eq_ok hnumeral h
    obtain ⟨U, hU, hstep, hsucc⟩ := exists_step?_mem hstate hhash ha
    rw [step?_numeral hnull hfree hstate hhash ha, ← Dfa.position_congr hsucc] at h
    have hnumber := numeral_inj (Except.ok.inj h)
    rw [Dfa.position_eq_position_iff (Dfa.hasState_of_mem hU) (Dfa.hasState_of_mem hmem)] at hnumber
    rw [hstep, OrderedSet.eq_of_beq_of_mem hU hmem hnumber]
  · intro h
    obtain ⟨hhash, ha⟩ := Dfa.hashable_and_contains_of_step?_eq_ok hstate h
    obtain ⟨U, -, hstep, hsucc⟩ := exists_step?_mem hstate hhash ha
    obtain rfl := Except.ok.inj (h.symm.trans hstep)
    rw [step?_numeral hnull hfree hstate hhash ha, Dfa.position_congr hsucc]

omit hnull hfree in
/-- The set of the number of a state accepts if the state does. -/
theorem isAccepting_numeral (hS : (c.dfa n).hasState S = true) :
    (c.renumbered n).isAccepting (numeral ((c.dfa n).position S)) = n.isAccepting S := by
  have haccepts (q : Value) : (c.renumbered n).accepts.contains q = true ↔
      ∃ S' ∈ (c.dfa n).acceptStates, (Value.int ((c.dfa n).position S') == q) = true := by
    rw [accepts_renumbered, OrderedSet.contains_ofList_iff]
    simp only [List.mem_map, exists_exists_and_eq_and]
  have hmem (S' : ValueSet) : S' ∈ (c.dfa n).acceptStates ↔
      S' ∈ (c.dfa n).states.toList ∧ n.isAccepting S' = true := by
    rw [acceptStates_dfa, states_dfa, List.mem_filter]
  rw [Bool.eq_iff_iff, Nfa.isAccepting_iff]
  simp only [haccepts, hmem, contains_numeral_iff]
  constructor
  · rintro ⟨q, ⟨S', ⟨hS', haccepting⟩, hq'⟩, hq⟩
    have hnumber := BEq.trans hq' (BEq.symm hq)
    rw [Value.int_beq_int_iff, Int.ofNat_inj,
      Dfa.position_eq_position_iff (Dfa.hasState_of_mem hS') hS] at hnumber
    rwa [← Nfa.isAccepting_congr hnumber]
  · intro haccepting
    obtain ⟨S', hS', hS'S⟩ := Dfa.exists_mem_of_hasState hS
    refine ⟨_, ⟨S', ⟨hS', ?_⟩, BEq.rfl⟩, ?_⟩
    · rwa [Nfa.isAccepting_congr hS'S]
    · rw [Dfa.position_congr hS'S]
      exact BEq.rfl

/-- The second run makes the automaton of the first one, with numbers as states. -/
theorem numbers_dfa_renumbered : (c.dfa n).Numbers (c.dfa (c.renumbered n)) where
  states := states_dfa_renumbered hnull hfree
  step _ _ _ _ hS hT _ := step?_renumbered_iff hnull hfree hS hT
  accepting i S hS := by
    have hstate := Dfa.hasState_of_mem (List.mem_of_getElem? hS)
    obtain rfl := Dfa.position_eq_of_getElem? hS BEq.rfl
    rw [(c.isSubsetAutomaton_dfa n).isAccepting?_eq hstate,
      (c.isSubsetAutomaton_dfa _).isAccepting?_eq (hasState_numeral hnull hfree hstate),
      isAccepting_numeral hstate]

end

/-- The sets of one number that the second run reports can be written, if there are not too many
states. -/
theorem reportable_renumbered_iff [DigitLimit] (hnull : Value.null ∉ c.alphabet.toList)
    (hfree : c.alphabet.contains n.marker = false) :
    reportable (c.dfa (c.renumbered n)) = true ↔
      DigitLimit.maxDigits = 0 ∨ (c.dfa n).size ≤ 10 ^ DigitLimit.maxDigits := by
  have hwritable (i : Nat) : (numeral i).writable = true ↔
      DigitLimit.maxDigits = 0 ∨ i < 10 ^ DigitLimit.maxDigits := by
    rw [ValueSet.writable_iff, toList_numeral, List.forall_mem_singleton, Value.writable,
      Option.isNone_iff_eq_none]
    exact excessDigits?_eq_none_iff
  have hpos : 0 < 10 ^ DigitLimit.maxDigits := Nat.pow_pos (by decide)
  simp only [reportable, states_dfa_renumbered hnull hfree, ← List.map_drop, List.all_map,
    List.all_eq_true, Function.comp_apply, hwritable]
  generalize (c.dfa n).size = size
  constructor
  · intro h
    by_cases hsmall : size ≤ 1
    · exact .inr (hsmall.trans hpos)
    · obtain ⟨k, rfl⟩ := Nat.exists_eq_add_of_le' (Nat.lt_of_not_le hsmall)
      have hlast : k + 1 ∈ (List.range (k + 2)).drop 1 := by
        rw [List.range_succ_eq_map]
        simp
      exact (h _ hlast).imp_right Nat.succ_le_of_lt
  · exact fun h i hi => h.imp_right (List.mem_range.mp (List.mem_of_mem_drop hi)).trans_le

end Construction

/-! ### Conversions -/

/-- The records of a converted automaton exist if its symbols can be sorted. With numbers for the states,
they describe an automaton that can be converted again, if the numbers can be written. That makes the
same automaton, with the sets of one number as states. -/
theorem Nfa.convert?_numbered [DigitLimit] (n : Nfa) (symbols : List Value) (d : Discipline)
    (hmarker : n.marker.Hashable) (hhash : ∀ a ∈ symbols, a.Hashable)
    (hfree : ∀ a ∈ symbols, (a == n.marker) = false) (hnull : Value.null ∉ symbols) :
    (n.Reportable (.ofList symbols) →
      ∃ c, n.convert? (some (.list symbols)) (.text d.name) = .ok c) ∧
    (¬ n.Reportable (.ofList symbols) →
      n.convert? (some (.list symbols)) (.text d.name) = .error .tooManyDigits) ∧
    ∀ c, n.convert? (some (.list symbols)) (.text d.name) = .ok c →
      (sortable (OrderedSet.ofList symbols).toList = true → ∃ records, c.dfa.records? = .ok records) ∧
      (sortable (OrderedSet.ofList symbols).toList = false →
        c.dfa.records? = .error .tooManyDigits) ∧
      ∀ records, c.dfa.records? = .ok records →
        ∃ n', (c.dfa.numbered records n.marker).nfa? = .ok n' ∧
          (DigitLimit.maxDigits = 0 ∨ c.dfa.size ≤ 10 ^ DigitLimit.maxDigits →
            ∃ c', n'.convert? (some (.list symbols)) (.text d.name) = .ok c' ∧
              c.dfa.Numbers c'.dfa) ∧
          (¬ (DigitLimit.maxDigits = 0 ∨ c.dfa.size ≤ 10 ^ DigitLimit.maxDigits) →
            n'.convert? (some (.list symbols)) (.text d.name) = .error .tooManyDigits) := by
  refine ⟨fun hreportable => ⟨_, convert?_list d hmarker hhash hfree hreportable⟩,
    convert?_eq_error_of_not_reportable d hmarker hhash hfree, fun r hr => ?_⟩
  let c : Construction := ⟨OrderedSet.ofList symbols, d⟩
  have hsymbols : ∀ a ∈ c.alphabet.toList, a ∈ symbols := fun a ha =>
    OrderedSet.mem_of_mem_toList_ofList ha
  have hnull' : Value.null ∉ c.alphabet.toList := fun h => hnull (hsymbols _ h)
  have hfree' : c.alphabet.contains n.marker = false := OrderedSet.contains_ofList_eq_false hfree
  have htable := c.isTable_dfa (n := n) fun a ha => hhash a (hsymbols a ha)
  obtain rfl := of_convert?_list_eq_ok hhash hfree hr
  have hrecords : (c.dfa n).records? =
      if sortable c.alphabet.toList then .ok (c.dfa n).records else .error .tooManyDigits :=
    (c.dfa n).records?_eq.trans (if_congr (Bool.coe_iff_coe.mpr htable.recordable_eq) rfl rfl)
  have hvalues : ∀ x ∈ ((c.dfa n).numbered (c.dfa n).records n.marker).values, x.Hashable := by
    refine Description.forall_mem_values.mpr ⟨hmarker, ?_, ?_, ?_⟩
    · exact List.forall_mem_singleton.mpr rfl
    · exact List.forall_mem_map.mpr fun _ _ => rfl
    · exact List.forall_mem_map.mpr fun r hr =>
        ⟨rfl, hhash _ (hsymbols _ (Construction.mem_records_dfa_iff.mp hr).2.1), rfl⟩
  refine ⟨fun hsortable => ⟨_, hrecords.trans (if_pos hsortable)⟩,
    fun hnot => hrecords.trans (if_neg (Bool.eq_false_iff.mp hnot)), fun records hrs => ?_⟩
  obtain rfl := Dfa.eq_records_of_records?_eq_ok hrs
  have hconvert : (c.renumbered n).convert? (some (.list symbols)) (.text d.name) =
      c.run? (c.renumbered n) :=
    convert?_list_eq d hhash (by rwa [c.marker_renumbered n])
  have hrun := c.run?_eq (n := c.renumbered n) (by rwa [c.marker_renumbered n])
  have hreportable := Construction.reportable_renumbered_iff (n := n) hnull' hfree'
  refine ⟨c.renumbered n, Description.nfa?_eq hvalues, fun hsize => ?_, fun hsize => ?_⟩
  · exact ⟨_, (hconvert.trans hrun).trans (if_pos (hreportable.mpr hsize)),
      Construction.numbers_dfa_renumbered hnull' hfree'⟩
  · exact (hconvert.trans hrun).trans (if_neg (mt hreportable.mp hsize))

/-- An automaton with an accepting state, a dead state and symbols that are not sorted. -/
theorem Nfa.convert?_looped_numbered :
    ∃ c records n' c',
      looped.convert? (some (.list [.text "b", .text "a"])) (.text "lifo") = .ok c ∧
      c.dfa.records? = .ok records ∧ (c.dfa.numbered records looped.marker).nfa? = .ok n' ∧
      n'.convert? (some (.list [.text "b", .text "a"])) (.text "lifo") = .ok c' ∧
      c.dfa.Numbers c'.dfa := by
  have hc : looped.convert? (some (.list [.text "b", .text "a"])) (.text "lifo") = .ok _ :=
    convert?_list .lifo (by decide) (by decide) (by decide) (by decide)
  obtain ⟨-, -, hnumbered⟩ := convert?_numbered looped [.text "b", .text "a"] .lifo (by decide)
    (by decide) (by decide) (by simp)
  obtain ⟨hrecords, -, hagain⟩ := hnumbered _ hc
  obtain ⟨records, hrs⟩ := hrecords (by decide)
  obtain ⟨n', hn', hsmall, -⟩ := hagain records hrs
  have hsize :
      Dfa.size (Construction.dfa ⟨.ofList [.text "b", .text "a"], .lifo⟩ looped) ≤ 10 := by decide
  obtain ⟨c', hc', hnumbers⟩ := hsmall (.inr (hsize.trans (Nat.le_self_pow (by decide) 10)))
  exact ⟨_, records, n', c', hc, hrs, hn', hc', hnumbers⟩

end Determinize
