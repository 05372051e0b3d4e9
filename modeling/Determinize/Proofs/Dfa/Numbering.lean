import Determinize.Proofs.Dfa.Equality
import Determinize.Proofs.Nfa.Description

/-!
# The exchange form of deterministic automata

The records of a deterministic automaton are triples, and so are the transitions of a nondeterministic
one. If the states are numbered by their positions, the records describe an automaton between numbers,
which starts with the first state.

## Main definitions

* `numeral` — the set of one number.
* `Dfa.position`, `Dfa.numbered` — numbers for the states, and the records with the numbers.

## Main results

* `Dfa.mem_records_iff` — the records are the entries of the rows.
* `Dfa.exists_getElem?_position`, `Dfa.position_eq_of_getElem?` — positions.
-/

namespace Determinize

theorem Value.int_beq_int_iff {i j : Int} : (Value.int i == Value.int j) = true ↔ i = j := by
  rw [beq_iff_canonical, canonical, canonical, Value.int.injEq]

/-! ### Sets of one number -/

/-- The set of one number. -/
def numeral (i : Nat) : ValueSet := OrderedSet.ofList [.int i]

theorem toList_numeral (i : Nat) : (numeral i).toList = [.int i] := rfl

theorem contains_numeral_iff {i : Nat} {q : Value} :
    (numeral i).contains q = true ↔ (Value.int i == q) = true := by
  simp [OrderedSet.contains, toList_numeral]

theorem numeral_beq_iff {i j : Nat} : (numeral i == numeral j) = true ↔ i = j := by
  constructor
  · intro h
    have hj := contains_numeral_iff.mpr (BEq.rfl : (Value.int j == Value.int j) = true)
    rw [← OrderedSet.beq_iff.mp h, contains_numeral_iff, Value.int_beq_int_iff] at hj
    exact Int.ofNat_inj.mp hj
  · rintro rfl
    exact BEq.rfl

theorem numeral_inj {i j : Nat} (h : numeral i = numeral j) : i = j :=
  numeral_beq_iff.mp (h ▸ BEq.rfl)

/-- A set that contains a number, and nothing that is spelled otherwise, is the set of the number. -/
theorem eq_numeral {S : ValueSet} {i : Nat} (hS : S.contains (.int i) = true)
    (hspelled : ∀ x ∈ S.toList, x = .int i) : S = numeral i := by
  obtain ⟨members, hdistinct⟩ := S
  match members with
  | [] => cases hS
  | [x] =>
    obtain rfl := hspelled x List.mem_cons_self
    rfl
  | x :: y :: rest =>
    obtain rfl := hspelled x List.mem_cons_self
    obtain rfl := hspelled y (List.mem_cons_of_mem _ List.mem_cons_self)
    rw [List.pairwise_cons] at hdistinct
    have hself := hdistinct.1 _ List.mem_cons_self
    rw [BEq.rfl] at hself
    cases hself

namespace Dfa

/-- The position of a set among the states. -/
def position (d : Dfa) (S : ValueSet) : Nat := d.states.toList.findIdx (· == S)

/-- The description of an automaton whose transitions are the given records of `d`, with positions as
states. -/
def numbered (d : Dfa) (records : List (ValueSet × Value × ValueSet)) (marker : Value) :
    Nfa.Description where
  transitions := records.map fun (S, a, T) => (.int (d.position S), a, .int (d.position T))
  starts := [.int 0]
  accepts := d.acceptStates.map fun S => .int (d.position S)
  marker

variable {d : Dfa} {S T : ValueSet} {a : Value} {i : Nat}

/-! ### Positions -/

theorem position_congr (h : (S == T) = true) : d.position S = d.position T := by
  have hsame : (fun U : ValueSet => U == S) = fun U => U == T := by
    funext U
    exact BEq.congr_right h
  rw [position, hsame, position]

/-- The state at the position of a set is the set. -/
theorem exists_getElem?_position (hS : d.hasState S = true) :
    ∃ T, d.states.toList[d.position S]? = some T ∧ (T == S) = true := by
  obtain ⟨T, hT, hTS⟩ := exists_mem_of_hasState hS
  have hlt : d.position S < d.states.toList.length := List.findIdx_lt_length_of_exists ⟨T, hT, hTS⟩
  exact ⟨_, List.getElem?_eq_getElem hlt,
    List.findIdx_getElem (p := fun U : ValueSet => U == S) (w := hlt)⟩

/-- A state is at one position only. -/
theorem position_eq_of_getElem? (h : d.states.toList[i]? = some T) (hTS : (T == S) = true) :
    d.position S = i := by
  have hT : T ∈ d.states.toList := List.mem_of_getElem? h
  have hS : d.hasState S = true := by
    rw [← contains_states]
    exact OrderedSet.contains_iff.mpr ⟨T, hT, hTS⟩
  obtain ⟨U, hU, hUS⟩ := exists_getElem?_position hS
  obtain rfl := OrderedSet.eq_of_beq_of_mem (List.mem_of_getElem? hU) hT
    (BEq.trans hUS (BEq.symm hTS))
  have hlt : d.position S < d.states.toList.length := (List.getElem?_eq_some_iff.mp hU).1
  exact (List.getElem?_inj hlt d.states.nodup_toList).mp (hU.trans h.symm)

theorem position_eq_position_iff (hS : d.hasState S = true) (hT : d.hasState T = true) :
    d.position S = d.position T ↔ (S == T) = true := by
  constructor
  · intro h
    obtain ⟨U, hU, hUS⟩ := exists_getElem?_position hS
    obtain ⟨V, hV, hVT⟩ := exists_getElem?_position hT
    rw [h, hV] at hU
    obtain rfl := Option.some.inj hU
    exact BEq.trans (BEq.symm hUS) hVT
  · exact position_congr

theorem map_position (d : Dfa) : d.states.toList.map d.position = List.range d.size := by
  refine List.ext_getElem? fun i => ?_
  rw [List.getElem?_map, size_eq_size_states]
  cases h : d.states.toList[i]? with
  | none =>
    have hle : d.states.size ≤ i := List.getElem?_eq_none_iff.mp h
    rw [Option.map_none, List.getElem?_eq_none (List.length_range.symm ▸ hle)]
  | some T =>
    have hlt : i < d.states.size := (List.getElem?_eq_some_iff.mp h).1
    rw [Option.map_some, position_eq_of_getElem? h BEq.rfl, List.getElem?_range hlt]

/-! ### Records -/

/-- The records are the entries of the rows. -/
theorem mem_records_iff {r : ValueSet × Value × ValueSet} :
    r ∈ d.records ↔ ∃ row, (r.1, row) ∈ d.rows.entries ∧ r.2.1 ∈ row.targets.keys.toList ∧
      row.targets.find? r.2.1 = some r.2.2 := by
  obtain ⟨S, a, T⟩ := r
  simp only [records, Row.records, List.mem_flatMap, List.mem_filterMap, Option.map_eq_some_iff, Prod.mk.injEq,
    Prod.exists, (perm_sortSymbols _).mem_iff]
  constructor
  · rintro ⟨_, row, hrow, b, hb, U, hU, rfl, rfl, rfl⟩
    exact ⟨row, hrow, hb, hU⟩
  · rintro ⟨row, hrow, ha, hT⟩
    exact ⟨S, row, hrow, a, ha, T, hT, rfl, rfl, rfl⟩

end Dfa

end Determinize
