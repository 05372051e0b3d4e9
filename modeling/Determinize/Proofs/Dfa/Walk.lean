import Determinize.Dfa.Basic
import Determinize.Proofs.Value.Hashable

/-!
# Walks of complete automata

An automaton is complete if every symbol of its alphabet leads from every state to a state. A walk
in a complete automaton only visits states. It takes one step for each symbol of its word, unless a
symbol is outside the alphabet: at the first such symbol it stops with an error.

## Main definitions

* `Dfa.Complete`.

## Main results

* `Dfa.step?_eq` — a step from a state.
* `Dfa.Complete.hasState_of_mem_path` — walks visit states.
* `Dfa.Complete.outcome_eq_ok`, `Dfa.Complete.outcome_eq_error` — how walks end.
-/

namespace Determinize.Dfa

/-- Every symbol of the alphabet leads from every state to a state. -/
def Complete (d : Dfa) : Prop :=
  ∀ S a, d.hasState S = true → a.Hashable → d.alphabet.contains a = true →
    ∃ T, d.step? S a = .ok T ∧ d.hasState T = true

variable {d : Dfa} {S T : ValueSet} {a : Value} {row : Row} {word : List Value}

theorem hasState_of_find?_eq_some (h : d.rows.find? S = some row) : d.hasState S = true := by
  rw [← Bool.not_eq_false, hasState, ← OrderedMap.find?_eq_none_iff, h]
  exact Option.some_ne_none row

theorem exists_row_of_hasState (h : d.hasState S = true) : ∃ row, d.rows.find? S = some row := by
  rw [← Option.isSome_iff_exists, Option.isSome_iff_ne_none]
  intro hnone
  rw [hasState, OrderedMap.find?_eq_none_iff.mp hnone] at h
  exact Bool.noConfusion h

/-! ### Steps -/

/-- A step from a state with a symbol that can be a member of a set. -/
theorem step?_eq (hrow : d.rows.find? S = some row) (ha : a.Hashable) :
    d.step? S a =
      if d.alphabet.contains a then
        match row.targets.find? a with
        | some T => .ok T
        | none => .error (.missing (.value a))
      else .error (.unknownSymbol a (some (.states S))) := by
  simp only [step?, hrow, Value.requireHashable_eq_ok ha, orShapeError]
  change (if d.alphabet.contains a = true then _ else _) = _
  split
  · cases row.targets.find? a <;> rfl
  · rfl

theorem step?_of_contains_eq_false (hS : d.hasState S = true) (ha : a.Hashable)
    (hforeign : d.alphabet.contains a = false) :
    d.step? S a = .error (.unknownSymbol a (some (.states S))) := by
  obtain ⟨row, hrow⟩ := exists_row_of_hasState hS
  rw [step?_eq hrow ha, hforeign, if_neg Bool.false_ne_true]

/-- A symbol that cannot be a member of a set is reported in the same way by all states. -/
theorem exists_fault_of_not_hashable (ha : ¬ a.Hashable) :
    ∃ fault, ∀ d : Dfa, ∀ S, d.hasState S = true → d.step? S a = .error (.shape fault) := by
  obtain ⟨part, hpart⟩ := Option.ne_none_iff_exists'.mp ha
  refine ⟨.unhashable part, fun d S hS => ?_⟩
  obtain ⟨row, hrow⟩ := exists_row_of_hasState hS
  simp [step?, hrow, Value.requireHashable, Value.hashFault?, hpart, orShapeError, bind,
    Except.bind, Except.mapError]

/-- A step that is possible reads a symbol of the alphabet. -/
theorem hashable_and_contains_of_step?_eq_ok (hS : d.hasState S = true) (h : d.step? S a = .ok T) :
    a.Hashable ∧ d.alphabet.contains a = true := by
  by_cases ha : a.Hashable
  · cases halphabet : d.alphabet.contains a with
    | true => exact ⟨ha, rfl⟩
    | false => simp [step?_of_contains_eq_false hS ha halphabet] at h
  · obtain ⟨fault, hfault⟩ := exists_fault_of_not_hashable ha
    simp [hfault d S hS] at h

/-! ### Walks -/

theorem walkFrom_cons_of_ok (h : d.step? S a = .ok T) :
    d.walkFrom S (a :: word) =
      ⟨S :: (d.walkFrom T word).path, (d.walkFrom T word).outcome⟩ := by
  rw [walkFrom, h]

theorem walkFrom_cons_of_error {e : AutomatonError} (h : d.step? S a = .error e) :
    d.walkFrom S (a :: word) = ⟨[S], .error e⟩ := by
  rw [walkFrom, h]

theorem Complete.hasState_of_step? (hd : d.Complete) (hS : d.hasState S = true)
    (h : d.step? S a = .ok T) : d.hasState T = true := by
  obtain ⟨ha, halphabet⟩ := hashable_and_contains_of_step?_eq_ok hS h
  obtain ⟨T', hT', hstate⟩ := hd S a hS ha halphabet
  rw [h] at hT'
  injection hT' with hT'
  rwa [hT']

/-- A walk from a state visits states only, whatever its word is. -/
theorem Complete.hasState_of_mem_path (hd : d.Complete) (hS : d.hasState S = true) :
    ∀ T ∈ (d.walkFrom S word).path, d.hasState T = true := by
  induction word generalizing S with
  | nil => simpa [walkFrom] using hS
  | cons a word ih =>
    cases h : d.step? S a with
    | error e => simpa [walkFrom_cons_of_error h] using hS
    | ok next =>
      rw [walkFrom_cons_of_ok h, List.forall_mem_cons]
      exact ⟨hS, ih (hd.hasState_of_step? hS h)⟩

/-- A walk along a word over the alphabet takes all its steps and ends in a state. -/
theorem Complete.outcome_eq_ok (hd : d.Complete) (hS : d.hasState S = true)
    (hword : ∀ a ∈ word, a.Hashable ∧ d.alphabet.contains a = true) :
    (d.walkFrom S word).path.length = word.length + 1 ∧
      ∃ accepted, (d.walkFrom S word).outcome = .ok accepted := by
  induction word generalizing S with
  | nil =>
    obtain ⟨row, hrow⟩ := exists_row_of_hasState hS
    exact ⟨rfl, row.accepting, by simp [walkFrom, isAccepting?, hrow]⟩
  | cons a word ih =>
    rw [List.forall_mem_cons] at hword
    obtain ⟨T, hT, hstate⟩ := hd S a hS hword.1.1 hword.1.2
    obtain ⟨hlength, hok⟩ := ih hstate hword.2
    rw [walkFrom_cons_of_ok hT]
    exact ⟨by simp only [List.length_cons, hlength], hok⟩

/-- A walk that takes all its steps reads symbols of the alphabet. -/
theorem Complete.contains_of_outcome_eq_ok (hd : d.Complete) (hS : d.hasState S = true)
    {accepted : Bool} (h : (d.walkFrom S word).outcome = .ok accepted) :
    ∀ a ∈ word, d.alphabet.contains a = true := by
  induction word generalizing S with
  | nil => exact fun _ ha => absurd ha List.not_mem_nil
  | cons a word ih =>
    cases hstep : d.step? S a with
    | error e => rw [walkFrom_cons_of_error hstep] at h; cases h
    | ok T =>
      rw [walkFrom_cons_of_ok hstep] at h
      exact List.forall_mem_cons.mpr ⟨(hashable_and_contains_of_step?_eq_ok hS hstep).2,
        ih (hd.hasState_of_step? hS hstep) h⟩

/-- A walk that fails has read the symbols of the alphabet before the first other symbol. -/
theorem Complete.outcome_eq_error (hd : d.Complete) (hS : d.hasState S = true)
    (hword : ∀ a ∈ word, a.Hashable) {e : AutomatonError}
    (he : (d.walkFrom S word).outcome = .error e) :
    ∃ before a after last, word = before ++ a :: after ∧
      (∀ b ∈ before, d.alphabet.contains b = true) ∧ d.alphabet.contains a = false ∧
      (d.walkFrom S word).path.length = before.length + 1 ∧
      (d.walkFrom S word).path.getLast? = some last ∧
      e = .unknownSymbol a (some (.states last)) := by
  induction word generalizing S with
  | nil =>
    obtain ⟨row, hrow⟩ := exists_row_of_hasState hS
    simp [walkFrom, isAccepting?, hrow] at he
  | cons a word ih =>
    rw [List.forall_mem_cons] at hword
    cases halphabet : d.alphabet.contains a with
    | false =>
      have hstep := step?_of_contains_eq_false hS hword.1 halphabet
      rw [walkFrom_cons_of_error hstep] at he ⊢
      injection he with he
      exact ⟨[], a, word, S, rfl, by simp, halphabet, rfl, rfl, he.symm⟩
    | true =>
      obtain ⟨T, hT, hstate⟩ := hd S a hS hword.1 halphabet
      rw [walkFrom_cons_of_ok hT] at he ⊢
      obtain ⟨before, b, after, last, rfl, hbefore, hb, hlength, hlast, rfl⟩ :=
        ih hstate hword.2 he
      refine ⟨a :: before, b, after, last, rfl, ?_, hb, ?_, ?_, rfl⟩
      · exact List.forall_mem_cons.mpr ⟨halphabet, hbefore⟩
      · simp only [List.length_cons, hlength]
      · rw [List.getLast?_cons, hlast, Option.getD_some]

end Determinize.Dfa
