import Determinize.Dfa.Basic
import Determinize.Proofs.Collection.Member
import Determinize.Proofs.Dfa.Walk
import Mathlib.Data.List.Forall2

/-!
# Equal automata answer alike

Two automata are equal, `d == e`, if their starts and alphabets are equal and their rows agree.
Equal automata have the same states and the same accepting states, and asked about equal states
they give the same answers: equal targets, the same acceptance, or the same error about equal
states. So the walks along a word visit equal states and end alike.

## Main definitions

* `SameError`, `SameResult` — equality of errors and of results.
* `Dfa.Walk.Same` — equality of walks.
* `Dfa.SameAnswers` — automata that answer alike.

## Main results

* `Dfa.beq_iff` — equality by what the rows answer.
* `Dfa.sameAnswers_of_beq` — equal automata answer alike.
-/

namespace Determinize

/-- Two errors are the same up to equality of the states that they name. -/
inductive SameError : AutomatonError → AutomatonError → Prop
  | refl (e : AutomatonError) : SameError e e
  | unknownState {S T : ValueSet} (h : (S == T) = true) :
      SameError (.unknownState (.states S)) (.unknownState (.states T))
  | unknownSymbol (a : Value) {S T : ValueSet} (h : (S == T) = true) :
      SameError (.unknownSymbol a (some (.states S))) (.unknownSymbol a (some (.states T)))

/-- Two results are related values or the same error. -/
inductive SameResult {α : Type} (R : α → α → Prop) :
    Except AutomatonError α → Except AutomatonError α → Prop
  | ok {x y : α} (h : R x y) : SameResult R (.ok x) (.ok y)
  | error {e f : AutomatonError} (h : SameError e f) : SameResult R (.error e) (.error f)

namespace Dfa

/-- Two walks visit equal states and end alike. -/
def Walk.Same (w w' : Walk) : Prop :=
  List.Forall₂ (fun S T => (S == T) = true) w.path w'.path ∧
    SameResult (· = ·) w.outcome w'.outcome

/-- Two automata have the same states and answer alike about them. -/
structure SameAnswers (d e : Dfa) : Prop where
  size : d.size = e.size
  states : (d.states == e.states) = true
  acceptStates : ∀ S, d.acceptStates.any (· == S) = e.acceptStates.any (· == S)
  step : ∀ S T, (S == T) = true → ∀ a,
    SameResult (fun X Y => (X == Y) = true) (d.step? S a) (e.step? T a)
  isAccepting : ∀ S T, (S == T) = true → SameResult (· = ·) (d.isAccepting? S) (e.isAccepting? T)
  walkFrom : ∀ S T, (S == T) = true → ∀ word, (d.walkFrom S word).Same (e.walkFrom T word)
  walk : ∀ word, (d.walk word).Same (e.walk word)

variable {d e : Dfa} {S T : ValueSet}

/-! ### Equality by rows -/

theorem Row.agrees_iff {r s : Row} :
    r.agrees s = true ↔ r.accepting = s.accepting ∧
      ∀ a, Option.Rel (fun T T' => (T == T') = true) (r.targets.find? a) (s.targets.find? a) := by
  rw [Row.agrees, Bool.and_eq_true, beq_iff_eq, OrderedMap.agreesWith_iff]

theorem beq_iff :
    (d == e) = true ↔ (d.start == e.start) = true ∧ (d.alphabet == e.alphabet) = true ∧
      ∀ S, Option.Rel (fun r s : Row => r.agrees s = true) (d.rows.find? S) (e.rows.find? S) := by
  change (d.start == e.start && d.alphabet == e.alphabet && d.rows.agreesWith e.rows Row.agrees)
    = true ↔ _
  rw [Bool.and_eq_true, Bool.and_eq_true, OrderedMap.agreesWith_iff, and_assoc]

private theorem cases_of_rel {α : Type} {R : α → α → Prop} {x y : Option α}
    (h : Option.Rel R x y) : (x = none ∧ y = none) ∨ ∃ a b, x = some a ∧ y = some b ∧ R a b := by
  cases h with
  | none => exact Or.inl ⟨rfl, rfl⟩
  | some h => exact Or.inr ⟨_, _, rfl, rfl, h⟩

/-- Equal automata have agreeing rows for equal states. -/
theorem rows_of_beq (h : (d == e) = true) (hST : (S == T) = true) :
    (d.rows.find? S = none ∧ e.rows.find? T = none) ∨
      ∃ r s, d.rows.find? S = some r ∧ e.rows.find? T = some s ∧ r.agrees s = true := by
  rw [← e.rows.find?_congr hST]
  exact cases_of_rel ((beq_iff.mp h).2.2 S)

/-! ### States -/

theorem hasState_eq_of_beq (h : (d == e) = true) (hST : (S == T) = true) :
    d.hasState S = e.hasState T := by
  obtain ⟨hd, he⟩ | ⟨r, s, hd, he, -⟩ := rows_of_beq h hST
  · rw [hasState, hasState, OrderedMap.find?_eq_none_iff.mp hd, OrderedMap.find?_eq_none_iff.mp he]
  · rw [hasState_of_find?_eq_some hd, hasState_of_find?_eq_some he]

theorem contains_states (d : Dfa) (S : ValueSet) : d.states.contains S = d.hasState S :=
  OrderedMap.contains_keys ..

theorem hasState_congr (h : (S == T) = true) : d.hasState S = d.hasState T := by
  rw [← contains_states, ← contains_states, OrderedSet.contains_congr _ h]

theorem hasState_of_mem (h : S ∈ d.states.toList) : d.hasState S = true := by
  rw [← contains_states]
  exact OrderedSet.contains_of_mem h

theorem exists_mem_of_hasState (h : d.hasState S = true) : ∃ T ∈ d.states.toList, (T == S) = true := by
  rw [← contains_states] at h
  exact OrderedSet.contains_iff.mp h

/-- Equal automata have the same states. -/
theorem beq_states (h : (d == e) = true) : (d.states == e.states) = true := by
  rw [OrderedSet.beq_iff]
  intro S
  rw [contains_states, contains_states, hasState_eq_of_beq h BEq.rfl]

theorem size_eq_size_states (d : Dfa) : d.size = d.states.size :=
  (List.length_map _).symm

/-- Equal automata have the same number of states. -/
theorem size_eq (h : (d == e) = true) : d.size = e.size := by
  rw [size_eq_size_states, size_eq_size_states, OrderedSet.size_eq_of_beq (beq_states h)]

theorem any_acceptStates_iff :
    (d.acceptStates.any (· == S)) = true ↔
      ∃ row, d.rows.find? S = some row ∧ row.accepting = true := by
  simp only [acceptStates, List.any_map, List.any_filter, List.any_eq_true, Bool.and_eq_true,
    Function.comp_apply]
  constructor
  · rintro ⟨⟨S', row⟩, hmem, hrow, hS⟩
    exact ⟨row, OrderedMap.find?_eq_some_of_mem hmem hS, hrow⟩
  · rintro ⟨row, hfind, hrow⟩
    obtain ⟨S', hmem, hS⟩ := OrderedMap.find?_eq_some_iff.mp hfind
    exact ⟨(S', row), hmem, hrow, hS⟩

/-- Equal automata have the same accepting states. -/
theorem any_acceptStates_eq (h : (d == e) = true) (S : ValueSet) :
    d.acceptStates.any (· == S) = e.acceptStates.any (· == S) := by
  rw [Bool.eq_iff_iff, any_acceptStates_iff, any_acceptStates_iff]
  obtain ⟨hd, he⟩ | ⟨r, s, hd, he, hrow⟩ := rows_of_beq h (BEq.rfl : (S == S) = true)
  · simp only [hd, he]
  · simp only [hd, he, Option.some.injEq, exists_eq_left', (Row.agrees_iff.mp hrow).1]

/-! ### Answers -/

theorem sameResult_step? (h : (d == e) = true) (hST : (S == T) = true) (a : Value) :
    SameResult (fun X Y => (X == Y) = true) (d.step? S a) (e.step? T a) := by
  obtain ⟨hd, he⟩ | ⟨r, s, hd, he, hrow⟩ := rows_of_beq h hST
  · simpa only [step?, hd, he] using .error (.unknownState hST)
  · by_cases ha : a.Hashable
    · rw [step?_eq hd ha, step?_eq he ha, OrderedSet.beq_iff.mp (beq_iff.mp h).2.1 a]
      split
      · obtain ⟨hr, hs⟩ | ⟨X, Y, hr, hs, hXY⟩ := cases_of_rel ((Row.agrees_iff.mp hrow).2 a)
        · rw [hr, hs]
          exact .error (.refl _)
        · rw [hr, hs]
          exact .ok hXY
      · exact .error (.unknownSymbol a hST)
    · obtain ⟨fault, hfault⟩ := exists_fault_of_not_hashable ha
      rw [hfault d S (hasState_of_find?_eq_some hd), hfault e T (hasState_of_find?_eq_some he)]
      exact .error (.refl _)

theorem sameResult_isAccepting? (h : (d == e) = true) (hST : (S == T) = true) :
    SameResult (· = ·) (d.isAccepting? S) (e.isAccepting? T) := by
  obtain ⟨hd, he⟩ | ⟨r, s, hd, he, hrow⟩ := rows_of_beq h hST
  · simpa only [isAccepting?, hd, he] using .error (.unknownState hST)
  · simpa only [isAccepting?, hd, he] using .ok (Row.agrees_iff.mp hrow).1

theorem same_walkFrom (h : (d == e) = true) (hST : (S == T) = true) (word : List Value) :
    (d.walkFrom S word).Same (e.walkFrom T word) := by
  induction word generalizing S T with
  | nil => exact ⟨.cons hST .nil, sameResult_isAccepting? h hST⟩
  | cons a word ih =>
    have hstep := sameResult_step? h hST a
    cases hd : d.step? S a <;> cases he : e.step? T a <;> rw [hd, he] at hstep
    · cases hstep with
      | error herror =>
        rw [walkFrom_cons_of_error hd, walkFrom_cons_of_error he]
        exact ⟨.cons hST .nil, .error herror⟩
    · cases hstep
    · cases hstep
    · cases hstep with
      | ok hnext =>
        rw [walkFrom_cons_of_ok hd, walkFrom_cons_of_ok he]
        exact ⟨.cons hST (ih hnext).1, (ih hnext).2⟩

/-- Equal automata answer alike. -/
theorem sameAnswers_of_beq (h : (d == e) = true) : d.SameAnswers e where
  size := size_eq h
  states := beq_states h
  acceptStates := any_acceptStates_eq h
  step _ _ hST := sameResult_step? h hST
  isAccepting _ _ hST := sameResult_isAccepting? h hST
  walkFrom _ _ hST := same_walkFrom h hST
  walk := same_walkFrom h (beq_iff.mp h).1

end Dfa

end Determinize
