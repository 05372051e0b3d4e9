import Determinize.Proofs.Collection.Member
import Determinize.Value.Set

/-!
# Hashable values and words

Equal values are hashable alike, and collections of hashable values can be made into sets. A word is
over an alphabet if each of its symbols equals a symbol of the alphabet.

## Main definitions

* `IsWordOver` — words over an alphabet.

## Main results

* `Value.hashable_congr` — equal values are both hashable or both not.
* `ValueSet.ofValue?_list`, `ValueSet.hashable_of_ofValue?_eq_ok` — sets of hashable values.
-/

namespace Determinize

/-- A computation that succeeds does so in its parts. -/
theorem exists_of_bind_eq_ok {ε α β : Type} {x : Except ε α} {f : α → Except ε β} {b : β}
    (h : x >>= f = .ok b) : ∃ a, x = .ok a ∧ f a = .ok b := by
  cases x with
  | error e => cases h
  | ok a => exact ⟨a, rfl, h⟩

theorem bind_eq_ok_iff {ε α β : Type} {x : Except ε α} {f : α → Except ε β} {b : β} :
    x >>= f = .ok b ↔ ∃ a, x = .ok a ∧ f a = .ok b := by
  constructor
  · exact exists_of_bind_eq_ok
  · rintro ⟨a, rfl, h⟩
    exact h

namespace Value

mutual

private theorem hashable_canonical : (x : Value) →
    ((unhashablePart? x.canonical = none) ↔ unhashablePart? x = none)
  | null | bool _ | int _ | text _ | list _ | object _ => by simp [canonical, unhashablePart?]
  | real x => by
    have : unhashablePart? (ofDouble x) = none := by
      unfold ofDouble
      split
      · split <;> rfl
      · rfl
    simp [canonical, unhashablePart?, this]
  | tuple items => by simpa [canonical, unhashablePart?] using hashable_canonicalItems items

private theorem hashable_canonicalItems : (xs : List Value) →
    ((unhashableItem? (canonicalItems xs) = none) ↔ unhashableItem? xs = none)
  | [] => by simp [canonicalItems]
  | x :: xs => by
    simp only [canonicalItems, unhashableItem?, Option.or_eq_none_iff, hashable_canonical x,
      hashable_canonicalItems xs]

end

/-- Equal values are both hashable or both not. -/
theorem hashable_congr {x y : Value} (h : (x == y) = true) : x.Hashable ↔ y.Hashable := by
  rw [Hashable, Hashable, ← hashable_canonical x, beq_iff_canonical.mp h, hashable_canonical y]

theorem hashFault?_eq_none_iff {x : Value} : x.hashFault? = none ↔ x.Hashable :=
  Option.map_eq_none_iff

theorem requireHashable_eq_ok {x : Value} (h : x.Hashable) : x.requireHashable = .ok () := by
  rw [requireHashable, hashFault?_eq_none_iff.mpr h]

theorem hashable_of_requireHashable_eq_ok {x : Value} (h : x.requireHashable = .ok ()) :
    x.Hashable := by
  rw [← hashFault?_eq_none_iff]
  cases hx : x.hashFault? with
  | none => rfl
  | some fault => simp [requireHashable, hx] at h

end Value

/-! ### Sets of values -/

namespace ValueSet

theorem forM_requireHashable_eq_ok_iff {xs : List Value} :
    xs.forM Value.requireHashable = .ok () ↔ ∀ x ∈ xs, x.Hashable := by
  induction xs with
  | nil => exact ⟨fun _ _ hx => absurd hx List.not_mem_nil, fun _ => rfl⟩
  | cons x xs ih =>
    rw [List.forall_mem_cons, ← ih]
    change (do x.requireHashable; xs.forM Value.requireHashable) = _ ↔ _
    constructor
    · intro h
      obtain ⟨⟨⟩, hx, hxs⟩ := exists_of_bind_eq_ok h
      exact ⟨Value.hashable_of_requireHashable_eq_ok hx, hxs⟩
    · rintro ⟨hx, hxs⟩
      rw [Value.requireHashable_eq_ok hx]
      exact hxs

/-- A list of hashable values is a set. -/
theorem ofValue?_list {xs : List Value} (h : ∀ x ∈ xs, x.Hashable) :
    ofValue? (.list xs) = .ok (OrderedSet.ofList xs) := by
  change (do xs.forM Value.requireHashable; return OrderedSet.ofList xs : Except _ _) = _
  rw [forM_requireHashable_eq_ok_iff.mpr h]
  rfl

/-- The members of a set are hashable. -/
theorem hashable_of_ofValue?_eq_ok {x : Value} {s : ValueSet} (h : ofValue? x = .ok s) :
    ∀ a ∈ s.toList, a.Hashable := by
  obtain ⟨xs, -, h⟩ := exists_of_bind_eq_ok h
  obtain ⟨⟨⟩, hall, h⟩ := exists_of_bind_eq_ok h
  injection h with h
  intro a ha
  rw [← h] at ha
  exact forM_requireHashable_eq_ok_iff.mp hall a (OrderedSet.mem_of_mem_toList_ofList ha)

/-- Adding a hashable member keeps a set hashable. -/
theorem hashable_insert {s : ValueSet} {a : Value} (hs : ∀ x ∈ s.toList, x.Hashable)
    (ha : a.Hashable) : ∀ x ∈ (s.insert a).toList, x.Hashable := by
  intro x hx
  rcases OrderedSet.mem_toList_insert hx with hx | rfl
  · exact hs x hx
  · exact ha

end ValueSet

/-! ### Words -/

/-- Every symbol of the word equals one of the given symbols. -/
def IsWordOver (symbols word : List Value) : Prop :=
  ∀ a ∈ word, ∃ b ∈ symbols, (b == a) = true

instance (symbols word : List Value) : Decidable (IsWordOver symbols word) :=
  inferInstanceAs (Decidable (∀ a ∈ word, ∃ b ∈ symbols, _))

theorem isWordOver_iff {symbols word : List Value} :
    IsWordOver symbols word ↔ ∀ a ∈ word, (OrderedSet.ofList symbols).contains a = true := by
  simp only [IsWordOver, OrderedSet.contains_ofList_iff]

namespace IsWordOver

variable {symbols word : List Value} {x : Value}

/-- A word over hashable symbols is a word of hashable symbols. -/
theorem hashable (h : IsWordOver symbols word) (hsymbols : ∀ a ∈ symbols, a.Hashable) :
    ∀ a ∈ word, a.Hashable := by
  intro a ha
  obtain ⟨b, hb, hba⟩ := h a ha
  exact (Value.hashable_congr hba).mp (hsymbols b hb)

/-- A value that equals no symbol of the alphabet equals no symbol of the word. -/
theorem beq_eq_false (h : IsWordOver symbols word) (hx : ∀ a ∈ symbols, (a == x) = false) :
    ∀ a ∈ word, (a == x) = false := by
  intro a ha
  obtain ⟨b, hb, hba⟩ := h a ha
  rw [← BEq.congr_left hba]
  exact hx b hb

end IsWordOver

end Determinize
