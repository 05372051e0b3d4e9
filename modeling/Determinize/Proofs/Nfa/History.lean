import Determinize.Proofs.Collection.Member
import Determinize.Proofs.Nfa.Stored
import Determinize.Proofs.Value.Hashable

/-!
# Histories of nondeterministic automata

An automaton is made without transitions and then changed: transitions, start states and accept
states are added, start and accept states are removed, and the marker is set. A change can fail, and
a transition that could not be added may leave places in the store.

Whatever the history, only values that can be members of sets are stored as states and labels: the
changes look before they store.

## Main definitions

* `Nfa.Change`, `Nfa.change` — changes, and what they make of an automaton.
* `Nfa.Built` — automata with a history.
* `Nfa.Sound` — automata that store members of sets only.

## Main results

* `Nfa.add_cases` — what adding a transition does.
* `Nfa.Sound.change` — changes keep an automaton sound.
* `Nfa.Built.sound` — so it holds after every history.
* `Nfa.built_ofTriples?` — automata given by triples have a history.
-/

namespace Determinize.Nfa

/-- A change of an automaton. -/
inductive Change
  | add (source symbol target : Value)
  | addMarked (source target : Value)
  | addStart (state : Value)
  | addAccept (state : Value)
  | removeStart (state : Value)
  | removeAccept (state : Value)
  | setMarker (marker : Value)

/-- The result of an attempt, or the automaton as it was if the attempt failed. -/
def orKeep (n : Nfa) : Except ShapeError Nfa → Option ShapeError × Nfa
  | .ok n' => (none, n')
  | .error fault => (some fault, n)

/-- Changes an automaton: the fault, if there is one, and the automaton afterwards. -/
def change (n : Nfa) : Change → Option ShapeError × Nfa
  | .add source symbol target => n.add source symbol target
  | .addMarked source target => n.addMarked source target
  | .addStart state => n.orKeep (n.addStart? state)
  | .addAccept state => n.orKeep (n.addAccept? state)
  | .removeStart state => n.orKeep (n.removeStart? state)
  | .removeAccept state => n.orKeep (n.removeAccept? state)
  | .setMarker marker => (none, n.setMarker marker)

/-- The automata that are made without transitions and then changed. -/
inductive Built : Nfa → Prop
  | new {starts accepts marker : Value} {n : Nfa} (h : new? starts accepts marker = .ok n) : Built n
  | change {n : Nfa} (h : Built n) (c : Change) : Built (n.change c).2

/-- The labels and targets of a row can be members of sets. -/
def SoundRow (row : OrderedMap Value ValueSet) : Prop :=
  ∀ e ∈ row.entries, e.1.Hashable ∧ ∀ q ∈ e.2.toList, q.Hashable

/-- All stored states and labels can be members of sets. -/
structure Sound (n : Nfa) : Prop where
  starts : ∀ p ∈ n.starts.toList, p.Hashable
  accepts : ∀ p ∈ n.accepts.toList, p.Hashable
  edges : ∀ e ∈ n.edges.entries, e.1.Hashable ∧ SoundRow e.2

variable {n n' : Nfa} {p a q : Value}

/-! ### One change -/

/-- Adding a transition succeeds between values that can be members of sets. Otherwise it fails, after
it has made room as far as it has looked. -/
theorem add_cases (n : Nfa) (p a q : Value) :
    (p.Hashable ∧ a.Hashable ∧ q.Hashable ∧ n.add p a q = (none, n.link p a q)) ∨
      ∃ fault, ¬ (p.Hashable ∧ a.Hashable ∧ q.Hashable) ∧
        (¬ p.Hashable ∧ n.add p a q = (some fault, n) ∨
          p.Hashable ∧ ¬ a.Hashable ∧ n.add p a q = (some fault, n.reserveSource p) ∨
          p.Hashable ∧ a.Hashable ∧ n.add p a q = (some fault, n.reserveTargets p a)) := by
  have hfault {x : Value} {fault : ShapeError} (h : x.hashFault? = some fault) : ¬ x.Hashable := by
    rw [← Value.hashFault?_eq_none_iff, h]
    exact Option.some_ne_none fault
  rw [add]
  cases hp : p.hashFault? with
  | some fault => exact .inr ⟨fault, fun h => hfault hp h.1, .inl ⟨hfault hp, rfl⟩⟩
  | none =>
    rw [Value.hashFault?_eq_none_iff] at hp
    cases ha : a.hashFault? with
    | some fault =>
      exact .inr ⟨fault, fun h => hfault ha h.2.1, .inr (.inl ⟨hp, hfault ha, rfl⟩)⟩
    | none =>
      rw [Value.hashFault?_eq_none_iff] at ha
      cases hq : q.hashFault? with
      | some fault => exact .inr ⟨fault, fun h => hfault hq h.2.2, .inr (.inr ⟨hp, ha, rfl⟩)⟩
      | none => exact .inl ⟨hp, ha, Value.hashFault?_eq_none_iff.mp hq, rfl⟩

/-- An addition that does not fail adds the transition. -/
theorem link_of_add (h : (n.add p a q).1 = none) : (n.add p a q).2 = n.link p a q := by
  rcases n.add_cases p a q with ⟨-, -, -, hadd⟩ | ⟨_, -, ⟨-, hadd⟩ | ⟨-, -, hadd⟩ | ⟨-, -, hadd⟩⟩
  · rw [hadd]
  all_goals
    rw [hadd] at h
    cases h

theorem eq_link_of_add? (h : n.add? p a q = .ok n') : n' = n.link p a q := by
  rw [add?] at h
  split at h
  · cases h
  · rename_i m heq
    injection h with h
    rw [← h, ← link_of_add (congrArg Prod.fst heq), heq]

theorem sound_of_new? {starts accepts marker : Value} (h : new? starts accepts marker = .ok n) :
    n.Sound := by
  obtain ⟨S, hS, h⟩ := exists_of_bind_eq_ok h
  obtain ⟨T, hT, h⟩ := exists_of_bind_eq_ok h
  injection h with h
  rw [← h]
  exact ⟨ValueSet.hashable_of_ofValue?_eq_ok hS, ValueSet.hashable_of_ofValue?_eq_ok hT,
    fun _ he => absurd he List.not_mem_nil⟩

theorem Sound.stores (h : n.Sound) : n.Stores Value.Hashable := h.edges

theorem Sound.reserveSource (h : n.Sound) (hp : p.Hashable) : (n.reserveSource p).Sound :=
  ⟨h.starts, h.accepts, h.stores.alter_edges hp (f := id) fun _ hrow => hrow⟩

theorem Sound.updateTargets (h : n.Sound) (hp : p.Hashable) (ha : a.Hashable)
    {f : ValueSet → ValueSet}
    (hf : ∀ T : ValueSet, (∀ q ∈ T.toList, q.Hashable) → ∀ q ∈ (f T).toList, q.Hashable) :
    (n.updateTargets p a f).Sound :=
  ⟨h.starts, h.accepts, h.stores.updateTargets hp ha hf⟩

/-- Adding a transition stores members of sets only, also if it fails on its way. -/
theorem Sound.add (h : n.Sound) (p a q : Value) : (n.add p a q).2.Sound := by
  rw [Nfa.add]
  cases hp : p.hashFault? with
  | some fault => exact h
  | none =>
    rw [Value.hashFault?_eq_none_iff] at hp
    cases ha : a.hashFault? with
    | some fault => exact h.reserveSource hp
    | none =>
      rw [Value.hashFault?_eq_none_iff] at ha
      cases hq : q.hashFault? with
      | some fault => exact h.updateTargets hp ha fun _ hT => hT
      | none =>
        rw [Value.hashFault?_eq_none_iff] at hq
        exact h.updateTargets hp ha fun _ hT => ValueSet.hashable_insert hT hq

theorem Sound.orKeep (h : n.Sound) (hn : p.Hashable → n'.Sound) :
    (n.orKeep (p.requireHashable >>= fun _ => pure n')).2.Sound := by
  cases hp : p.requireHashable with
  | error fault => exact h
  | ok => exact hn (Value.hashable_of_requireHashable_eq_ok hp)

/-- Changes store members of sets only. -/
theorem Sound.change (h : n.Sound) (c : Change) : (n.change c).2.Sound := by
  cases c with
  | add source symbol target => exact h.add source symbol target
  | addMarked source target => exact h.add source n.marker target
  | addStart state =>
    exact h.orKeep fun hs => ⟨ValueSet.hashable_insert h.starts hs, h.accepts, h.edges⟩
  | addAccept state =>
    exact h.orKeep fun hs => ⟨h.starts, ValueSet.hashable_insert h.accepts hs, h.edges⟩
  | removeStart state =>
    exact h.orKeep fun _ =>
      ⟨fun p hp => h.starts p (List.mem_of_mem_filter hp), h.accepts, h.edges⟩
  | removeAccept state =>
    exact h.orKeep fun _ =>
      ⟨h.starts, fun p hp => h.accepts p (List.mem_of_mem_filter hp), h.edges⟩
  | setMarker marker => exact ⟨h.starts, h.accepts, h.edges⟩

/-! ### Histories -/

/-- Whatever the history, members of sets only are stored. -/
theorem Built.sound (h : n.Built) : n.Sound := by
  induction h with
  | new h => exact sound_of_new? h
  | change _ c ih => exact ih.change c

theorem Built.of_add? (h : n.Built) (hadd : n.add? p a q = .ok n') : n'.Built := by
  have hchange := h.change (.add p a q)
  rw [Nfa.change] at hchange
  rw [add?] at hadd
  split at hadd
  · cases hadd
  · rename_i heq
    cases hadd
    rwa [heq] at hchange

theorem Built.of_foldlM_addTriple? (h : n.Built) {triples : List Value}
    (hadd : triples.foldlM addTriple? n = .ok n') : n'.Built := by
  induction triples generalizing n with
  | nil =>
    injection hadd with hadd
    rwa [← hadd]
  | cons triple triples ih =>
    rw [List.foldlM_cons] at hadd
    obtain ⟨n₁, hfirst, hrest⟩ := exists_of_bind_eq_ok hadd
    obtain ⟨_, -, hfirst⟩ := exists_of_bind_eq_ok hfirst
    exact ih (h.of_add? hfirst) hrest

/-- Automata that are given by triples have a history. -/
theorem built_ofTriples? {transitions starts accepts marker : Value}
    (h : ofTriples? transitions starts accepts marker = .ok n) : n.Built := by
  obtain ⟨n₀, hnew, h⟩ := exists_of_bind_eq_ok h
  obtain ⟨triples, -, h⟩ := exists_of_bind_eq_ok h
  exact (Built.new hnew).of_foldlM_addTriple? h

/-- An automaton with a transition that was added under an earlier marker, and with a place that is
left of a transition that could not be added. -/
def remarked : Nfa :=
  (((((⟨.ofList [.int 0], .ofList [.int 2], .text "e", .empty⟩ : Nfa).change
    (.addMarked (.int 0) (.int 1))).2.change (.add (.int 1) (.text "b") (.list []))).2.change
    (.add (.int 1) (.text "a") (.int 2))).2.change (.setMarker (.text "ε"))).2

theorem built_remarked : remarked.Built := by
  have hnew : new? (.list [.int 0]) (.list [.int 2]) (.text "e") =
      .ok ⟨.ofList [.int 0], .ofList [.int 2], .text "e", .empty⟩ := rfl
  exact ((((Built.new hnew).change _).change _).change _).change _

/-- The label of the transition under the earlier marker is read. -/
theorem remarked_accepts_ea : remarked.Accepts [.text "e", .text "a"] :=
  ⟨.int 2, by decide, .int 0, [.text "e", .text "a"], by decide,
    .step (r := .int 1) (by decide) (.of_edge (by decide)), by decide⟩

/-! ### Labels -/

theorem Sound.hashable_of_labels (h : n.Sound) (ha : n.Labels a) : a.Hashable := by
  obtain ⟨t, ht, hta⟩ := ha
  exact (Value.hashable_congr hta).mp (h.stores.of_mem_transitions ht).2.1

end Determinize.Nfa
