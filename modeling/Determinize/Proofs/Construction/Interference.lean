import Determinize.Proofs.Construction.Reached

/-!
# Transitions that do not interfere

A conversion looks at the transitions that leave a member of a state it makes and that are labelled
with the marker or with a symbol of its alphabet. Other transitions do not interfere with it: when
they are added or removed, the same automaton is made, spelled in the same way, and the same events
are reported.

Which states are made is decided by the run itself. So a run and the run on the changed automaton are
kept in lockstep: as long as they have met the same sets, they look at the same transitions.

## Main definitions

* `Dfa.LooksAt` — the transitions that a conversion looks at.
* `Nfa.AgreesOn` — automata that have the same transitions as far as they are looked at.
* `Nfa.Edit`, `Nfa.edit`, `Nfa.editAll` — adding and removing transitions.

## Main results

* `Nfa.AgreesOn.dfa_eq`, `Nfa.AgreesOn.convert?_eq` — runs and conversions of automata that agree on
  what is looked at.
* `Nfa.AgreesOn.editAll` — other transitions can be added and removed.
* `Nfa.convert?_editAll`.
-/

namespace Determinize

/-- A conversion that makes the automaton `d` looks at the transitions from `p` with the label `a`:
`p` is a member of a state, and `a` is the marker or a symbol. -/
def Dfa.LooksAt (d : Dfa) (marker : Value) (symbols : List Value) (p a : Value) : Prop :=
  (∃ S ∈ d.states.toList, S.contains p = true) ∧
    ((marker == a) = true ∨ ∃ b ∈ symbols, (b == a) = true)

instance (d : Dfa) (marker : Value) (symbols : List Value) (p a : Value) :
    Decidable (d.LooksAt marker symbols p a) :=
  inferInstanceAs (Decidable (_ ∧ (_ ∨ ∃ b ∈ symbols, _)))

namespace Dfa.LooksAt

variable {d : Dfa} {marker : Value} {symbols : List Value} {p a p' a' : Value} {S : ValueSet}

theorem congr (h : d.LooksAt marker symbols p a) (hp : (p == p') = true) (ha : (a == a') = true) :
    d.LooksAt marker symbols p' a' := by
  obtain ⟨⟨S, hS, hSp⟩, hlabel⟩ := h
  refine ⟨⟨S, hS, by rwa [← S.contains_congr hp]⟩, hlabel.imp (BEq.trans · ha) ?_⟩
  rintro ⟨b, hb, hba⟩
  exact ⟨b, hb, BEq.trans hba ha⟩

/-- States can be spelled otherwise. -/
theorem exists_state (hS : d.hasState S = true) (hp : S.contains p = true) :
    ∃ T ∈ d.states.toList, T.contains p = true := by
  obtain ⟨T, hT, hTS⟩ := exists_mem_of_hasState hS
  exact ⟨T, hT, by rwa [OrderedSet.beq_iff.mp hTS p]⟩

theorem of_marker (hS : d.hasState S = true) (hp : S.contains p = true) :
    d.LooksAt marker symbols p marker :=
  ⟨exists_state hS hp, .inl BEq.rfl⟩

theorem of_symbol (hS : d.hasState S = true) (hp : S.contains p = true) (ha : a ∈ symbols) :
    d.LooksAt marker symbols p a :=
  ⟨exists_state hS hp, .inr ⟨a, ha, BEq.rfl⟩⟩

end Dfa.LooksAt

namespace Nfa

/-- Two automata are the same, apart from transitions from states and with labels that are not
looked at. -/
structure AgreesOn (looksAt : Value → Value → Prop) (n n' : Nfa) : Prop where
  marker : n.marker = n'.marker
  starts : n.starts = n'.starts
  accepts : n.accepts = n'.accepts
  targets : ∀ p a, looksAt p a → n.targets p a = n'.targets p a

variable {n n' : Nfa} {p a q p' a' : Value} {S : ValueSet}

/-! ### Closures and runs -/

/-- A closure is the same if the same marked transitions leave its members. -/
theorem closure_eq_of_targets (hmarker : n.marker = n'.marker)
    (hsame : ∀ p, (n.closure S).contains p = true →
      n.targets p n.marker = n'.targets p n.marker) :
    n.closure S = n'.closure S := by
  -- Both searches stay inside the closure, and there the targets are the same.
  let R (p q : Value) : Prop := p = q ∧ (n.closure S).contains p = true
  have hR : RespectsBEq R := by
    rintro p _ p' _ ⟨rfl, -⟩ ⟨rfl, -⟩
    rfl
  have hroots : List.Forall₂ R S.toList S.toList :=
    List.forall₂_same.mpr fun p hp =>
      ⟨rfl, contains_closure_iff.mpr ⟨p, OrderedSet.contains_of_mem hp, .refl BEq.rfl⟩⟩
  have hnext (p q : Value) (h : R p q) :
      List.Forall₂ R (n.markedTargets p) (n'.markedTargets q) := by
    obtain ⟨rfl, hp⟩ := h
    rw [markedTargets, markedTargets, ← hmarker, ← hsame p hp]
    refine List.forall₂_same.mpr fun q hq => ⟨rfl, contains_closure_of_silent hp (.of_edge ?_)⟩
    exact contains_targets_iff.mp (OrderedSet.contains_of_mem hq)
  have hequal := (forall₂_closure hR hroots hnext).imp fun _ _ h => h.1
  exact OrderedSet.eq_of_toList_eq (List.forall₂_eq_eq_eq ▸ hequal)

namespace AgreesOn

variable {c : Construction} {symbols : List Value}
  (h : n.AgreesOn ((c.dfa n).LooksAt n.marker symbols) n')

include h

theorem closure_eq (hS : (c.dfa n).hasState (n.closure S) = true) :
    n.closure S = n'.closure S :=
  closure_eq_of_targets h.marker fun p hp => h.targets p n.marker (.of_marker hS hp)

theorem closure_starts_eq : n.closure n.starts = n'.closure n'.starts := by
  rw [← h.starts]
  exact h.closure_eq (c.isSubsetAutomaton_dfa n).hasState_start

variable (hsymbols : ∀ a ∈ c.alphabet.toList, a ∈ symbols)

include hsymbols

/-- The successors of a state are found by what is looked at. -/
theorem successor_eq (hS : (c.dfa n).hasState S = true) (ha : a ∈ c.alphabet.toList) :
    n.successor S a = n'.successor S a := by
  have hmove : n.move S.toList a = n'.move S.toList a := by
    rw [move, move]
    refine congrArg OrderedSet.ofList (List.flatMap_congr fun p hp => ?_)
    rw [h.targets p a (.of_symbol hS (OrderedSet.contains_of_mem hp) (hsymbols a ha))]
  rw [successor, successor, ← hmove]
  exact h.closure_eq (Construction.hasState_successor hS ha)

/-- The runs meet the same sets in the same order. -/
theorem explore_eq : (c.explore n).discovered = (c.explore n').discovered := by
  -- The sets met so far are states of the first run, so their successors agree. That the second run
  -- meets nothing else is what is proved, so it cannot be asked of its states.
  let R (S T : ValueSet) : Prop := S = T ∧ (c.dfa n).hasState S = true
  have hR : RespectsBEq R := by
    rintro S _ S' _ ⟨rfl, -⟩ ⟨rfl, -⟩
    rfl
  have hnext (S T : ValueSet) (hST : R S T) :
      List.Forall₂ R (c.successors n S) (c.successors n' T) := by
    obtain ⟨rfl, hS⟩ := hST
    exact Construction.forall₂_successors (List.forall₂_same.mpr fun a ha =>
      ⟨h.successor_eq hsymbols hS ha, Construction.hasState_successor hS ha⟩)
  have hsets : List.Forall₂ R (c.explore n).discovered.toList (c.explore n').discovered.toList :=
    Construction.forall₂_explore hR rfl
      ⟨h.closure_starts_eq, (c.isSubsetAutomaton_dfa n).hasState_start⟩ hnext
  exact OrderedSet.eq_of_toList_eq (List.forall₂_eq_eq_eq ▸ hsets.imp fun _ _ hST => hST.1)

/-- The runs make the same automaton. -/
theorem dfa_eq : c.dfa n = c.dfa n' := by
  have hrow (states : OrderedSet ValueSet) : ∀ S ∈ (c.explore n).discovered.toList,
      c.row n states S = c.row n' states S := by
    intro S hS
    rw [← Construction.states_dfa] at hS
    have htargets : ∀ a ∈ c.alphabet.toList, n.successor S a = n'.successor S a := fun a ha =>
      h.successor_eq hsymbols (Dfa.hasState_of_mem hS) ha
    rw [Construction.row, Construction.row, isAccepting, isAccepting, h.accepts]
    refine congrArg _ (OrderedMap.ofKeys_congr fun a ha => ?_)
    rw [htargets a ha]
  rw [Construction.dfa, Construction.dfa, ← h.explore_eq hsymbols, ← h.closure_starts_eq,
    OrderedMap.ofKeys_congr (hrow _)]

end AgreesOn

/-- Conversions of automata that agree on what is looked at are the same. -/
theorem AgreesOn.convert?_eq [DigitLimit] {symbols : List Value} {d : Discipline}
    (h : n.AgreesOn ((Construction.dfa ⟨OrderedSet.ofList symbols, d⟩ n).LooksAt n.marker symbols) n')
    (hmarker : n.marker.Hashable) (hhash : ∀ a ∈ symbols, a.Hashable)
    (hfree : ∀ a ∈ symbols, (a == n.marker) = false) :
    n'.convert? (some (.list symbols)) (.text d.name) =
      n.convert? (some (.list symbols)) (.text d.name) := by
  have hdfa := h.dfa_eq fun a ha => OrderedSet.mem_of_mem_toList_ofList ha
  rw [convert?_list_eq d hhash hfree, convert?_list_eq d hhash (h.marker ▸ hfree),
    Construction.run?_eq _ hmarker, Construction.run?_eq _ (h.marker ▸ hmarker), hdfa]

/-! ### Adding and removing transitions -/

/-- The automaton without a transition. -/
def remove (n : Nfa) (source symbol target : Value) : Nfa :=
  n.updateTargets source symbol (·.erase target)

/-- A transition that is to be added or to be removed. -/
inductive Edit
  | add (source symbol target : Value)
  | remove (source symbol target : Value)

/-- The state that the transition leaves. -/
def Edit.source : Edit → Value
  | .add source _ _ | .remove source _ _ => source

/-- The label of the transition. -/
def Edit.symbol : Edit → Value
  | .add _ symbol _ | .remove _ symbol _ => symbol

/-- The automaton after adding a transition, possibly without success, or removing one. -/
def edit (n : Nfa) : Edit → Nfa
  | .add source symbol target => (n.add source symbol target).2
  | .remove source symbol target => n.remove source symbol target

/-- The automaton after several edits. -/
def editAll (n : Nfa) (edits : List Edit) : Nfa := edits.foldl edit n

theorem targets_reserveSource (n : Nfa) (p p' a' : Value) :
    (n.reserveSource p).targets p' a' = n.targets p' a' := by
  simp only [targets, reserveSource, OrderedMap.find?_alter]
  split
  · rename_i hp
    rw [← n.edges.find?_congr hp]
    cases n.edges.find? p <;> rfl
  · rfl

namespace AgreesOn

variable {looksAt : Value → Value → Prop} (h : n.AgreesOn looksAt n')
  (hother : ∀ p' a', looksAt p' a' → (p == p' && a == a') = false)

include h hother

theorem updateTargets (f : ValueSet → ValueSet) : n.AgreesOn looksAt (n'.updateTargets p a f) where
  marker := h.marker
  starts := h.starts
  accepts := h.accepts
  targets p' a' hlooks := by
    rw [targets_updateTargets, hother p' a' hlooks, if_neg Bool.false_ne_true]
    exact h.targets p' a' hlooks

/-- Adding a transition leaves the other targets as they are, also if it fails on its way. -/
theorem add (q : Value) : n.AgreesOn looksAt (n'.add p a q).2 := by
  rw [Nfa.add]
  cases p.hashFault? with
  | some fault => exact h
  | none =>
    cases a.hashFault? with
    | some fault =>
      exact ⟨h.marker, h.starts, h.accepts, fun p' a' hlooks =>
        (h.targets p' a' hlooks).trans (n'.targets_reserveSource p p' a').symm⟩
    | none =>
      cases q.hashFault? with
      | some fault => exact h.updateTargets hother id
      | none => exact h.updateTargets hother (·.insert q)

end AgreesOn

theorem AgreesOn.edit {looksAt : Value → Value → Prop} (h : n.AgreesOn looksAt n') (e : Edit)
    (hother : ∀ p a, looksAt p a → (e.source == p && e.symbol == a) = false) :
    n.AgreesOn looksAt (n'.edit e) := by
  cases e with
  | add source symbol target => exact h.add hother target
  | remove source symbol target => exact h.updateTargets hother (·.erase target)

/-- Transitions that are not looked at can be added and removed. -/
theorem AgreesOn.editAll {looksAt : Value → Value → Prop} (h : n.AgreesOn looksAt n')
    {edits : List Edit}
    (hother : ∀ e ∈ edits, ∀ p a, looksAt p a → (e.source == p && e.symbol == a) = false) :
    n.AgreesOn looksAt (n'.editAll edits) := by
  induction edits generalizing n' with
  | nil => exact h
  | cons e edits ih =>
    rw [List.forall_mem_cons] at hother
    exact ih (h.edit e hother.1) hother.2

/-! ### Conversions -/

/-- A conversion is the same after transitions are added and removed that it does not look at: those
with another label than the marker and the symbols of the alphabet, and those that leave a state that
is in none of the sets that it meets. It also fails alike, if a set that it reports cannot be written. -/
theorem convert?_editAll [DigitLimit] (n : Nfa) (symbols : List Value) (d : Discipline)
    (hmarker : n.marker.Hashable) (hhash : ∀ a ∈ symbols, a.Hashable)
    (hfree : ∀ a ∈ symbols, (a == n.marker) = false) :
    (n.Reportable (.ofList symbols) →
      ∃ c, n.convert? (some (.list symbols)) (.text d.name) = .ok c ∧
        ∀ edits : List Edit,
          (∀ e ∈ edits, ¬ c.dfa.LooksAt n.marker symbols e.source e.symbol) →
            (n.editAll edits).convert? (some (.list symbols)) (.text d.name) = .ok c) ∧
    (¬ n.Reportable (.ofList symbols) →
      n.convert? (some (.list symbols)) (.text d.name) = .error .tooManyDigits ∧
        ∀ edits : List Edit,
          (∀ e ∈ edits, ¬ (Construction.dfa ⟨OrderedSet.ofList symbols, d⟩ n).LooksAt n.marker symbols
            e.source e.symbol) →
            (n.editAll edits).convert? (some (.list symbols)) (.text d.name) =
              .error .tooManyDigits) := by
  have hsame (edits : List Edit) (hedits : ∀ e ∈ edits,
      ¬ (Construction.dfa ⟨OrderedSet.ofList symbols, d⟩ n).LooksAt n.marker symbols e.source
        e.symbol) : (n.editAll edits).convert? (some (.list symbols)) (.text d.name) =
          n.convert? (some (.list symbols)) (.text d.name) := by
    refine AgreesOn.convert?_eq ?_ hmarker hhash hfree
    refine AgreesOn.editAll ⟨rfl, rfl, rfl, fun _ _ _ => rfl⟩ fun e he p a hlooks => ?_
    rw [← Bool.not_eq_true, Bool.and_eq_true]
    exact fun hsame => hedits e he (hlooks.congr (BEq.symm hsame.1) (BEq.symm hsame.2))
  refine ⟨fun hreportable => ?_, fun hnot => ?_⟩
  · have hconvert := convert?_list d hmarker hhash hfree hreportable
    exact ⟨_, hconvert, fun edits hedits => (hsame edits hedits).trans hconvert⟩
  · have hconvert := convert?_eq_error_of_not_reportable d hmarker hhash hfree hnot
    exact ⟨hconvert, fun edits hedits => (hsame edits hedits).trans hconvert⟩

/-- A transition with a label outside the alphabet is removed, a marked transition is added that leaves
a state that is not met, and a transition from a start state cannot be added. -/
def loopedEdits : List Edit :=
  [.remove .null (.text "b") .null, .add (.int 5) (.text "ε") (.int 0),
    .add (.int 0) (.text "c") (.list [])]

theorem convert?_looped_editAll :
    ∃ c, looped.convert? (some (.list [.text "a"])) (.text "lifo") = .ok c ∧
      (looped.editAll loopedEdits).convert? (some (.list [.text "a"])) (.text "lifo") = .ok c ∧
      ¬ (looped.editAll loopedEdits).HasEdge .null (.text "b") .null ∧
      (looped.editAll loopedEdits).HasEdge (.int 5) (.text "ε") (.int 0) := by
  obtain ⟨c, hc, hedits⟩ := (convert?_editAll looped [.text "a"] .lifo (by decide) (by decide)
    (by decide)).1 (by decide)
  refine ⟨c, hc, hedits loopedEdits ?_, by decide, by decide⟩
  rw [convert?_list .lifo (by decide) (by decide) (by decide) (by decide)] at hc
  injection hc with hc
  rw [← hc]
  decide +kernel

end Nfa

end Determinize
