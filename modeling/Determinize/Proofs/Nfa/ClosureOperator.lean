import Determinize.Proofs.Collection.Simulation
import Determinize.Proofs.Nfa.Closure
import Determinize.Proofs.Value.Hashable

/-!
# The closure is a closure operator

The search for a closure ends when its stack is empty, whatever the marked transitions are and
whether or not the automaton knows the states it is given: every state it finds is taken from the
stack once, and there are no more of them than states given and transitions. What it finds is the
least set that contains the given states and is closed under marked transitions. So the closure is
extensive, monotone and idempotent, and since a closure only asks from which states a state can be
reached, it is taken member by member: the closure of a union is the union of the closures, and so it
is for the moves of a union.

## Main definitions

* `Nfa.MarkClosed` — a set is closed under marked transitions.
* `Nfa.IsClosureOperator` — what the closures of an automaton are.

## Main results

* `Nfa.run_closure_of_le` — the search for a closure ends by itself.
* `Nfa.closure_isSubset_of_markClosed` — closures are least.
* `Nfa.closure_union`, `Nfa.closure_move_union` — closures of unions.
* `Nfa.isClosureOperator`.
-/

namespace Determinize.Nfa

/-- A set contains the targets of its members under the marker. -/
def MarkClosed (n : Nfa) (S : ValueSet) : Prop :=
  ∀ p q, S.contains p = true → n.HasEdge p n.marker q → S.contains q = true

/-- The search for the closure of a set, after at most `bound` steps. -/
def closureSearch (n : Nfa) (S : ValueSet) (bound : Nat) : Search Value :=
  (Search.start .lifo S.toList).run .lifo n.markedTargets bound

/-- The closures of an automaton exist for all sets, and they have the laws of closures. -/
structure IsClosureOperator (n : Nfa) : Prop where
  /-- Every collection that makes a set has a closure. -/
  answers : ∀ (states : Value) (S : ValueSet), ValueSet.ofValue? states = .ok S →
    n.closure? states = .ok (n.closure S)
  moves : ∀ (states : Value) (S : ValueSet) (a : Value), ValueSet.ofValue? states = .ok S →
    a.Hashable → ∃ M, n.move? states a = .ok M ∧ (M == n.move S.toList a) = true
  /-- The search ends because no state is left, and not because no further step is allowed. Every
  state of the closure has been taken from the stack once. -/
  ends : ∀ (S : ValueSet) (bound : Nat), S.size + n.transitions.length ≤ bound →
    (n.closureSearch S bound).waiting = [] ∧ (n.closureSearch S bound).discovered = n.closure S ∧
      (n.closureSearch S bound).expanded.Perm (n.closure S).toList
  /-- The closure consists of the states that can be reached by transitions with the marker. -/
  contains_iff : ∀ (S : ValueSet) (q : Value),
    (n.closure S).contains q = true ↔ ∃ p, S.contains p = true ∧ n.Silent p q
  extensive : ∀ S : ValueSet, S.isSubset (n.closure S) = true
  closed : ∀ S : ValueSet, n.MarkClosed (n.closure S)
  least : ∀ S T : ValueSet, S.isSubset T = true → n.MarkClosed T → (n.closure S).isSubset T = true
  monotone : ∀ S T : ValueSet, S.isSubset T = true → (n.closure S).isSubset (n.closure T) = true
  idempotent : ∀ S : ValueSet, (n.closure (n.closure S) == n.closure S) = true
  union : ∀ S T : ValueSet,
    (n.closure (S.union T) == (n.closure S).union (n.closure T)) = true
  move_union : ∀ (S T : ValueSet) (a : Value),
    (n.closure (n.move (S.union T).toList a) ==
      (n.closure (n.move S.toList a)).union (n.closure (n.move T.toList a))) = true

variable {n : Nfa} {S T : ValueSet} {p q a : Value}

/-! ### The search -/

theorem closureSearch_eq_of_le {bound : Nat} (h : S.size + n.transitions.length ≤ bound) :
    n.closureSearch S bound = n.closureSearch S (S.size + n.transitions.length) :=
  Search.run_eq_of_le (waiting_closure_eq_nil n S) h

/-- The search ends by itself, and has then expanded every state of the closure once. -/
theorem closureSearch_of_le {bound : Nat} (h : S.size + n.transitions.length ≤ bound) :
    (n.closureSearch S bound).waiting = [] ∧ (n.closureSearch S bound).discovered = n.closure S ∧
      (n.closureSearch S bound).expanded.Perm (n.closure S).toList := by
  have hvalid : (n.closureSearch S (S.size + n.transitions.length)).Valid n.markedTargets :=
    (Search.valid_start ..).run _ _
  have hdone := waiting_closure_eq_nil n S
  rw [closureSearch_eq_of_le h]
  exact ⟨hdone, rfl, (hvalid.perm_expanded hdone).symm⟩

theorem closure?_eq_ok {states : Value} (hmarker : n.marker.Hashable)
    (h : ValueSet.ofValue? states = .ok S) : n.closure? states = .ok (n.closure S) := by
  have hrequire : n.requireMarker S = .ok () := by
    rw [requireMarker, Value.requireHashable_eq_ok hmarker, ite_self]
  rw [closure?, h]
  change (n.requireMarker S >>= fun _ => pure (n.closure S)) = _
  rw [hrequire]
  rfl

/-! ### Moves -/

/-- The move of a set leads to the targets of what the set contains, whatever its spelling. -/
theorem contains_move_toList_iff : (n.move S.toList a).contains q = true ↔
    ∃ p, S.contains p = true ∧ n.HasEdge p a q := by
  rw [contains_move_iff]
  constructor
  · rintro ⟨p, hp, hedge⟩
    exact ⟨p, OrderedSet.contains_of_mem hp, hedge⟩
  · rintro ⟨p, hp, hedge⟩
    obtain ⟨p', hp', hpp'⟩ := OrderedSet.contains_iff.mp hp
    exact ⟨p', hp', hedge.congr (BEq.symm hpp') BEq.rfl BEq.rfl⟩

theorem transitionsFor?_eq_ok (n : Nfa) (hp : p.Hashable) (ha : a.Hashable) :
    n.transitionsFor? p a = .ok (n.targets p a) := by
  simp only [transitionsFor?, Value.requireHashable_eq_ok hp, Value.requireHashable_eq_ok ha]
  cases n.knows p <;> rfl

theorem forM_transitionsFor?_eq_ok (n : Nfa) {states : List Value}
    (hstates : ∀ p ∈ states, p.Hashable) (ha : a.Hashable) :
    (states.forM fun p => discard (n.transitionsFor? p a)) = .ok () := by
  induction states with
  | nil => rfl
  | cons p states ih =>
    rw [List.forall_mem_cons] at hstates
    change (do
      discard (n.transitionsFor? p a)
      states.forM fun p => discard (n.transitionsFor? p a)) = Except.ok ()
    rw [n.transitionsFor?_eq_ok hstates.1 ha, ih hstates.2]
    rfl

/-- Every collection that makes a set has a move under a symbol that can be a member of a set. -/
theorem exists_move?_eq_ok {states : Value} (h : ValueSet.ofValue? states = .ok S)
    (ha : a.Hashable) :
    ∃ M, n.move? states a = .ok M ∧ (M == n.move S.toList a) = true := by
  obtain ⟨items, hitems, h⟩ := exists_of_bind_eq_ok h
  obtain ⟨⟨⟩, hhash, h⟩ := exists_of_bind_eq_ok h
  obtain rfl := Except.ok.inj h
  rw [ValueSet.forM_requireHashable_eq_ok_iff] at hhash
  refine ⟨n.move items a, ?_, OrderedSet.beq_iff.mpr fun q => ?_⟩
  · rw [move?, hitems]
    change (do
      items.forM fun p => discard (n.transitionsFor? p a)
      return n.move items a : Except ShapeError ValueSet) = _
    rw [n.forM_transitionsFor?_eq_ok hhash ha]
    rfl
  · rw [Bool.eq_iff_iff, contains_move_iff, contains_move_toList_iff]
    simp only [OrderedSet.contains_ofList_iff]
    constructor
    · rintro ⟨p, hp, hedge⟩
      exact ⟨p, ⟨p, hp, BEq.rfl⟩, hedge⟩
    · rintro ⟨p, ⟨p', hp', hpp'⟩, hedge⟩
      exact ⟨p', hp', hedge.congr (BEq.symm hpp') BEq.rfl BEq.rfl⟩

/-! ### Least closed sets -/

theorem isSubset_closure (n : Nfa) (S : ValueSet) : S.isSubset (n.closure S) = true :=
  OrderedSet.isSubset_iff.mpr fun p hp => contains_closure_iff.mpr ⟨p, hp, .refl BEq.rfl⟩

theorem markClosed_closure (n : Nfa) (S : ValueSet) : n.MarkClosed (n.closure S) :=
  fun _ _ hp hedge => contains_closure_of_silent hp (.of_edge hedge)

/-- A closed set contains what can be reached from its members. -/
theorem MarkClosed.contains_of_silent (h : n.MarkClosed T) (hp : T.contains p = true)
    (hpq : n.Silent p q) : T.contains q = true :=
  hpq.induction (P := fun q => T.contains q = true) hp
    (fun _ _ hxy hx => T.contains_congr hxy ▸ hx) fun x y hedge hx => h x y hx hedge

/-- No smaller set than the closure is closed. -/
theorem closure_isSubset_of_markClosed (hST : S.isSubset T = true) (h : n.MarkClosed T) :
    (n.closure S).isSubset T = true := by
  rw [OrderedSet.isSubset_iff] at hST ⊢
  intro q hq
  obtain ⟨p, hp, hpq⟩ := contains_closure_iff.mp hq
  exact h.contains_of_silent (hST p hp) hpq

theorem isSubset_trans {U : ValueSet} (h : S.isSubset T = true) (h' : T.isSubset U = true) :
    S.isSubset U = true :=
  OrderedSet.isSubset_iff.mpr fun p hp =>
    OrderedSet.isSubset_iff.mp h' p (OrderedSet.isSubset_iff.mp h p hp)

theorem closure_mono (hST : S.isSubset T = true) :
    (n.closure S).isSubset (n.closure T) = true :=
  closure_isSubset_of_markClosed (isSubset_trans hST (n.isSubset_closure T))
    (n.markClosed_closure T)

/-- A closed set is its own closure. -/
theorem beq_closure_of_markClosed (h : n.MarkClosed S) : (n.closure S == S) = true := by
  change ((n.closure S).isSubset S && S.isSubset (n.closure S)) = true
  have hrefl : S.isSubset S = true := OrderedSet.isSubset_iff.mpr fun _ hp => hp
  rw [closure_isSubset_of_markClosed hrefl h, n.isSubset_closure S, Bool.true_and]

/-! ### Unions -/

/-- A closure is taken member by member. -/
theorem closure_union (n : Nfa) (S T : ValueSet) :
    (n.closure (S.union T) == (n.closure S).union (n.closure T)) = true := by
  refine OrderedSet.beq_iff.mpr fun q => ?_
  rw [Bool.eq_iff_iff, OrderedSet.contains_union, Bool.or_eq_true, contains_closure_iff,
    contains_closure_iff, contains_closure_iff]
  simp only [OrderedSet.contains_union, Bool.or_eq_true, or_and_right, exists_or]

/-- A move is taken member by member. -/
theorem move_union (n : Nfa) (S T : ValueSet) (a : Value) :
    (n.move (S.union T).toList a == (n.move S.toList a).union (n.move T.toList a)) = true := by
  refine OrderedSet.beq_iff.mpr fun q => ?_
  rw [Bool.eq_iff_iff, OrderedSet.contains_union, Bool.or_eq_true, contains_move_toList_iff,
    contains_move_toList_iff, contains_move_toList_iff]
  simp only [OrderedSet.contains_union, Bool.or_eq_true, or_and_right, exists_or]

theorem closure_congr (h : (S == T) = true) : (n.closure S == n.closure T) = true := by
  refine OrderedSet.beq_iff.mpr fun q => ?_
  rw [Bool.eq_iff_iff, contains_closure_iff, contains_closure_iff]
  simp only [OrderedSet.beq_iff.mp h]

/-- The closures of an automaton are those of a closure operator. The marker is a symbol, and symbols
are hashable; nothing is asked of the transitions or of the sets. -/
theorem isClosureOperator (n : Nfa) (hmarker : n.marker.Hashable) : n.IsClosureOperator where
  answers _ _ := closure?_eq_ok hmarker
  moves _ _ _ := exists_move?_eq_ok
  ends _ _ := closureSearch_of_le
  contains_iff _ _ := contains_closure_iff
  extensive := n.isSubset_closure
  closed := n.markClosed_closure
  least _ _ := closure_isSubset_of_markClosed
  monotone _ _ := closure_mono
  idempotent S := beq_closure_of_markClosed (n.markClosed_closure S)
  union := n.closure_union
  move_union S T a := BEq.trans (closure_congr (n.move_union S T a)) (n.closure_union ..)

/-- Marked transitions from `0` to itself, along a chain from `0` to `3` and back to `1`, spelled
differently there. -/
def chained : Nfa :=
  (((((⟨.ofList [.int 0], .empty, .text "ε", .empty⟩ : Nfa).link
    (.int 0) (.text "ε") (.int 0)).link (.int 0) (.text "ε") (.int 1)).link
    (.int 1) (.text "ε") (.int 2)).link (.int 2) (.text "ε") (.int 3)).link
    (.int 3) (.text "ε") (.bool true)

/-- The closure goes around the cycle and keeps a state that the automaton does not know. -/
theorem isClosureOperator_chained :
    chained.marker.Hashable ∧
      ∃ C, chained.closure? (.list [.int 9, .real (.finite 2)]) = .ok C ∧
        C.toList = [.int 9, .real (.finite 2), .int 3, .bool true] ∧
        (chained.closure C == C) = true := by
  have h := chained.isClosureOperator (by decide)
  exact ⟨by decide, _, h.answers _ (.ofList [.int 9, .real (.finite 2)]) rfl, by decide,
    h.idempotent _⟩

end Determinize.Nfa
