import Determinize.Proofs.Nfa.Stored
import Determinize.Proofs.Construction.Interference

/-!
# How sources and symbols are spelled

An automaton keeps the spelling under which it has made room for a source, or for a symbol of a
source, whether or not a transition is stored there. The transitions that it lists are given by its
targets and by these spellings. So automata with the same targets list the same transitions, each in
its own spelling of the source and the symbol.

## Main definitions

* `Nfa.SameTargets` — automata that differ in empty places and in spelling only.
* `Nfa.spelledSource`, `Nfa.spelledSymbol` — the spellings that are kept.
* `Nfa.respell` — a transition in the spelling of an automaton.

## Main results

* `Nfa.spelledSource_updateTargets`, `Nfa.spelledSymbol_updateTargets` — the first spelling is kept.
* `Nfa.mem_transitions_iff_spelled` — the transitions that are listed.
* `Nfa.SameTargets.perm_transitions` — two lists of the same transitions.
* `Nfa.SameTargets.dfa_eq` — runs do not depend on empty places and on the spelling.
-/

namespace Determinize.Nfa

variable {n n' : Nfa} {p a q x b : Value}

/-- Two automata have the same marker, start states, accept states and targets. Their stores may
differ in empty places and in how sources and symbols are spelled. -/
abbrev SameTargets (n n' : Nfa) : Prop := n.AgreesOn (fun _ _ => True) n'

/-- The spelling of a source, if there is room for its transitions. -/
def spelledSource (n : Nfa) (p : Value) : Option Value := n.edges.keys.find? p

/-- The spelling of a symbol, if there is room for transitions of the source with it. -/
def spelledSymbol (n : Nfa) (p a : Value) : Option Value :=
  (n.edges.find? p).bind (·.keys.find? a)

/-- A transition with its source and symbol as the automaton spells them. -/
def respell (n : Nfa) (t : Value × Value × Value) : Value × Value × Value :=
  ((n.spelledSource t.1).getD t.1, (n.spelledSymbol t.1 t.2.1).getD t.2.1, t.2.2)

/-! ### Reading -/

theorem spelledSource_congr (n : Nfa) (h : (p == x) = true) :
    n.spelledSource p = n.spelledSource x :=
  n.edges.keys.find?_congr h

theorem spelledSymbol_congr (n : Nfa) (hp : (p == x) = true) (ha : (a == b) = true) :
    n.spelledSymbol p a = n.spelledSymbol x b := by
  simp only [spelledSymbol, n.edges.find?_congr hp, OrderedSet.find?_congr _ ha]

theorem beq_of_spelledSource_eq_some (h : n.spelledSource p = some x) : (x == p) = true :=
  (OrderedSet.find?_eq_some h).2

theorem beq_of_spelledSymbol_eq_some (h : n.spelledSymbol p a = some b) : (b == a) = true := by
  obtain ⟨row, -, h⟩ := Option.bind_eq_some_iff.mp h
  exact (OrderedSet.find?_eq_some h).2

theorem knows_eq_isSome (n : Nfa) (p : Value) : n.knows p = (n.spelledSource p).isSome := by
  rw [knows, ← OrderedMap.contains_keys, spelledSource]
  cases h : n.edges.keys.find? p with
  | none => exact OrderedSet.find?_eq_none_iff.mp h
  | some x =>
    obtain ⟨hx, hxp⟩ := OrderedSet.find?_eq_some h
    exact OrderedSet.contains_iff.mpr ⟨x, hx, hxp⟩

/-- The transitions that are listed are given by the targets and the spellings. -/
theorem mem_transitions_iff_spelled {t : Value × Value × Value} :
    t ∈ n.transitions ↔ n.spelledSource t.1 = some t.1 ∧
      n.spelledSymbol t.1 t.2.1 = some t.2.1 ∧ t.2.2 ∈ (n.targets t.1 t.2.1).toList := by
  rw [mem_transitions_iff, spelledSource, OrderedSet.find?_eq_some_self_iff,
    OrderedMap.mem_keys_iff, ← exists_and_right]
  refine exists_congr fun row => and_congr_right fun hrow => ?_
  have hfind : n.edges.find? t.1 = some row := OrderedMap.find?_eq_some_of_mem hrow BEq.rfl
  rw [spelledSymbol, targets, hfind, Option.bind_some, Option.bind_some,
    OrderedSet.find?_eq_some_self_iff, OrderedMap.mem_keys_iff, ← exists_and_right]
  refine exists_congr fun targets => and_congr_right fun htargets => ?_
  rw [OrderedMap.find?_eq_some_of_mem htargets BEq.rfl, Option.getD_some]

/-! ### Transitions up to the spelling -/

theorem triple_beq_iff {t u : Value × Value × Value} :
    (t == u) = true ↔
      (t.1 == u.1) = true ∧ (t.2.1 == u.2.1) = true ∧ (t.2.2 == u.2.2) = true := by
  rw [← Bool.and_eq_true, ← Bool.and_eq_true]
  rfl

theorem hasEdge_iff_exists_beq {t : Value × Value × Value} :
    n.HasEdge t.1 t.2.1 t.2.2 ↔ ∃ u ∈ n.transitions, (u == t) = true := by
  simp only [HasEdge, triple_beq_iff]

/-- A property that does not depend on the spelling holds of members of both lists of the same
transitions or of none. -/
theorem exists_mem_iff_of_sameEdges {ts us : List (Value × Value × Value)}
    (h : ∀ t, (∃ u ∈ ts, (u == t) = true) ↔ ∃ u ∈ us, (u == t) = true)
    {Q : Value × Value × Value → Prop} (hQ : ∀ t u, (t == u) = true → (Q t ↔ Q u)) :
    (∃ t ∈ ts, Q t) ↔ ∃ t ∈ us, Q t := by
  constructor
  · rintro ⟨t, ht, hQt⟩
    obtain ⟨u, hu, hut⟩ := (h t).mp ⟨t, ht, BEq.rfl⟩
    exact ⟨u, hu, (hQ u t hut).mpr hQt⟩
  · rintro ⟨t, ht, hQt⟩
    obtain ⟨u, hu, hut⟩ := (h t).mpr ⟨t, ht, BEq.rfl⟩
    exact ⟨u, hu, (hQ u t hut).mpr hQt⟩

/-- The states are found in any list of the same transitions. -/
theorem contains_states_iff_of_sameEdges {ts : List (Value × Value × Value)}
    (h : ∀ t, (∃ u ∈ n.transitions, (u == t) = true) ↔ ∃ u ∈ ts, (u == t) = true) (q : Value) :
    n.states.contains q = true ↔ n.starts.contains q = true ∨ n.accepts.contains q = true ∨
      ∃ t ∈ ts, (t.1 == q) = true ∨ (t.2.2 == q) = true := by
  rw [contains_states_iff, exists_mem_iff_of_sameEdges h fun t u htu => ?_]
  rw [triple_beq_iff] at htu
  rw [BEq.congr_left htu.1, BEq.congr_left htu.2.2]

/-- The symbols are found in any list of the same transitions. -/
theorem contains_symbols_iff_of_sameEdges {ts : List (Value × Value × Value)}
    (h : ∀ t, (∃ u ∈ n.transitions, (u == t) = true) ↔ ∃ u ∈ ts, (u == t) = true) (a : Value) :
    n.symbols.contains a = true ↔
      (∃ t ∈ ts, (t.2.1 == a) = true) ∧ a.differs n.marker = true := by
  rw [contains_symbols_iff, Labels, exists_mem_iff_of_sameEdges h fun t u htu => ?_]
  rw [BEq.congr_left (triple_beq_iff.mp htu).2.1]

/-- No transition is stored twice in different spellings. -/
theorem pairwise_transitions (n : Nfa) :
    n.transitions.Pairwise fun t u => (t == u) = false := by
  have hne {t u : Value × Value × Value} (h : (t.1 == u.1) = false ∨ (t.2.1 == u.2.1) = false ∨
      (t.2.2 == u.2.2) = false) : (t == u) = false := by
    rw [← Bool.not_eq_true, triple_beq_iff]
    simpa only [not_and_or, Bool.not_eq_true] using h
  refine List.pairwise_flatMap.mpr ⟨fun e _ => ?_, n.edges.distinct.imp fun he t ht u hu => ?_⟩
  · refine List.pairwise_flatMap.mpr ⟨fun f _ => ?_, e.2.distinct.imp fun hf t ht u hu => ?_⟩
    · exact List.pairwise_map.mpr (f.2.distinct.imp fun hq => hne (.inr (.inr hq)))
    · obtain ⟨_, -, rfl⟩ := List.mem_map.mp ht
      obtain ⟨_, -, rfl⟩ := List.mem_map.mp hu
      exact hne (.inr (.inl hf))
  · obtain ⟨_, -, ht⟩ := List.mem_flatMap.mp ht
    obtain ⟨_, -, rfl⟩ := List.mem_map.mp ht
    obtain ⟨_, -, hu⟩ := List.mem_flatMap.mp hu
    obtain ⟨_, -, rfl⟩ := List.mem_map.mp hu
    exact hne (.inl he)

/-- The states are spelled as they are stored. -/
theorem mem_states_toList (h : x ∈ n.states.toList) :
    x ∈ n.starts.toList ∨ x ∈ n.accepts.toList ∨ ∃ t ∈ n.transitions, x = t.1 ∨ x = t.2.2 := by
  rcases OrderedSet.mem_toList_insertAll h with h | h
  · exact (OrderedSet.mem_toList_insertAll h).imp_right .inl
  · obtain ⟨t, ht, h⟩ := List.mem_flatMap.mp h
    exact .inr (.inr ⟨t, ht, by simpa using h⟩)

/-- The symbols are spelled as they are stored. -/
theorem mem_symbols_toList (h : x ∈ n.symbols.toList) : ∃ t ∈ n.transitions, t.2.1 = x :=
  List.mem_map.mp (List.mem_of_mem_filter (OrderedSet.mem_of_mem_toList_ofList h))

/-! ### Reading after writing -/

theorem spelledSource_updateTargets (n : Nfa) (p a x : Value) (f : ValueSet → ValueSet) :
    (n.updateTargets p a f).spelledSource x =
      if p == x then some ((n.spelledSource p).getD p) else n.spelledSource x :=
  n.edges.find?_keys_alter ..

theorem spelledSource_reserveSource (n : Nfa) (p x : Value) :
    (n.reserveSource p).spelledSource x =
      if p == x then some ((n.spelledSource p).getD p) else n.spelledSource x :=
  n.edges.find?_keys_alter ..

theorem spelledSymbol_updateTargets (n : Nfa) (p a x b : Value) (f : ValueSet → ValueSet) :
    (n.updateTargets p a f).spelledSymbol x b =
      if p == x && a == b then some ((n.spelledSymbol p a).getD a) else n.spelledSymbol x b := by
  rw [spelledSymbol, updateTargets, OrderedMap.find?_alter]
  by_cases hp : (p == x) = true
  · rw [if_pos hp, Option.bind_some, OrderedMap.find?_keys_alter, hp, Bool.true_and, spelledSymbol,
      spelledSymbol, ← n.edges.find?_congr hp]
    cases n.edges.find? p <;> rfl
  · rw [if_neg hp, Bool.eq_false_iff.mpr hp]
    rfl

theorem spelledSymbol_reserveSource (n : Nfa) (p x b : Value) :
    (n.reserveSource p).spelledSymbol x b = n.spelledSymbol x b := by
  rw [spelledSymbol, reserveSource, OrderedMap.find?_alter]
  split
  · rename_i hp
    rw [spelledSymbol, ← n.edges.find?_congr hp]
    cases n.edges.find? p <;> rfl
  · rfl

/-! ### Empty places -/

theorem targets_reserveTargets (n : Nfa) (p a p' a' : Value) :
    (n.reserveTargets p a).targets p' a' = n.targets p' a' := by
  rw [reserveTargets, targets_updateTargets]
  split
  · rename_i hsame
    rw [Bool.and_eq_true] at hsame
    exact targets_congr hsame.1 hsame.2
  · rfl

theorem sameTargets_reserveSource (n : Nfa) (p : Value) : n.SameTargets (n.reserveSource p) :=
  ⟨rfl, rfl, rfl, fun p' a' _ => (n.targets_reserveSource p p' a').symm⟩

theorem sameTargets_reserveTargets (n : Nfa) (p a : Value) :
    n.SameTargets (n.reserveTargets p a) :=
  ⟨rfl, rfl, rfl, fun p' a' _ => (n.targets_reserveTargets p a p' a').symm⟩

theorem transitions_reserveSource (n : Nfa) (p : Value) :
    (n.reserveSource p).transitions = n.transitions :=
  OrderedMap.flatMap_alterEntries rfl (fun _ _ => rfl) n.edges.entries

theorem transitions_reserveTargets (n : Nfa) (p a : Value) :
    (n.reserveTargets p a).transitions = n.transitions := by
  refine OrderedMap.flatMap_alterEntries rfl (fun x row => ?_) n.edges.entries
  exact OrderedMap.flatMap_alterEntries rfl (fun _ _ => rfl) row.entries

/-- No room is made for a source that has some. -/
theorem reserveSource_eq_self (h : n.knows p = true) : n.reserveSource p = n := by
  cases hrow : n.edges.find? p with
  | none => simp [knows, OrderedMap.find?_eq_none_iff.mp hrow] at h
  | some row => rw [reserveSource, OrderedMap.alter_eq_self hrow rfl]

/-- No room is made for a source and a symbol that have some. -/
theorem reserveTargets_eq_self (h : (n.spelledSymbol p a).isSome = true) :
    n.reserveTargets p a = n := by
  obtain ⟨b, h⟩ := Option.isSome_iff_exists.mp h
  obtain ⟨row, hrow, hsymbol⟩ := Option.bind_eq_some_iff.mp h
  obtain ⟨hb, hba⟩ := OrderedSet.find?_eq_some hsymbol
  obtain ⟨targets, htargets⟩ := OrderedMap.mem_keys_iff.mp hb
  have htargets : row.find? a = some targets := OrderedMap.find?_eq_some_of_mem htargets hba
  rw [reserveTargets, updateTargets,
    OrderedMap.alter_eq_self hrow (OrderedMap.alter_eq_self htargets rfl)]

/-! ### Automata with the same targets -/

/-- A stored transition is spelled as the automaton spells it. -/
theorem respell_eq_of_mem {t u : Value × Value × Value} (ht : t ∈ n.transitions)
    (hp : (t.1 == u.1) = true) (ha : (t.2.1 == u.2.1) = true) (hq : t.2.2 = u.2.2) :
    n.respell u = t := by
  obtain ⟨hsource, hsymbol, -⟩ := mem_transitions_iff_spelled.mp ht
  rw [respell, ← n.spelledSource_congr hp, ← n.spelledSymbol_congr hp ha, hsource, hsymbol, ← hq]
  rfl

theorem beq_respell (n : Nfa) (t : Value × Value × Value) :
    ((n.respell t).1 == t.1) = true ∧ ((n.respell t).2.1 == t.2.1) = true := by
  constructor
  · cases h : n.spelledSource t.1 with
    | none => simp [respell, h]
    | some x => simpa [respell, h] using beq_of_spelledSource_eq_some h
  · cases h : n.spelledSymbol t.1 t.2.1 with
    | none => simp [respell, h]
    | some b => simpa [respell, h] using beq_of_spelledSymbol_eq_some h

/-- Automata with the same targets list the same transitions in any order, each in its own
spelling. -/
theorem SameTargets.perm_transitions (h : n.SameTargets n') :
    n'.transitions.Perm (n.transitions.map n'.respell) := by
  -- Two stored transitions that are respelled alike are both what `n` makes of the one spelling.
  have hinj : ∀ t ∈ n.transitions, ∀ u ∈ n.transitions, n'.respell t = n'.respell u → t = u := by
    intro t ht u hu htu
    obtain ⟨hp, ha⟩ := n'.beq_respell t
    obtain ⟨hp', ha'⟩ := n'.beq_respell u
    rw [htu] at hp ha
    have hq : t.2.2 = u.2.2 := congrArg (·.2.2) htu
    rw [← respell_eq_of_mem ht (BEq.trans (BEq.symm hp) hp') (BEq.trans (BEq.symm ha) ha') hq,
      respell_eq_of_mem hu BEq.rfl BEq.rfl rfl]
  refine (List.perm_ext_iff_of_nodup n'.nodup_transitions
    (n.nodup_transitions.map_on hinj)).mpr fun t => ?_
  rw [List.mem_map]
  constructor
  · intro ht
    obtain ⟨-, -, hq⟩ := mem_transitions_iff_spelled.mp ht
    rw [← h.targets _ _ trivial] at hq
    obtain ⟨u, hu, hp, ha, hq⟩ := exists_mem_transitions_of_mem_targets hq
    exact ⟨u, hu, respell_eq_of_mem ht (BEq.symm hp) (BEq.symm ha) hq.symm⟩
  · rintro ⟨u, hu, rfl⟩
    obtain ⟨-, -, hq⟩ := mem_transitions_iff_spelled.mp hu
    rw [h.targets _ _ trivial] at hq
    obtain ⟨t, ht, hp, ha, hq⟩ := exists_mem_transitions_of_mem_targets hq
    rwa [respell_eq_of_mem ht hp ha hq]

namespace SameTargets

variable (h : n.SameTargets n')

include h

theorem agreesOn (looksAt : Value → Value → Prop) : n.AgreesOn looksAt n' :=
  ⟨h.marker, h.starts, h.accepts, fun p a _ => h.targets p a trivial⟩

theorem exists_beq_iff (t : Value × Value × Value) :
    (∃ u ∈ n'.transitions, (u == t) = true) ↔ ∃ u ∈ n.transitions, (u == t) = true := by
  rw [← hasEdge_iff_exists_beq, ← hasEdge_iff_exists_beq, ← contains_targets_iff,
    ← contains_targets_iff, h.targets _ _ trivial]

theorem beq_states : (n'.states == n.states) = true := by
  refine OrderedSet.beq_iff.mpr fun x => ?_
  rw [Bool.eq_iff_iff, contains_states_iff_of_sameEdges h.exists_beq_iff, contains_states_iff,
    h.starts, h.accepts]

theorem beq_symbols : (n'.symbols == n.symbols) = true := by
  refine OrderedSet.beq_iff.mpr fun x => ?_
  rw [Bool.eq_iff_iff, contains_symbols_iff_of_sameEdges h.exists_beq_iff, contains_symbols_iff,
    Labels, h.marker]

theorem closure_eq (S : ValueSet) : n.closure S = n'.closure S :=
  closure_eq_of_targets h.marker fun p _ => h.targets p n.marker trivial

theorem move_eq (xs : List Value) (a : Value) : n.move xs a = n'.move xs a := by
  rw [move, move]
  exact congrArg _ (List.flatMap_congr fun p _ => by rw [h.targets p a trivial])

theorem dfa_eq (c : Construction) : c.dfa n = c.dfa n' :=
  (h.agreesOn _).dfa_eq fun _ ha => ha

end SameTargets

end Determinize.Nfa
