import Determinize.Config.Automaton
import Determinize.Proofs.Dfa.Rendering
import Determinize.Proofs.Nfa.Stored
import Determinize.Proofs.Value.Hashable

/-!
# Descriptions of nondeterministic automata

A description lists transitions, start states and accept states. The automaton that is built from it
has the transitions of the list, whatever the order and the repetitions, and stores each once. If
equal values are spelled alike in two descriptions of the same sets, the same start states, accept
states and transitions are stored, in any order.

## Main definitions

* `Nfa.Description`, `Nfa.Description.nfa?`, `Nfa.Description.config`.
* `Nfa.Description.SameSets` — descriptions of the same sets.
* `Nfa.Same` — automata that store the same.

## Main results

* `Nfa.Description.nfa?_eq` — the automaton that is described.
* `Nfa.Description.SameSets.same_build` — descriptions of the same sets make automata that store the
  same.
-/

namespace Determinize

/-- Members of a list are members of another one with an equal set, if equal members are spelled
alike. -/
theorem OrderedSet.mem_of_beq_ofList {α : Type} [BEq α] [EquivBEq α] {xs ys : List α} {x : α}
    (h : (ofList xs == ofList ys) = true)
    (hspelled : ∀ x ∈ xs, ∀ y ∈ ys, (x == y) = true → x = y) (hx : x ∈ xs) : x ∈ ys := by
  have hy := (beq_iff.mp h x).symm.trans (contains_ofList_of_mem hx)
  obtain ⟨y, hy, hyx⟩ := contains_ofList_iff.mp hy
  exact hspelled x hx y hy (BEq.symm hyx) ▸ hy

namespace Nfa

/-- A description of an automaton. A label `null` stands for the marker. -/
structure Description where
  transitions : List (Value × Value × Value)
  starts : List Value
  accepts : List Value
  marker : Value

/-- Two automata have the same marker and store the same, in any order. -/
structure Same (n n' : Nfa) : Prop where
  marker : n.marker = n'.marker
  starts : n.starts.Same n'.starts
  accepts : n.accepts.Same n'.accepts
  transitions : n.transitions.Perm n'.transitions

namespace Description

/-- The values that occur in a description. -/
def values (D : Description) : List Value :=
  D.marker :: (D.starts ++ (D.accepts ++ D.transitions.flatMap fun t => [t.1, t.2.1, t.2.2]))

/-- The transitions as triples. -/
def triples (D : Description) : List Value :=
  D.transitions.map fun t => .tuple [t.1, t.2.1, t.2.2]

/-- The automaton that is described. -/
def nfa? (D : Description) : Except ShapeError Nfa :=
  ofTriples? (.list D.triples) (.list D.starts) (.list D.accepts) D.marker

/-- The description in a configuration, where the triples are lists. -/
def config (D : Description) : NfaConfig where
  transitions := .list (D.transitions.map fun t => .list [t.1, t.2.1, t.2.2])
  starts := .list D.starts
  accepts := .list D.accepts
  marker := D.marker

/-- Two descriptions have the same marker and the same sets of transitions, start states and accept
states. -/
structure SameSets (D E : Description) : Prop where
  marker : (D.marker == E.marker) = true
  transitions : (OrderedSet.ofList D.triples == OrderedSet.ofList E.triples) = true
  starts : (OrderedSet.ofList D.starts == OrderedSet.ofList E.starts) = true
  accepts : (OrderedSet.ofList D.accepts == OrderedSet.ofList E.accepts) = true

/-- A transition with its label, which is the marker if it is given as `null`. -/
def labelled (marker : Value) (t : Value × Value × Value) : Value × Value × Value :=
  (t.1, if t.2.1 = .null then marker else t.2.1, t.2.2)

/-- The transitions with their labels. -/
def links (D : Description) : List (Value × Value × Value) :=
  D.transitions.map (labelled D.marker)

/-- An automaton with further transitions. -/
def linkAll (n : Nfa) (ts : List (Value × Value × Value)) : Nfa :=
  ts.foldl (fun n t => n.link t.1 t.2.1 t.2.2) n

/-- The automaton without transitions. -/
def bare (D : Description) : Nfa :=
  ⟨OrderedSet.ofList D.starts, OrderedSet.ofList D.accepts, D.marker, .empty⟩

/-- The automaton with the described start states, accept states and transitions. -/
def build (D : Description) : Nfa := linkAll D.bare D.links

variable {D E : Description} {P : Value → Prop} {n : Nfa} {p a q x : Value}
  {ts : List (Value × Value × Value)}

theorem forall_mem_values : (∀ x ∈ D.values, P x) ↔
    P D.marker ∧ (∀ x ∈ D.starts, P x) ∧ (∀ x ∈ D.accepts, P x) ∧
      ∀ t ∈ D.transitions, P t.1 ∧ P t.2.1 ∧ P t.2.2 := by
  simp only [values, List.forall_mem_cons, List.forall_mem_append, List.forall_mem_flatMap,
    List.not_mem_nil, false_implies, implies_true, and_true]

theorem forall_mem_links (h : ∀ x ∈ D.values, P x) : ∀ t ∈ D.links, P t.1 ∧ P t.2.1 ∧ P t.2.2 := by
  obtain ⟨hmarker, -, -, htransitions⟩ := forall_mem_values.mp h
  intro t ht
  obtain ⟨u, hu, rfl⟩ := List.mem_map.mp ht
  obtain ⟨hp, ha, hq⟩ := htransitions u hu
  refine ⟨hp, ?_, hq⟩
  dsimp only [labelled]
  split
  · exact hmarker
  · exact ha

/-! ### Building -/

theorem add?_of_hashable (hp : p.Hashable) (ha : a.Hashable) (hq : q.Hashable) :
    n.add? p a q = .ok (n.link p a q) := by
  rw [add?, add, Value.hashFault?_eq_none_iff.mpr hp, Value.hashFault?_eq_none_iff.mpr ha,
    Value.hashFault?_eq_none_iff.mpr hq]

theorem foldlM_addTriple? (hmarker : n.marker.Hashable)
    (hhash : ∀ t ∈ ts, t.1.Hashable ∧ t.2.1.Hashable ∧ t.2.2.Hashable) :
    (ts.map fun t => Value.tuple [t.1, t.2.1, t.2.2]).foldlM addTriple? n =
      .ok (linkAll n (ts.map (labelled n.marker))) := by
  induction ts generalizing n with
  | nil => rfl
  | cons t ts ih =>
    rw [List.forall_mem_cons] at hhash
    have ha : (if t.2.1 = .null then n.marker else t.2.1).Hashable := by
      split
      · exact hmarker
      · exact hhash.1.2.1
    have hfirst : n.addTriple? (.tuple [t.1, t.2.1, t.2.2]) =
        .ok (n.link t.1 (if t.2.1 = .null then n.marker else t.2.1) t.2.2) :=
      add?_of_hashable hhash.1.1 ha hhash.1.2.2
    rw [List.map_cons, List.foldlM_cons, hfirst]
    exact ih (n := n.link _ _ _) hmarker hhash.2

/-- A description of values that can be members of sets is one of an automaton. -/
theorem nfa?_eq (h : ∀ x ∈ D.values, x.Hashable) : D.nfa? = .ok D.build := by
  obtain ⟨hmarker, hstarts, haccepts, htransitions⟩ := forall_mem_values.mp h
  have hnew : new? (.list D.starts) (.list D.accepts) D.marker = .ok D.bare := by
    rw [new?, ValueSet.ofValue?_list hstarts, ValueSet.ofValue?_list haccepts]
    rfl
  rw [nfa?, ofTriples?, hnew]
  exact foldlM_addTriple? (n := D.bare) hmarker htransitions

theorem mapM_transition? [DigitLimit] (ts : List (Value × Value × Value)) (k : Nat) :
    ((ts.map fun t => Value.list [t.1, t.2.1, t.2.2]).zipIdx k).mapM
        (fun x => NfaConfig.transition? x.1 x.2) =
      .ok (ts.map fun t => Value.tuple [t.1, t.2.1, t.2.2]) := by
  induction ts generalizing k with
  | nil => rfl
  | cons t ts ih =>
    rw [List.map_cons, List.zipIdx_cons, List.mapM_cons, ih]
    rfl

/-- A configuration with the description is one of the same automaton. -/
theorem config_nfa? [DigitLimit] (D : Description) :
    D.config.nfa? = D.nfa?.mapError fun e => .automaton (.shape e) := by
  simp only [NfaConfig.nfa?, config, nfa?, triples]
  change ((D.transitions.map fun t => Value.list [t.1, t.2.1, t.2.2]).zipIdx.mapM
    (fun x => NfaConfig.transition? x.1 x.2) >>= _) = _
  rw [mapM_transition?]
  rfl

/-! ### What is stored -/

theorem linkAll_fields (n : Nfa) (ts : List (Value × Value × Value)) :
    (linkAll n ts).marker = n.marker ∧ (linkAll n ts).starts = n.starts ∧
      (linkAll n ts).accepts = n.accepts := by
  induction ts generalizing n with
  | nil => exact ⟨rfl, rfl, rfl⟩
  | cons t ts ih => exact ih (n.link t.1 t.2.1 t.2.2)

theorem hasEdge_linkAll : (linkAll n ts).HasEdge p a q ↔ n.HasEdge p a q ∨
    ∃ t ∈ ts, (t.1 == p) = true ∧ (t.2.1 == a) = true ∧ (t.2.2 == q) = true := by
  induction ts generalizing n with
  | nil => simp [linkAll]
  | cons t ts ih =>
    change (linkAll (n.link t.1 t.2.1 t.2.2) ts).HasEdge p a q ↔ _
    rw [ih, hasEdge_link, or_assoc, List.exists_mem_cons_iff]

theorem hasEdge_build : D.build.HasEdge p a q ↔
    ∃ t ∈ D.links, (t.1 == p) = true ∧ (t.2.1 == a) = true ∧ (t.2.2 == q) = true := by
  rw [build, hasEdge_linkAll]
  exact or_iff_right not_hasEdge_empty

/-- Targets are spelled as in the transitions that were added. -/
theorem mem_targets_linkAll (hq : q ∈ ((linkAll n ts).targets p a).toList) :
    q ∈ (n.targets p a).toList ∨ ∃ t ∈ ts, (t.1 == p) = true ∧ (t.2.1 == a) = true ∧ t.2.2 = q := by
  induction ts generalizing n with
  | nil => exact .inl hq
  | cons t ts ih =>
    rcases ih (n := n.link t.1 t.2.1 t.2.2) hq with hq | ⟨u, hu, hsame⟩
    · rw [targets_link] at hq
      split at hq
      · rename_i hsame
        rw [Bool.and_eq_true] at hsame
        rw [targets_congr hsame.1 hsame.2] at hq
        exact (OrderedSet.mem_toList_insert hq).imp_right fun hq =>
          ⟨t, List.mem_cons_self, hsame.1, hsame.2, hq.symm⟩
      · exact .inl hq
    · exact .inr ⟨u, List.mem_cons_of_mem t hu, hsame⟩

theorem stores_linkAll (h : n.Stores P) (hts : ∀ t ∈ ts, P t.1 ∧ P t.2.1 ∧ P t.2.2) :
    (linkAll n ts).Stores P := by
  induction ts generalizing n with
  | nil => exact h
  | cons t ts ih =>
    rw [List.forall_mem_cons] at hts
    exact ih (h.link hts.1.1 hts.1.2.1 hts.1.2.2) hts.2

theorem stores_build (h : ∀ x ∈ D.values, P x) : D.build.Stores P :=
  stores_linkAll (fun _ he => absurd he List.not_mem_nil) (forall_mem_links h)

theorem eq_of_beq_components (hP : Value.Legible P) {t u : Value × Value × Value}
    (ht : P t.1 ∧ P t.2.1 ∧ P t.2.2) (hu : P u.1 ∧ P u.2.1 ∧ P u.2.2)
    (h : (t.1 == u.1) = true ∧ (t.2.1 == u.2.1) = true ∧ (t.2.2 == u.2.2) = true) : t = u :=
  Prod.ext (hP.spelled ht.1 hu.1 h.1)
    (Prod.ext (hP.spelled ht.2.1 hu.2.1 h.2.1) (hP.spelled ht.2.2 hu.2.2 h.2.2))

/-- The transitions that are described are stored. -/
theorem mem_transitions_build (hP : Value.Legible P) (h : ∀ x ∈ D.values, P x)
    {t : Value × Value × Value} : t ∈ D.build.transitions ↔ t ∈ D.links := by
  constructor
  · intro ht
    obtain ⟨u, hu, hut⟩ := hasEdge_build.mp ⟨t, ht, BEq.rfl, BEq.rfl, BEq.rfl⟩
    rwa [← eq_of_beq_components hP (forall_mem_links h u hu)
      ((stores_build h).of_mem_transitions ht) hut]
  · intro ht
    obtain ⟨u, hu, hut⟩ := hasEdge_build.mpr ⟨t, ht, BEq.rfl, BEq.rfl, BEq.rfl⟩
    rwa [← eq_of_beq_components hP ((stores_build h).of_mem_transitions hu)
      (forall_mem_links h t ht) hut]

namespace SameSets

theorem symm (h : D.SameSets E) : E.SameSets D :=
  ⟨BEq.symm h.marker, BEq.symm h.transitions, BEq.symm h.starts, BEq.symm h.accepts⟩

theorem mem_transitions (h : D.SameSets E) (hP : Value.Legible P) (hD : ∀ x ∈ D.values, P x)
    (hE : ∀ x ∈ E.values, P x) {t : Value × Value × Value} (ht : t ∈ D.transitions) :
    t ∈ E.transitions := by
  obtain ⟨-, -, -, hD⟩ := forall_mem_values.mp hD
  obtain ⟨-, -, -, hE⟩ := forall_mem_values.mp hE
  have hspelled : ∀ x ∈ D.triples, ∀ y ∈ E.triples, (x == y) = true → x = y := by
    intro x hx y hy hxy
    obtain ⟨t, ht, rfl⟩ := List.mem_map.mp hx
    obtain ⟨u, hu, rfl⟩ := List.mem_map.mp hy
    have hcomponents := Value.beq_iff_canonical.mp hxy
    simp only [Value.canonical, Value.canonicalItems, Value.tuple.injEq, List.cons.injEq, and_true,
      ← Value.beq_iff_canonical] at hcomponents
    rw [eq_of_beq_components hP (hD t ht) (hE u hu) hcomponents]
  obtain ⟨u, hu, htu⟩ := List.mem_map.mp (OrderedSet.mem_of_beq_ofList h.transitions hspelled
    (List.mem_map_of_mem ht))
  simp only [Value.tuple.injEq, List.cons.injEq, and_true] at htu
  have : u = t := Prod.ext htu.1 (Prod.ext htu.2.1 htu.2.2)
  rwa [← this]

variable (h : D.SameSets E) (hP : Value.Legible P) (hD : ∀ x ∈ D.values, P x)
  (hE : ∀ x ∈ E.values, P x)

include h hP hD hE

theorem marker_eq : D.marker = E.marker :=
  hP.spelled (forall_mem_values.mp hD).1 (forall_mem_values.mp hE).1 h.marker

theorem mem_links_iff {t : Value × Value × Value} : t ∈ D.links ↔ t ∈ E.links := by
  rw [links, links, ← h.marker_eq hP hD hE, List.mem_map, List.mem_map]
  exact exists_congr fun u => and_congr_left fun _ =>
    ⟨h.mem_transitions hP hD hE, h.symm.mem_transitions hP hE hD⟩

/-- Descriptions of the same sets make automata that store the same. -/
theorem same_build : D.build.Same E.build := by
  obtain ⟨hmarker, hstarts, haccepts⟩ := linkAll_fields D.bare D.links
  obtain ⟨hmarker', hstarts', haccepts'⟩ := linkAll_fields E.bare E.links
  obtain ⟨-, hDstarts, hDaccepts, -⟩ := forall_mem_values.mp hD
  obtain ⟨-, hEstarts, hEaccepts, -⟩ := forall_mem_values.mp hE
  have hsame {xs ys : List Value} (hxs : ∀ x ∈ xs, P x) (hys : ∀ y ∈ ys, P y)
      (h : (OrderedSet.ofList xs == OrderedSet.ofList ys) = true) :
      ValueSet.Same (OrderedSet.ofList xs) (OrderedSet.ofList ys) :=
    ValueSet.same_of_beq hP (fun x hx => hxs x (OrderedSet.mem_of_mem_toList_ofList hx))
      (fun y hy => hys y (OrderedSet.mem_of_mem_toList_ofList hy)) h
  constructor
  case marker => exact hmarker.trans ((h.marker_eq hP hD hE).trans hmarker'.symm)
  case starts =>
    rw [build, build, hstarts, hstarts']
    exact hsame hDstarts hEstarts h.starts
  case accepts =>
    rw [build, build, haccepts, haccepts']
    exact hsame hDaccepts hEaccepts h.accepts
  case transitions =>
    refine (List.perm_ext_iff_of_nodup (nodup_transitions _) (nodup_transitions _)).mpr fun t => ?_
    rw [mem_transitions_build hP hD, mem_transitions_build hP hE]
    exact h.mem_links_iff hP hD hE

end SameSets

end Description

end Nfa

end Determinize
