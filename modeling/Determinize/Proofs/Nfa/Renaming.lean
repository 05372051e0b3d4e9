import Determinize.Proofs.Collection.Image
import Determinize.Proofs.Construction.SubsetAutomaton
import Determinize.Proofs.Nfa.Description

/-!
# Renamed nondeterministic automata

States and symbols are opaque: nothing is asked of them but whether they are equal. So if the states
of an automaton, its labels and its marker are renamed by functions that tell the different apart and
respect equality, the transitions, closures and successors of the renamed automaton are the images of
those of the automaton.

## Main definitions

* `Nfa.letters` — the marker, the labels and further symbols.
* `Nfa.Renamed` — an automaton has the images of what another one has.
* `Nfa.rename?` — adding the images of the transitions, one after the other.
* `Nfa.IsImage` — images of sets of states.

## Main results

* `Nfa.exists_rename?` — automata can be renamed.
* `Nfa.Renamed.isImage_closure`, `Nfa.Renamed.isImage_successor`, `Nfa.Renamed.isAccepting_eq`.
-/

namespace Determinize

/-- If the images of the members are hashable, so are those of the values that equal members. -/
theorem OrderedSet.Faithful.hashable {S : ValueSet} {f : Value → Value} (hf : S.Faithful f)
    (hS : ∀ x ∈ S.toList, (f x).Hashable) (x : Value) (hx : S.contains x = true) :
    (f x).Hashable := by
  obtain ⟨y, hy, hyx⟩ := OrderedSet.contains_iff.mp hx
  exact (Value.hashable_congr (hf.beq_of_beq (OrderedSet.contains_of_mem hy) hyx)).mp (hS y hy)

namespace Nfa

/-- The marker, the labels of the transitions and the given symbols. -/
def letters (n : Nfa) (symbols : List Value) : ValueSet :=
  OrderedSet.ofList (n.marker :: (n.transitions.map (·.2.1) ++ symbols))

/-- The images of the start states, the accept states, the marker and the transitions of an automaton
are those of another one. -/
structure Renamed (f g : Value → Value) (n n' : Nfa) : Prop where
  marker : (g n.marker == n'.marker) = true
  starts : (n.starts.image f == n'.starts) = true
  accepts : (n.accepts.image f == n'.accepts) = true
  hasEdge : ∀ p a q, n'.HasEdge p a q ↔
    ∃ t ∈ n.transitions, (f t.1 == p) = true ∧ (g t.2.1 == a) = true ∧ (f t.2.2 == q) = true

/-- The automaton with the images of the start states, the accept states and the marker, after the
images of the transitions were added. -/
def rename? (n : Nfa) (f g : Value → Value) : Except ShapeError Nfa := do
  let bare ← new? (.list (n.starts.toList.map f)) (.list (n.accepts.toList.map f)) (g n.marker)
  (n.transitions.map fun t => (f t.1, g t.2.1, f t.2.2)).foldlM
    (fun n' t => n'.add? t.1 t.2.1 t.2.2) bare

/-- The set `T` is the image of a set `S` of states of the automaton. -/
structure IsImage (n : Nfa) (f : Value → Value) (S T : ValueSet) : Prop where
  isSubset : S.isSubset n.states = true
  beq : (S.image f == T) = true

variable {n n' : Nfa} {f g : Value → Value} {p a q p' a' q' : Value} {S T : ValueSet}
  {symbols : List Value}

/-! ### Letters -/

theorem contains_letters_marker (n : Nfa) (symbols : List Value) :
    (n.letters symbols).contains n.marker = true :=
  OrderedSet.contains_ofList_of_mem List.mem_cons_self

theorem contains_letters_of_mem_transitions {t : Value × Value × Value} (ht : t ∈ n.transitions) :
    (n.letters symbols).contains t.2.1 = true :=
  OrderedSet.contains_ofList_of_mem
    (List.mem_cons_of_mem _ (List.mem_append_left _ (List.mem_map_of_mem ht)))

theorem contains_letters_of_mem (ha : a ∈ symbols) : (n.letters symbols).contains a = true :=
  OrderedSet.contains_ofList_of_mem (List.mem_cons_of_mem _ (List.mem_append_right _ ha))

/-! ### Images of sets -/

namespace IsImage

variable (h : n.IsImage f S T)

include h

theorem contains_states (hp : S.contains p = true) : n.states.contains p = true :=
  OrderedSet.isSubset_iff.mp h.isSubset p hp

theorem contains_iff (hf : n.states.Faithful f) :
    T.contains q' = true ↔ ∃ q, S.contains q = true ∧ (f q == q') = true := by
  rw [← OrderedSet.beq_iff.mp h.beq, hf.contains_image_iff h.isSubset]

end IsImage

/-- Images of sets of states are equal if and only if the sets are. -/
theorem respectsBEq_isImage (hf : n.states.Faithful f) : RespectsBEq (n.IsImage f) := by
  intro S T S' T' hST hST'
  rw [← hf.beq_image hST.isSubset hST'.isSubset, BEq.congr_left hST.beq, BEq.congr_right hST'.beq]

/-! ### Renaming -/

theorem foldlM_add? {ts : List (Value × Value × Value)}
    (hhash : ∀ t ∈ ts, t.1.Hashable ∧ t.2.1.Hashable ∧ t.2.2.Hashable) :
    ts.foldlM (fun n t => n.add? t.1 t.2.1 t.2.2) n = .ok (Description.linkAll n ts) := by
  induction ts generalizing n with
  | nil => rfl
  | cons t ts ih =>
    rw [List.forall_mem_cons] at hhash
    rw [List.foldlM_cons, Description.add?_of_hashable hhash.1.1 hhash.1.2.1 hhash.1.2.2]
    exact ih hhash.2

/-- An automaton can be renamed if the images can be members of sets. -/
theorem exists_rename? (hstates : ∀ p, n.states.contains p = true → (f p).Hashable)
    (hlabels : ∀ t ∈ n.transitions, (g t.2.1).Hashable) :
    ∃ n', n.rename? f g = .ok n' ∧ n.Renamed f g n' := by
  have hset (S : ValueSet) (hS : S.isSubset n.states = true) :
      ValueSet.ofValue? (.list (S.toList.map f)) = .ok (S.image f) :=
    ValueSet.ofValue?_list (List.forall_mem_map.mpr fun p hp =>
      hstates p (OrderedSet.isSubset_iff.mp hS p (OrderedSet.contains_of_mem hp)))
  let ts := n.transitions.map fun t => (f t.1, g t.2.1, f t.2.2)
  have hts : ∀ t ∈ ts, t.1.Hashable ∧ t.2.1.Hashable ∧ t.2.2.Hashable :=
    List.forall_mem_map.mpr fun t ht =>
      ⟨hstates _ (contains_states_of_mem ht).1, hlabels t ht,
        hstates _ (contains_states_of_mem ht).2⟩
  let bare : Nfa := ⟨n.starts.image f, n.accepts.image f, g n.marker, .empty⟩
  have hnew : new? (.list (n.starts.toList.map f)) (.list (n.accepts.toList.map f))
      (g n.marker) = .ok bare := by
    rw [new?, hset _ n.starts_isSubset_states, hset _ n.accepts_isSubset_states]
    rfl
  obtain ⟨hmarker, hstarts, haccepts⟩ := Description.linkAll_fields bare ts
  refine ⟨Description.linkAll bare ts, ?_, ?_⟩
  · rw [rename?, hnew]
    exact foldlM_add? hts
  · constructor
    case marker => rw [hmarker]; exact BEq.rfl
    case starts => rw [hstarts]; exact BEq.rfl
    case accepts => rw [haccepts]; exact BEq.rfl
    case hasEdge =>
      intro p a q
      rw [Description.hasEdge_linkAll, or_iff_right not_hasEdge_empty]
      simp only [ts, List.mem_map, exists_exists_and_eq_and]

/-! ### What the renamed automaton has -/

namespace Renamed

variable (h : n.Renamed f g n') (hf : n.states.Faithful f) (hg : (n.letters symbols).Faithful g)

include h hf

section

include hg

/-- The transitions from the image of a state are the images of those from the state. -/
theorem hasEdge_iff (hp : n.states.contains p = true) (ha : (n.letters symbols).contains a = true)
    (hpp' : (f p == p') = true) (haa' : (g a == a') = true) :
    n'.HasEdge p' a' q' ↔ ∃ q, n.HasEdge p a q ∧ (f q == q') = true := by
  rw [h.hasEdge]
  constructor
  · rintro ⟨t, ht, htp, hta, htq⟩
    have hsource := hf t.1 p (contains_states_of_mem ht).1 hp
    have hlabel := hg t.2.1 a (contains_letters_of_mem_transitions ht) ha
    rw [BEq.trans htp (BEq.symm hpp')] at hsource
    rw [BEq.trans hta (BEq.symm haa')] at hlabel
    exact ⟨t.2.2, ⟨t, ht, hsource.symm, hlabel.symm, BEq.rfl⟩, htq⟩
  · rintro ⟨q, ⟨t, ht, htp, hta, htq⟩, hqq'⟩
    exact ⟨t, ht, BEq.trans (hf.beq_of_beq (contains_states_of_mem ht).1 htp) hpp',
      BEq.trans (hg.beq_of_beq (contains_letters_of_mem_transitions ht) hta) haa',
      BEq.trans (hf.beq_of_beq (contains_states_of_mem ht).2 htq) hqq'⟩

theorem silent (hp : n.states.contains p = true) (hpq : n.Silent p q) :
    n'.Silent (f p) (f q) := by
  refine (hpq.induction (P := fun x => n.states.contains x = true ∧ n'.Silent (f p) (f x))
    ⟨hp, .refl BEq.rfl⟩ ?_ ?_).2
  · rintro x y hxy ⟨hx, hpx⟩
    exact ⟨n.states.contains_congr hxy ▸ hx, hpx.trans (.refl (hf.beq_of_beq hx hxy))⟩
  · rintro x y hxy ⟨hx, hpx⟩
    have hedge := (h.hasEdge_iff hf hg hx (n.contains_letters_marker symbols) BEq.rfl
      h.marker).mpr ⟨y, hxy, BEq.rfl⟩
    exact ⟨hxy.contains_states, hpx.trans (.of_edge hedge)⟩

/-- A silent path from the image of a state ends in an image. -/
theorem exists_silent (hp : n.states.contains p = true) (hpp' : (f p == p') = true)
    (hpq : n'.Silent p' q') : ∃ q, n.Silent p q ∧ (f q == q') = true := by
  refine hpq.induction (P := fun x' => ∃ x, n.Silent p x ∧ (f x == x') = true)
    ⟨p, .refl BEq.rfl, hpp'⟩ ?_ ?_
  · rintro x' y' hxy ⟨x, hpx, hxx'⟩
    exact ⟨x, hpx, BEq.trans hxx' hxy⟩
  · rintro x' y' hedge ⟨x, hpx, hxx'⟩
    obtain ⟨y, hxy, hyy'⟩ := (h.hasEdge_iff hf hg (hpx.contains_states hp)
      (n.contains_letters_marker symbols) hxx' h.marker).mp hedge
    exact ⟨y, hpx.trans (.of_edge hxy), hyy'⟩

/-- The closure of the image of a set is the image of its closure. -/
theorem isImage_closure (hST : n.IsImage f S T) :
    n.IsImage f (n.closure S) (n'.closure T) := by
  refine ⟨closure_isSubset_states hST.isSubset, OrderedSet.beq_iff.mpr fun q' => ?_⟩
  rw [Bool.eq_iff_iff, hf.contains_image_iff (closure_isSubset_states hST.isSubset),
    contains_closure_iff]
  constructor
  · rintro ⟨q, hq, hqq'⟩
    obtain ⟨p, hp, hpq⟩ := contains_closure_iff.mp hq
    have hpath := h.silent hf hg (hST.contains_states hp) hpq
    exact ⟨f p, (hST.contains_iff hf).mpr ⟨p, hp, BEq.rfl⟩, hpath.trans (.refl hqq')⟩
  · rintro ⟨p', hp', hpath⟩
    obtain ⟨p, hp, hpp'⟩ := (hST.contains_iff hf).mp hp'
    obtain ⟨q, hpq, hqq'⟩ := h.exists_silent hf hg (hST.contains_states hp) hpp' hpath
    exact ⟨q, contains_closure_iff.mpr ⟨p, hp, hpq⟩, hqq'⟩

variable (ha : (n.letters symbols).contains a = true) (haa' : (g a == a') = true)

include ha haa'

/-- The move of the image of a set is the image of its move. -/
theorem isImage_move (hST : n.IsImage f S T) :
    n.IsImage f (n.move S.toList a) (n'.move T.toList a') := by
  have hmove := n.move_isSubset_states S.toList a
  refine ⟨hmove, OrderedSet.beq_iff.mpr fun q' => ?_⟩
  rw [Bool.eq_iff_iff, hf.contains_image_iff hmove, contains_move_iff]
  constructor
  · rintro ⟨q, hq, hqq'⟩
    obtain ⟨p, hp, hpq⟩ := contains_move_iff.mp hq
    have hpS := OrderedSet.contains_of_mem hp
    obtain ⟨p', hp', hpp'⟩ :=
      OrderedSet.contains_iff.mp ((hST.contains_iff hf).mpr ⟨p, hpS, BEq.rfl⟩)
    exact ⟨p', hp', (h.hasEdge_iff hf hg (hST.contains_states hpS) ha (BEq.symm hpp') haa').mpr
      ⟨q, hpq, hqq'⟩⟩
  · rintro ⟨p', hp', hedge⟩
    obtain ⟨p, hp, hpp'⟩ := (hST.contains_iff hf).mp (OrderedSet.contains_of_mem hp')
    obtain ⟨q, hpq, hqq'⟩ :=
      (h.hasEdge_iff hf hg (hST.contains_states hp) ha hpp' haa').mp hedge
    obtain ⟨r, hr, hrp⟩ := OrderedSet.contains_iff.mp hp
    exact ⟨q, contains_move_iff.mpr ⟨r, hr, hpq.congr (BEq.symm hrp) BEq.rfl BEq.rfl⟩, hqq'⟩

/-- The successor of the image of a set is the image of its successor. -/
theorem isImage_successor (hST : n.IsImage f S T) :
    n.IsImage f (n.successor S a) (n'.successor T a') :=
  h.isImage_closure hf hg (h.isImage_move hf hg ha haa' hST)

end

omit hf in
theorem isImage_starts : n.IsImage f n.starts n'.starts := ⟨n.starts_isSubset_states, h.starts⟩

omit hf in
theorem isImage_accepts : n.IsImage f n.accepts n'.accepts := ⟨n.accepts_isSubset_states, h.accepts⟩

/-- The image of a set accepts if the set does. -/
theorem isAccepting_eq (hST : n.IsImage f S T) : n'.isAccepting T = n.isAccepting S := by
  have haccepts := h.isImage_accepts
  rw [Bool.eq_iff_iff, isAccepting_iff, isAccepting_iff]
  constructor
  · rintro ⟨q', hq', hT⟩
    obtain ⟨q, hq, hqq'⟩ := (haccepts.contains_iff hf).mp hq'
    rw [← OrderedSet.contains_congr _ hqq', ← OrderedSet.beq_iff.mp hST.beq,
      hf.contains_image hST.isSubset (haccepts.contains_states hq)] at hT
    exact ⟨q, hq, hT⟩
  · rintro ⟨q, hq, hS⟩
    exact ⟨f q, (haccepts.contains_iff hf).mpr ⟨q, hq, BEq.rfl⟩,
      (hST.contains_iff hf).mpr ⟨q, hS, BEq.rfl⟩⟩

end Renamed

end Nfa

end Determinize
