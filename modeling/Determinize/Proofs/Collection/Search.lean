import Determinize.Collection.Search
import Determinize.Proofs.Collection.Member

/-!
# Worklist searches find what can be reached

A search never loses a node: the nodes it has discovered are those it has expanded and those that
wait, each once, and the successors of an expanded node are discovered. Hence the nodes discovered
by a search without waiting nodes are closed under successors. Only roots and successors of
discovered nodes are ever discovered, so what holds of the roots and passes to successors holds of
all discovered nodes.

A search ends because no node is expanded twice: it has no waiting nodes left after as many steps as
there are nodes that it can discover.

## Main definitions

* `Search.Valid` — the invariant of a search.

## Main results

* `Search.Valid.expand`, `Search.Valid.run` — the invariant is kept.
* `Search.forall_discovered_run` — properties of the discovered nodes.
* `Search.waiting_run_eq_nil` — the search ends.
* `Search.Valid.contains_next` — the result is closed under successors.
-/

namespace Determinize

theorem Discipline.perm_schedule {σ : Type} (d : Discipline) (waiting fresh : List σ) :
    (d.schedule waiting fresh).Perm (waiting ++ fresh) := by
  cases d with
  | fifo => exact .refl _
  | lifo => exact ((List.reverse_perm fresh).append_right waiting).trans List.perm_append_comm

namespace Search

variable {σ : Type} [BEq σ] {d : Discipline} {next : σ → List σ} {s : Search σ}

/-- No discovered node is lost: it was expanded or waits, and the successors of the expanded nodes
are discovered. -/
structure Valid (next : σ → List σ) (s : Search σ) : Prop where
  accounted : s.discovered.toList.Perm (s.expanded ++ s.waiting)
  closed : ∀ x ∈ s.expanded, ∀ y ∈ next x, s.discovered.contains y = true

/-! ### One step -/

theorem mem_of_mem_fresh {nodes : List σ} {x : σ} (hx : x ∈ s.fresh nodes) : x ∈ nodes :=
  OrderedSet.mem_of_mem_toList_ofList (List.mem_filter.mp hx).1

theorem contains_eq_false_of_mem_fresh {nodes : List σ} {x : σ} (hx : x ∈ s.fresh nodes) :
    s.discovered.contains x = false := by
  simpa using (List.mem_filter.mp hx).2

theorem pairwise_fresh (s : Search σ) (nodes : List σ) :
    (s.fresh nodes).Pairwise fun a b => (a == b) = false :=
  (OrderedSet.ofList nodes).distinct.sublist List.filter_sublist

theorem expand_of_waiting_eq_cons {current : σ} {waiting : List σ}
    (h : s.waiting = current :: waiting) :
    s.expand d next =
      ⟨s.discovered.insertAll (s.fresh (next current)),
        d.schedule waiting (s.fresh (next current)), s.expanded ++ [current]⟩ := by
  simp only [expand, h]

theorem contains_discovered_of_prefix {s t : Search σ}
    (h : s.discovered.toList <+: t.discovered.toList) {x : σ}
    (hx : s.discovered.contains x = true) : t.discovered.contains x = true := by
  obtain ⟨y, hy, hyx⟩ := OrderedSet.contains_iff.mp hx
  exact OrderedSet.contains_iff.mpr ⟨y, h.subset hy, hyx⟩

theorem valid_start (d : Discipline) (next : σ → List σ) (roots : List σ) :
    (start d roots).Valid next := by
  refine ⟨?_, fun x hx => absurd hx List.not_mem_nil⟩
  simpa [start] using (d.perm_schedule [] (OrderedSet.ofList roots).toList).symm

section Step

variable [EquivBEq σ]

theorem toList_discovered_expand {current : σ} {waiting : List σ}
    (h : s.waiting = current :: waiting) :
    (s.expand d next).discovered.toList = s.discovered.toList ++ s.fresh (next current) := by
  rw [expand_of_waiting_eq_cons h]
  exact OrderedSet.toList_insertAll_of_new (s.pairwise_fresh _) fun _ =>
    contains_eq_false_of_mem_fresh

/-- A step discovers the successors of the expanded node. -/
theorem contains_discovered_expand {current : σ} {waiting : List σ}
    (h : s.waiting = current :: waiting) {y : σ} (hy : y ∈ next current) :
    (s.expand d next).discovered.contains y = true := by
  rw [expand_of_waiting_eq_cons h, OrderedSet.contains_insertAll, Bool.or_eq_true]
  cases hold : s.discovered.contains y with
  | true => exact Or.inl rfl
  | false =>
    refine Or.inr (List.any_eq_true.mpr ?_)
    obtain ⟨x, hx, hxy⟩ := OrderedSet.contains_iff.mp (OrderedSet.contains_ofList_of_mem hy)
    refine ⟨x, List.mem_filter.mpr ⟨hx, ?_⟩, hxy⟩
    rw [OrderedSet.contains_congr s.discovered hxy, hold, Bool.not_false]

theorem prefix_discovered_expand (s : Search σ) :
    s.discovered.toList <+: (s.expand d next).discovered.toList := by
  cases h : s.waiting with
  | nil => simp only [expand, h, List.prefix_refl]
  | cons current waiting =>
    rw [toList_discovered_expand h]
    exact List.prefix_append ..

theorem Valid.expand (hs : s.Valid next) : (s.expand d next).Valid next := by
  cases h : s.waiting with
  | nil =>
    have : s.expand d next = s := by simp only [Search.expand, h]
    rwa [this]
  | cons current waiting =>
    refine ⟨?_, ?_⟩
    · rw [toList_discovered_expand h, expand_of_waiting_eq_cons h]
      have hwait := d.perm_schedule waiting (s.fresh (next current))
      calc (s.discovered.toList ++ s.fresh (next current)).Perm
            (s.expanded ++ current :: waiting ++ s.fresh (next current)) :=
              (h ▸ hs.accounted).append_right _
        List.Perm _ (s.expanded ++ [current] ++ (waiting ++ s.fresh (next current))) := by
              simp only [List.append_assoc, List.cons_append, List.nil_append, List.Perm.refl]
        List.Perm _ (s.expanded ++ [current] ++
            d.schedule waiting (s.fresh (next current))) := hwait.symm.append_left _
    · intro x hx y hy
      rw [expand_of_waiting_eq_cons h] at hx
      rcases List.mem_append.mp hx with hx | hx
      · exact contains_discovered_of_prefix (prefix_discovered_expand s) (hs.closed x hx y hy)
      · rw [List.mem_singleton.mp hx] at hy
        exact contains_discovered_expand h hy

end Step

/-! ### Runs -/

/-- What holds at first and is kept by every step holds at the end of a run. -/
theorem run_induction {P : Search σ → Prop} (hs : P s) (hstep : ∀ s, P s → P (s.expand d next))
    (bound : Nat) : P (s.run d next bound) := by
  induction bound generalizing s with
  | zero => exact hs
  | succ bound ih =>
    rw [run]
    split
    · exact hs
    · exact ih (hstep s hs)

/-- What holds of the roots and passes to successors holds of all discovered nodes. -/
theorem forall_discovered_run {P : σ → Prop} {roots : List σ} (hroot : ∀ r ∈ roots, P r)
    (hnext : ∀ x, P x → ∀ y ∈ next x, P y) (bound : Nat) :
    ∀ x ∈ ((start d roots).run d next bound).discovered.toList, P x := by
  have hmem (t : Search σ) : (∀ x ∈ t.discovered.toList, P x) ∧ (∀ x ∈ t.waiting, P x) →
      (∀ x ∈ (t.expand d next).discovered.toList, P x) ∧ ∀ x ∈ (t.expand d next).waiting, P x := by
    rintro ⟨hfound, hwait⟩
    cases h : t.waiting with
    | nil =>
      have : t.expand d next = t := by simp only [Search.expand, h]
      rw [this]
      exact ⟨hfound, hwait⟩
    | cons current waiting =>
      rw [h, List.forall_mem_cons] at hwait
      have hfresh : ∀ x ∈ t.fresh (next current), P x := fun x hx =>
        hnext current hwait.1 x (mem_of_mem_fresh hx)
      rw [expand_of_waiting_eq_cons h]
      refine ⟨fun x hx => ?_, fun x hx => ?_⟩
      · exact (OrderedSet.mem_toList_insertAll hx).elim (hfound x) (hfresh x)
      · exact (List.mem_append.mp ((d.perm_schedule ..).subset hx)).elim (hwait.2 x) (hfresh x)
  have hstart : ∀ x ∈ (OrderedSet.ofList roots).toList, P x := fun x hx =>
    hroot x (OrderedSet.mem_of_mem_toList_ofList hx)
  refine (run_induction ⟨hstart, fun x hx => hstart x ?_⟩ hmem bound).1
  simpa using (d.perm_schedule ..).subset hx

/-- A run that is not finished has expanded as many nodes as it was allowed to. -/
theorem waiting_run_eq_nil_or_length_expanded (d : Discipline) (next : σ → List σ)
    (s : Search σ) (bound : Nat) :
    (s.run d next bound).waiting = [] ∨
      (s.run d next bound).expanded.length = s.expanded.length + bound := by
  induction bound generalizing s with
  | zero => exact Or.inr rfl
  | succ bound ih =>
    rw [Search.run]
    split
    · rename_i h
      exact Or.inl (List.isEmpty_iff.mp h)
    · rename_i h
      cases hw : s.waiting with
      | nil => simp [hw] at h
      | cons current waiting =>
        refine (ih (s.expand d next)).imp_right fun hlen => ?_
        rw [hlen, expand_of_waiting_eq_cons hw, List.length_append, List.length_singleton]
        omega

/-- Without waiting nodes, the discovered nodes are the expanded ones. -/
theorem Valid.perm_expanded (hs : s.Valid next) (h : s.waiting = []) :
    s.discovered.toList.Perm s.expanded := by
  simpa [h] using hs.accounted

/-- Without waiting nodes, the discovered nodes are closed under successors. -/
theorem Valid.contains_next (hs : s.Valid next) (h : s.waiting = []) {x y : σ}
    (hx : x ∈ s.discovered.toList) (hy : y ∈ next x) : s.discovered.contains y = true :=
  hs.closed x ((hs.perm_expanded h).subset hx) y hy

section Run

variable [EquivBEq σ]

theorem Valid.run (hs : s.Valid next) (d : Discipline) (bound : Nat) :
    (s.run d next bound).Valid next :=
  run_induction hs (fun _ => Valid.expand) bound

theorem prefix_discovered_run (s : Search σ) (bound : Nat) :
    s.discovered.toList <+: (s.run d next bound).discovered.toList :=
  run_induction (P := fun t => s.discovered.toList <+: t.discovered.toList) (List.prefix_refl _)
    (fun t h => h.trans (prefix_discovered_expand t)) bound

/-- A search ends: no more nodes are expanded than there are nodes to discover. -/
theorem waiting_run_eq_nil (nodes : List σ) {P : σ → Prop} {roots : List σ}
    (hroot : ∀ r ∈ roots, P r) (hnext : ∀ x, P x → ∀ y ∈ next x, P y)
    (hcover : ∀ x, P x → ∃ y ∈ nodes, (x == y) = true) {bound : Nat}
    (hbound : nodes.length ≤ bound) : ((start d roots).run d next bound).waiting = [] := by
  have hlen := ((valid_start d next roots).run d bound).accounted.length_eq
  have hsize := OrderedSet.size_le_of_covered fun x hx =>
    hcover x (forall_discovered_run (d := d) hroot hnext bound x hx)
  rw [List.length_append] at hlen
  rcases waiting_run_eq_nil_or_length_expanded d next (start d roots) bound with hdone | hmany
  · exact hdone
  · have hfirst : (start d roots).expanded.length = 0 := rfl
    refine List.eq_nil_of_length_eq_zero ?_
    rw [OrderedSet.size] at hsize
    omega

/-- The roots are discovered. -/
theorem contains_run_of_mem_roots {roots : List σ} {r : σ} (hr : r ∈ roots) (bound : Nat) :
    ((start d roots).run d next bound).discovered.contains r = true := by
  have hstart : (start d roots).discovered.contains r = true :=
    OrderedSet.contains_ofList_of_mem hr
  exact contains_discovered_of_prefix (prefix_discovered_run _ bound) hstart

end Run

end Search

end Determinize
