import Determinize.Proofs.Collection.Search

/-!
# Depth-first searches are recursive visits

A visit of a node first notes those of its successors that were not found before, in order, and then
visits the nodes it has noted, the last one first. Each of these visits is complete, with everything
that is found in it, before the next one begins; all of them share the list of the nodes found.

A search last in, first out has no recursion but a stack of waiting nodes. It finds the nodes in the
order of the visits: what it does until the stack is as low as before a node was put on it is the
visit of the node.

## Main definitions

* `newNodes` — the nodes that a visit notes.
* `Visits` — visits of nodes, one after the other.

## Main results

* `Visits.eq_of_visits` — visits have one result.
* `Search.visits_run` — a search against the visits of its waiting nodes.
-/

namespace Determinize

section Visits

variable {σ : Type} [BEq σ]

/-- The nodes of a list that equal none of the nodes found and none before them in the list. -/
def newNodes (found : List σ) : List σ → List σ
  | [] => []
  | x :: xs =>
    if found.any (· == x) then newNodes found xs else x :: newNodes (found ++ [x]) xs

/-- With the nodes `found` before, visits of the given nodes, one after the other, have found the
nodes `last` in the end. -/
inductive Visits (next : σ → List σ) : (found nodes last : List σ) → Prop
  | nil (found : List σ) : Visits next found [] found
  | cons {found nodes after last : List σ} {x : σ}
      (inner : Visits next (found ++ newNodes found (next x)) (newNodes found (next x)).reverse
        after)
      (rest : Visits next after nodes last) : Visits next found (x :: nodes) last

variable {next : σ → List σ} {found last last' xs ys : List σ}

/-- Visits have one result. -/
theorem Visits.eq_of_visits (h : Visits next found xs last) (h' : Visits next found xs last') :
    last = last' := by
  induction h generalizing last' with
  | nil =>
    cases h'
    rfl
  | cons _ _ ihInner ihRest =>
    cases h' with
    | cons inner' rest' =>
      obtain rfl := ihInner inner'
      exact ihRest rest'

/-- Visits of some nodes and then of others. -/
theorem Visits.exists_of_append (h : Visits next found (xs ++ ys) last) :
    ∃ after, Visits next found xs after ∧ Visits next after ys last := by
  induction xs generalizing found with
  | nil => exact ⟨found, .nil found, h⟩
  | cons x xs ih =>
    cases h with
    | cons inner rest =>
      obtain ⟨after, hxs, hys⟩ := ih rest
      exact ⟨after, .cons inner hxs, hys⟩

end Visits

/-! ### Searches -/

section Search

variable {σ : Type} [BEq σ] [EquivBEq σ]

/-- The members of a set that are not among the nodes found are those that a visit notes. -/
theorem OrderedSet.filter_insertAll (found s : OrderedSet σ) (nodes : List σ) :
    (s.insertAll nodes).toList.filter (fun x => !found.contains x) =
      s.toList.filter (fun x => !found.contains x) ++
        newNodes (found.toList ++ s.toList.filter fun x => !found.contains x) nodes := by
  induction nodes generalizing s with
  | nil => exact (List.append_nil _).symm
  | cons x nodes ih =>
    have hstep : s.insertAll (x :: nodes) = (s.insert x).insertAll nodes := rfl
    rw [hstep, ih, newNodes, toList_insert, List.any_append]
    change _ = _ ++ if (found.contains x || _) = true then _ else _
    cases hfound : found.contains x with
    | true =>
      have hkeep : (s.toList ++ [x]).filter (fun x => !found.contains x) =
          s.toList.filter fun x => !found.contains x := by simp [hfound]
      rw [Bool.true_or, if_pos rfl]
      split
      · rfl
      · rw [hkeep]
    | false =>
      have hany : (s.toList.filter fun x => !found.contains x).any (· == x) = s.contains x := by
        rw [List.any_filter, contains]
        refine List.any_congr rfl fun y => ?_
        cases hyx : y == x with
        | false => exact Bool.and_false _
        | true => simp [contains_congr found hyx, hfound]
      rw [Bool.false_or, hany]
      cases hs : s.contains x with
      | true => rfl
      | false => simp [hfound]

namespace Search

variable {next : σ → List σ} {s : Search σ} {bound : Nat}

/-- A search discovers the nodes that a visit notes. -/
theorem fresh_eq_newNodes (s : Search σ) (nodes : List σ) :
    s.fresh nodes = newNodes s.discovered.toList nodes :=
  (OrderedSet.filter_insertAll s.discovered .empty nodes).trans (by simp [OrderedSet.empty])

/-- A search last in, first out that has come to its end has visited its waiting nodes. -/
theorem visits_run (h : (s.run .lifo next bound).waiting = []) :
    Visits next s.discovered.toList s.waiting (s.run .lifo next bound).discovered.toList := by
  induction bound generalizing s with
  | zero =>
    have hwaiting : s.waiting = [] := h
    rw [hwaiting]
    exact .nil _
  | succ bound ih =>
    rw [Search.run] at h ⊢
    cases hw : s.waiting with
    | nil => exact .nil _
    | cons x waiting =>
      simp only [hw, List.isEmpty_cons, Bool.false_eq_true, if_false] at h ⊢
      have hwaiting : (s.expand .lifo next).waiting =
          (newNodes s.discovered.toList (next x)).reverse ++ waiting := by
        rw [expand_of_waiting_eq_cons hw, fresh_eq_newNodes]
        rfl
      have hrest := ih h
      rw [toList_discovered_expand hw, fresh_eq_newNodes, hwaiting] at hrest
      obtain ⟨after, hinner, hafter⟩ := hrest.exists_of_append
      exact .cons hinner hafter

end Search

end Search

end Determinize
