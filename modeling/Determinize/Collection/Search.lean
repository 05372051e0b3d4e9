import Determinize.Collection.OrderedSet

/-!
# Worklist search

A search explores a graph from given roots. It keeps the nodes discovered so far, in the order of
their discovery, the nodes that wait to be expanded, and the nodes expanded. A step expands the next
waiting node: those of its successors that are new are discovered and have to wait in turn, at the
end of the queue under `Discipline.fifo` and at its front, the last one first, under
`Discipline.lifo`.

## Main definitions

* `Discipline` — first in, first out, or last in, first out.
* `Search`, `Search.start`, `Search.expand`, `Search.run`.
-/

namespace Determinize

/-- The order in which waiting nodes are expanded. -/
inductive Discipline where
  /-- First in, first out: breadth first. -/
  | fifo
  /-- Last in, first out: depth first. -/
  | lifo
  deriving DecidableEq

/-- The name of an order of expansion. -/
def Discipline.name : Discipline → String
  | fifo => "fifo"
  | lifo => "lifo"

/-- The waiting nodes, the next one first, after the nodes `fresh` were discovered in this order. -/
def Discipline.schedule {σ : Type} : Discipline → (waiting fresh : List σ) → List σ
  | fifo, waiting, fresh => waiting ++ fresh
  | lifo, waiting, fresh => fresh.reverse ++ waiting

/-- The state of a search. -/
structure Search (σ : Type) [BEq σ] where
  /-- The nodes found so far, in the order of their discovery. -/
  discovered : OrderedSet σ
  /-- The nodes that wait to be expanded, the next one first. -/
  waiting : List σ
  /-- The nodes that were expanded, in this order. -/
  expanded : List σ

namespace Search

variable {σ : Type} [BEq σ] (d : Discipline) (next : σ → List σ)

/-- The search from the given roots, before its first step. -/
def start (roots : List σ) : Search σ :=
  let found := OrderedSet.ofList roots
  ⟨found, d.schedule [] found.toList, []⟩

/-- The nodes of a list that were not discovered yet, without repetitions. -/
def fresh (s : Search σ) (nodes : List σ) : List σ :=
  (OrderedSet.ofList nodes).toList.filter fun x => !s.discovered.contains x

/-- Expands the next waiting node. -/
def expand (s : Search σ) : Search σ :=
  match s.waiting with
  | [] => s
  | current :: waiting =>
    let found := s.fresh (next current)
    ⟨s.discovered.insertAll found, d.schedule waiting found, s.expanded ++ [current]⟩

/-- Expands waiting nodes until there are none, at most `bound` of them. -/
def run : (bound : Nat) → Search σ → Search σ
  | 0, s => s
  | bound + 1, s => if s.waiting.isEmpty then s else run bound (s.expand d next)

end Search

end Determinize
