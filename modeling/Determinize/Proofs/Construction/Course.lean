import Determinize.Proofs.Construction.Observation
import Determinize.Proofs.Construction.Worklist
import Determinize.Proofs.Dfa.Incomplete
import Determinize.Proofs.Dfa.Restored
import Determinize.Proofs.Nfa.ClosureOperator

/-!
# The course of a conversion

A conversion makes its automaton step by step. It keeps a registry of the sets that were found, a queue
of the sets that wait, the automaton as it is so far, and a log. A set that is found is recorded in the
log, registered, added to the automaton and put at the end of the queue. A set that is taken from the
queue is added to the automaton once more, now as an accepting state if it is one, and its transitions
are set one after the other, with targets as they are spelled in the registry. When no set waits, the
automaton is frozen and its numbers are recorded. Each of these steps is an operation of the automata,
which can fail, and nothing bounds the number of rounds.

A conversion in this form has one course, which ends. No step fails but the first one, before anything
is recorded, and the step that records a set of which a member cannot be written. What is made and
recorded is what `Nfa.convert?` answers at once.

## Main definitions

* `Construction.Progress`, `Construction.Running` — how far a run is, and steps of a run.
* `Construction.discover`, `Construction.follow`, `Construction.expand` — the steps.
* `Construction.Rounds`, `Construction.Runs`, `Nfa.Converts` — the loop, runs and conversions.
* `Construction.Agrees` — a run is as far as a search.

## Main results

* `Construction.Following.step`, `Construction.Agrees.expand` — a step and a round of a run.
* `Construction.exists_rounds` — the loop follows the search to its end.
* `Construction.runs_iff`, `Nfa.converts_iff` — runs and conversions, step by step and at once.
-/

namespace Determinize

/-! ### Taking from a queue -/

namespace Discipline

variable {σ : Type} {d : Discipline} {queue waiting : List σ} {x : σ}

/-- The node that is taken from a queue, the first or the last one, and what stays. -/
def take? : Discipline → List σ → Option (σ × List σ)
  | fifo, [] => none
  | fifo, x :: queue => some (x, queue)
  | lifo, queue => queue.getLast?.map fun x => (x, queue.dropLast)

/-- The nodes of a queue in the order in which they would be taken. -/
def inOrder : Discipline → List σ → List σ
  | fifo, queue => queue
  | lifo, queue => queue.reverse

theorem inOrder_append (d : Discipline) (queue fresh : List σ) :
    d.inOrder (queue ++ fresh) = d.schedule (d.inOrder queue) fresh := by
  cases d with
  | fifo => rfl
  | lifo => exact List.reverse_append

theorem take?_of_inOrder_eq_nil (h : d.inOrder queue = []) : d.take? queue = none := by
  cases d with
  | fifo =>
    obtain rfl : queue = [] := h
    rfl
  | lifo =>
    obtain rfl := List.reverse_eq_nil_iff.mp h
    rfl

theorem exists_take?_of_inOrder_eq_cons (h : d.inOrder queue = x :: waiting) :
    ∃ rest, d.take? queue = some (x, rest) ∧ d.inOrder rest = waiting := by
  cases d with
  | fifo =>
    obtain rfl : queue = x :: waiting := h
    exact ⟨waiting, rfl, rfl⟩
  | lifo =>
    obtain rfl : queue = waiting.reverse ++ [x] := by
      rw [← List.reverse_cons, ← h, inOrder, List.reverse_reverse]
    exact ⟨waiting.reverse, by simp [take?], List.reverse_reverse waiting⟩

end Discipline

/-! ### Rows -/

namespace Dfa

/-- The row of a state. A set that is not a state has a row that is not accepting, without targets. -/
def rowAt (d : Dfa) (S : ValueSet) : Row := (d.rows.find? S).getD ⟨false, .empty⟩

theorem rows_eq_ofKeys (d : Dfa) : d.rows = .ofKeys d.states d.rowAt :=
  OrderedMap.eq_ofKeys d.rows ⟨false, .empty⟩

theorem rowAt_addState (d : Dfa) (S : ValueSet) (accepting : Bool) (R : ValueSet) :
    (d.addState S accepting).rowAt R =
      ⟨(d.rowAt R).accepting || (S == R && accepting), (d.rowAt R).targets⟩ := by
  rw [rowAt, addState, OrderedMap.find?_alter, rowAt]
  cases hSR : S == R with
  | true =>
    rw [if_pos rfl, OrderedMap.find?_congr _ hSR, Bool.true_and]
    cases d.rows.find? R <;> rfl
  | false => simp

theorem rowAt_setTarget (d : Dfa) (S : ValueSet) (a : Value) (T R : ValueSet) :
    (d.setTarget S a T).rowAt R =
      if S == R then ⟨(d.rowAt R).accepting, (d.rowAt R).targets.insert a T⟩ else d.rowAt R := by
  rw [rowAt, setTarget, OrderedMap.find?_alter, rowAt]
  cases hSR : S == R with
  | true =>
    rw [if_pos rfl, if_pos rfl, OrderedMap.find?_congr _ hSR]
    cases d.rows.find? R <;> rfl
  | false => rfl

end Dfa

/-! ### Reading an automaton -/

/-- A set is made of its members. -/
theorem ValueSet.ofValue?_toList {S : ValueSet} (hS : ∀ x ∈ S.toList, x.Hashable) :
    ofValue? (.list S.toList) = .ok S := by
  rw [ofValue?_list hS, OrderedSet.ofList_toList]

namespace Nfa

/-- The targets of the members of a set can be asked for: the members are hashable, and so is the
marker, unless there is no room for transitions of any of them. -/
structure Readable (n : Nfa) (S : ValueSet) : Prop where
  hashable : ∀ x ∈ S.toList, x.Hashable
  marker : n.marker.Hashable ∨ ∀ x ∈ S.toList, n.knows x = false

variable {n : Nfa} {S : ValueSet} {a p : Value}

theorem targets_of_knows_eq_false (h : n.knows p = false) (a : Value) : n.targets p a = .empty := by
  rw [targets, OrderedMap.find?_eq_none_iff.mpr h]
  rfl

theorem requireMarker_eq_ok_iff : n.requireMarker S = .ok () ↔
    n.marker.Hashable ∨ ∀ x ∈ S.toList, n.knows x = false := by
  rw [requireMarker]
  split
  · rename_i h
    obtain ⟨x, hx, hknown⟩ := List.any_eq_true.mp h
    rw [Dfa.requireHashable_eq_ok_iff]
    refine ⟨Or.inl, fun h => h.resolve_right fun hnone => ?_⟩
    rw [hnone x hx] at hknown
    cases hknown
  · rename_i h
    exact iff_of_true rfl (Or.inr fun x hx => Bool.eq_false_iff.mpr fun hknown =>
      h (List.any_eq_true.mpr ⟨x, hx, hknown⟩))

theorem closure?_list (h : n.Readable S) : n.closure? (.list S.toList) = .ok (n.closure S) := by
  rw [closure?, ValueSet.ofValue?_toList h.hashable]
  change (n.requireMarker S >>= fun _ => pure (n.closure S)) = _
  rw [requireMarker_eq_ok_iff.mpr h.marker]
  rfl

theorem move?_list (h : n.Readable S) (ha : a.Hashable) :
    n.move? (.list S.toList) a = .ok (n.move S.toList a) := by
  change (do
    S.toList.forM fun p => discard (n.transitionsFor? p a)
    return n.move S.toList a : Except ShapeError ValueSet) = _
  rw [n.forM_transitionsFor?_eq_ok h.hashable ha]
  rfl

/-- The closure of a set that can be read can be read. -/
theorem Readable.closure (hn : n.Sound) (h : n.Readable S) : n.Readable (n.closure S) where
  hashable := forall_mem_closure (fun _ ht => (hn.stores.of_mem_transitions ht).2.2) h.hashable
  marker := h.marker.imp_right fun hnone => by
    refine closure_induction hnone fun p hp q hq => ?_
    rw [markedTargets, targets_of_knows_eq_false hp] at hq
    cases hq

/-- So can the move under a symbol. -/
theorem Readable.move (hn : n.Sound) (h : n.Readable S) (a : Value) :
    n.Readable (n.move S.toList a) where
  hashable q hq := by
    obtain ⟨p, -, hq⟩ := List.mem_flatMap.mp (OrderedSet.mem_of_mem_toList_ofList hq)
    obtain ⟨t, ht, -, -, rfl⟩ := exists_mem_transitions_of_mem_targets hq
    exact (hn.stores.of_mem_transitions ht).2.2
  marker := h.marker.imp_right fun hnone q hq => by
    obtain ⟨p, hp, hq⟩ := List.mem_flatMap.mp (OrderedSet.mem_of_mem_toList_ofList hq)
    rw [targets_of_knows_eq_false (hnone p hp)] at hq
    cases hq

theorem Readable.successor (hn : n.Sound) (h : n.Readable S) (a : Value) :
    n.Readable (n.successor S a) :=
  (h.move hn a).closure hn

end Nfa

/-! ### Steps of a run -/

namespace Construction

/-- How far a run is. -/
structure Progress where
  /-- The sets that were found, each as it was spelled first. -/
  registry : OrderedMap ValueSet ValueSet
  /-- The sets that wait, in the order in which they were found. -/
  queue : List ValueSet
  dfa : Dfa
  log : List Event

/-- A step of a run, which can fail. What it has done before stays done. -/
abbrev Running (α : Type) := EStateM AutomatonError Progress α

/-- Changes the automaton. -/
def change (f : Dfa → Except AutomatonError Dfa) : Running Unit := do
  let d ← ofExcept (f (← get).dfa)
  modify ({ · with dfa := d })

/-- Adds a state to the automaton. -/
def put (S : ValueSet) (accepting : Bool) : Running Unit :=
  change fun d => (·.2) <$> d.addState? (.list S.toList) accepting

/-- Takes down a new set. For the log, its members are sorted by their texts. -/
def discover [DigitLimit] (found : ValueSet) : Running Unit := do
  discard (ofExcept (orTooManyDigits (found.toList.mapM Value.display?)))
  modify fun p => { p with
    log := p.log ++ [.discovered found]
    registry := p.registry.insert found found }
  put found false
  modify fun p => { p with queue := p.queue ++ [found] }

/-- Takes down a set that is found, unless it is registered. -/
def note [DigitLimit] (found : ValueSet) : Running Unit := do
  unless (← get).registry.contains found do discover found

/-- The spelling of a set in the registry. -/
def registered (found : ValueSet) : Running ValueSet := do
  ofExcept ((← get).registry.require? found (.states found))

/-- Finds where a symbol leads from a set and sets the transition. -/
def follow [DigitLimit] (n : Nfa) (current : ValueSet) (symbol : Value) : Running Unit := do
  let moved ← ofExcept (orShapeError (n.move? (.list current.toList) symbol))
  let next ← ofExcept (orShapeError (n.closure? (.list moved.toList)))
  note next
  let target ← registered next
  change fun d => d.addTransition? (.list current.toList) symbol (.list target.toList)

/-- Expands a set. -/
def expand [DigitLimit] (c : Construction) (n : Nfa) (current : ValueSet) : Running Unit := do
  put current (n.isAccepting current)
  c.alphabet.toList.forM (follow n current)

/-- A run before its first round: the start is found, but not yet a state. -/
def begin? (c : Construction) (n : Nfa) : Except AutomatonError Progress := do
  let start ← orShapeError (n.closure? (.list n.starts.toList))
  let dfa ← orShapeError (Dfa.new? (.list start.toList) (.list c.alphabet.toList))
  return ⟨.insert .empty start start, [start], dfa, []⟩

/-- While sets wait, the next one is taken from the queue and expanded. -/
inductive Rounds [DigitLimit] (c : Construction) (n : Nfa) :
    Progress → EStateM.Result AutomatonError Progress Unit → Prop
  | done {p : Progress} (h : c.discipline.take? p.queue = none) : Rounds c n p (.ok () p)
  | round {p p' : Progress} {current : ValueSet} {rest : List ValueSet}
      {result : EStateM.Result AutomatonError Progress Unit}
      (h : c.discipline.take? p.queue = some (current, rest))
      (hexpand : (c.expand n current).run { p with queue := rest } = .ok () p')
      (hrounds : Rounds c n p' result) : Rounds c n p result
  | failed {p p' : Progress} {current : ValueSet} {rest : List ValueSet} {e : AutomatonError}
      (h : c.discipline.take? p.queue = some (current, rest))
      (hexpand : (c.expand n current).run { p with queue := rest } = .error e p') :
      Rounds c n p (.error e p')

/-- The last record of a run. -/
def summary (c : Construction) (d : Dfa) : Event :=
  .constructed d.size d.acceptStates.length c.alphabet.size

/-- What a run records in the log, and the automaton that it makes or why it fails. -/
inductive Runs [DigitLimit] (c : Construction) (n : Nfa) : List Event → Except AutomatonError Dfa → Prop
  | refused {e : AutomatonError} (h : c.begin? n = .error e) : Runs c n [] (.error e)
  | failed {p p' : Progress} {e : AutomatonError} (h : c.begin? n = .ok p)
      (hrounds : Rounds c n p (.error e p')) : Runs c n p'.log (.error e)
  | returned {p p' : Progress} (h : c.begin? n = .ok p) (hrounds : Rounds c n p (.ok () p')) :
      Runs c n (p'.log ++ [c.summary p'.dfa.freeze]) (.ok p'.dfa.freeze)

end Construction

/-- What a conversion records in the log, and the automaton that it makes or why it fails. -/
inductive Nfa.Converts [DigitLimit] (n : Nfa) (alphabet : Option Value) (worklist : Value) :
    List Event → Except AutomatonError Dfa → Prop
  | refused {e : AutomatonError}
      (h : Construction.prepare? n (alphabet.getD (.list n.symbols.toList)) worklist = .error e) :
      Converts n alphabet worklist [] (.error e)
  | prepared {c : Construction} {log : List Event} {outcome : Except AutomatonError Dfa}
      (h : Construction.prepare? n (alphabet.getD (.list n.symbols.toList)) worklist = .ok c)
      (hruns : c.Runs n log outcome) : Converts n alphabet worklist log outcome

namespace Construction

/-! ### Single steps -/

/-- Where a run is after it has found a set. -/
def Progress.noting (p : Progress) (S : ValueSet) : Progress :=
  if p.registry.contains S then p
  else ⟨p.registry.insert S S, p.queue ++ [S], p.dfa.addState S false, p.log ++ [.discovered S]⟩

/-- All sets but the first, which is not recorded, can be written. -/
def Recordable [DigitLimit] (found : OrderedSet ValueSet) : Prop :=
  ∀ S ∈ found.toList.drop 1, S.writable = true

section Course

variable {c : Construction} {n : Nfa} {p p' : Progress} {current S T : ValueSet}
  {a : Value} {s t : Search ValueSet} {found found' : OrderedSet ValueSet}

theorem run_bind_of_ok {α β : Type} {x : Running α} {r : α} (h : x.run p = .ok r p')
    (f : α → Running β) : (x >>= f).run p = (f r).run p' := by
  rw [EStateM.run_bind, h]

theorem run_bind_of_error {α β : Type} {x : Running α} {e : AutomatonError}
    (h : x.run p = .error e p') (f : α → Running β) : (x >>= f).run p = .error e p' := by
  rw [EStateM.run_bind, h]

theorem run_ofExcept {α : Type} {x : Except AutomatonError α} {r : α} (h : x = .ok r) :
    (ofExcept x : Running α).run p = .ok r p := by
  rw [h]
  rfl

theorem run_change {f : Dfa → Except AutomatonError Dfa} {d : Dfa} (h : f p.dfa = .ok d) :
    (change f).run p = .ok () { p with dfa := d } := by
  rw [change, run_bind_of_ok (EStateM.run_get p), run_bind_of_ok (run_ofExcept h)]
  rfl

theorem run_put (hS : ∀ x ∈ S.toList, x.Hashable) (hmutable : p.dfa.frozen = false)
    (accepting : Bool) :
    (put S accepting).run p = .ok () { p with dfa := p.dfa.addState S accepting } := by
  have hadd : p.dfa.addState? (.list S.toList) accepting = .ok (S, p.dfa.addState S accepting) :=
    Dfa.addState?_eq_ok_iff.mpr ⟨hmutable, ValueSet.ofValue?_toList hS, rfl⟩
  exact run_change (congrArg _ hadd)

theorem run_registered (hT : p.registry.find? S = some T) : (registered S).run p = .ok T p := by
  rw [registered, run_bind_of_ok (EStateM.run_get p),
    run_ofExcept (OrderedMap.require?_eq_ok _ hT)]

variable [DigitLimit]

theorem Recordable.of_initial (h : Recordable found') (hinitial : found.toList <+: found'.toList) :
    Recordable found := fun S hS => h S ((hinitial.drop 1).subset hS)

theorem mapM_display?_eq (S : ValueSet) : S.toList.mapM Value.display? =
    if S.writable then some (S.toList.map Value.display) else none :=
  mapM_option_eq_ite fun _ _ => rfl

theorem run_discover (hwritable : S.writable = true) (hS : ∀ x ∈ S.toList, x.Hashable)
    (hmutable : p.dfa.frozen = false) :
    (discover S).run p = .ok () ⟨p.registry.insert S S, p.queue ++ [S], p.dfa.addState S false,
      p.log ++ [.discovered S]⟩ := by
  let p₁ : Progress :=
    { p with log := p.log ++ [.discovered S], registry := p.registry.insert S S }
  have hput : (put S false).run p₁ = .ok () { p₁ with dfa := p.dfa.addState S false } :=
    run_put (p := p₁) hS hmutable false
  rw [discover, mapM_display?_eq, hwritable]
  refine (run_bind_of_ok (show EStateM.run _ p = .ok () p from rfl) _).trans ?_
  exact (run_bind_of_ok (show EStateM.run _ p = .ok _ p₁ from rfl) _).trans (run_bind_of_ok hput _)

theorem run_note (hwritable : p.registry.contains S = false → S.writable = true)
    (hS : ∀ x ∈ S.toList, x.Hashable) (hmutable : p.dfa.frozen = false) :
    (note S).run p = .ok () (p.noting S) := by
  rw [note, run_bind_of_ok (EStateM.run_get p), Progress.noting]
  cases hregistered : p.registry.contains S with
  | true => rfl
  | false => exact run_discover (hwritable hregistered) hS hmutable

/-- A new set that cannot be written is not taken down. -/
theorem run_note_of_not_writable (hnew : p.registry.contains S = false)
    (hnot : S.writable = false) : (note S).run p = .error .tooManyDigits p := by
  rw [note, run_bind_of_ok (EStateM.run_get p), hnew, discover, mapM_display?_eq, hnot]
  rfl

/-- The targets of a set that can be read are found. -/
theorem follow_eq (hn : n.Sound) (hcurrent : n.Readable current) (ha : a.Hashable) :
    (follow n current a).run p = (do
      note (n.successor current a)
      let target ← registered (n.successor current a)
      change fun d => d.addTransition? (.list current.toList) a (.list target.toList) :
        Running Unit).run p := by
  have hmove : orShapeError (n.move? (.list current.toList) a) = .ok (n.move current.toList a) :=
    Dfa.orShapeError_eq_ok_iff.mpr (Nfa.move?_list hcurrent ha)
  have hclosure : orShapeError (n.closure? (.list (n.move current.toList a).toList)) =
      .ok (n.successor current a) :=
    Dfa.orShapeError_eq_ok_iff.mpr (Nfa.closure?_list (hcurrent.move hn a))
  rw [follow, run_bind_of_ok (run_ofExcept hmove), run_bind_of_ok (run_ofExcept hclosure)]

/-- Following a symbol notes where it leads and sets the transition. -/
theorem run_follow {d : Dfa} (hn : n.Sound) (hcurrent : n.Readable current) (ha : a.Hashable)
    (hmutable : p.dfa.frozen = false)
    (hwritable : p.registry.contains (n.successor current a) = false →
      (n.successor current a).writable = true)
    (htarget : (p.noting (n.successor current a)).registry.find? (n.successor current a) = some T)
    (hset : (p.noting (n.successor current a)).dfa.addTransition? (.list current.toList) a
      (.list T.toList) = .ok d) :
    (follow n current a).run p = .ok () { p.noting (n.successor current a) with dfa := d } := by
  have hnext := (hcurrent.successor hn a).hashable
  rw [follow_eq hn hcurrent ha, run_bind_of_ok (run_note hwritable hnext hmutable),
    run_bind_of_ok (run_registered htarget)]
  exact run_change hset

/-- A symbol that leads to a new set which cannot be written is not followed. -/
theorem run_follow_of_not_writable (hn : n.Sound) (hcurrent : n.Readable current)
    (ha : a.Hashable) (hnew : p.registry.contains (n.successor current a) = false)
    (hnot : (n.successor current a).writable = false) :
    (follow n current a).run p = .error .tooManyDigits p := by
  rw [follow_eq hn hcurrent ha]
  exact run_bind_of_error (run_note_of_not_writable hnew hnot) _

/-! ### Explored sets -/

/-- What is asked of an automaton and of the symbols for a run to go on. -/
structure Runnable (c : Construction) (n : Nfa) : Prop where
  sound : n.Sound
  starts : n.Readable n.starts
  symbols : ∀ a ∈ c.alphabet.toList, a.Hashable

omit [DigitLimit] in
theorem Runnable.readable (h : c.Runnable n) (hS : S ∈ (c.explore n).discovered.toList) :
    n.Readable S := by
  refine Search.forall_discovered_run (fun T hT => ?_) (fun T hT U hU => ?_) _ S hS
  · rw [List.mem_singleton.mp hT]
    exact h.starts.closure h.sound
  · obtain ⟨a, -, rfl⟩ := mem_successors_iff.mp hU
    exact hT.successor h.sound a

/-! ### Rounds -/

/-- A run has found the sets `found` and nothing else. The first `base` of them were found before, and
of these the sets `rest` wait. -/
structure Found (c : Construction) (n : Nfa) (base : Nat) (rest : List ValueSet)
    (found : OrderedSet ValueSet) (p : Progress) : Prop where
  registry : p.registry = .ofKeys found id
  queue : p.queue = rest ++ found.toList.drop base
  log : p.log = (found.toList.drop 1).map .discovered
  isOpen : p.dfa.IsOpen (n.closure n.starts) c.alphabet
  states : p.dfa.states = found

/-- A run has followed the symbols `done` from the set `current`. -/
structure Following (c : Construction) (n : Nfa) (d : Dfa) (base : OrderedSet ValueSet)
    (rest : List ValueSet) (current : ValueSet) (done : List Value) (p : Progress) : Prop where
  found : c.Found n base.size rest (base.insertAll (done.map (n.successor current))) p
  row : p.dfa.rowAt current =
    ⟨n.isAccepting current, .ofKeys (.ofList done) (c.target n current)⟩
  others : ∀ S, (current == S) = false → p.dfa.rowAt S = d.rowAt S

/-- A run is as far as a search: it has found the same sets, the same sets wait, and the sets that the
search has expanded have their rows. -/
structure Agrees (c : Construction) (n : Nfa) (s : Search ValueSet) (p : Progress) : Prop where
  registry : p.registry = .ofKeys s.discovered id
  queue : c.discipline.inOrder p.queue = s.waiting
  log : p.log = (s.discovered.toList.drop 1).map .discovered
  isOpen : p.dfa.IsOpen (n.closure n.starts) c.alphabet
  /-- The start is not added as a state before it is taken from the queue. -/
  waiting : ∀ S ∈ s.waiting, p.dfa.states.insert S = s.discovered
  states : s.expanded ≠ [] → p.dfa.states = s.discovered
  expanded : ∀ S ∈ s.expanded, p.dfa.rowAt S = c.row n (c.explore n).discovered S
  blank : ∀ S, (∀ T ∈ s.expanded, (T == S) = false) → p.dfa.rowAt S = ⟨false, .empty⟩

omit [DigitLimit] in
theorem Found.contains_registry {base : Nat} {rest : List ValueSet}
    (h : c.Found n base rest found p) (S : ValueSet) : p.registry.contains S = found.contains S := by
  rw [h.registry, ← OrderedMap.contains_keys, OrderedMap.keys_ofKeys]

/-- A further set is recorded if it is new. -/
theorem Recordable.writable_of_new (h : Recordable (found.insert S)) (hpos : 1 ≤ found.size)
    (hnew : found.contains S = false) : S.writable = true := by
  refine h S ?_
  rw [OrderedSet.toList_insert_of_new hnew, List.drop_append_of_le_length hpos]
  exact List.mem_append_right _ List.mem_cons_self

omit [DigitLimit] in
/-- Noting a set adds it to the sets that were found. -/
theorem Found.noting {base : Nat} {rest : List ValueSet}
    (h : c.Found n base rest found p) (hpos : 1 ≤ found.size) (hbase : base ≤ found.size)
    (S : ValueSet) : c.Found n base rest (found.insert S) (p.noting S) := by
  rw [Progress.noting, h.contains_registry]
  cases hS : found.contains S with
  | true => rwa [if_pos rfl, OrderedSet.insert_eq_self hS]
  | false =>
    rw [if_neg Bool.false_ne_true]
    have hlist := OrderedSet.toList_insert_of_new hS
    refine ⟨?_, ?_, ?_, h.isOpen.write (nofun : Dfa.Entry.state S false ≠ .freeze), ?_⟩
    · dsimp only
      rw [h.registry, OrderedMap.insert_ofKeys]
      refine OrderedMap.ofKeys_congr fun T hT => ?_
      split
      · rename_i hST
        have hmem : S ∈ (found.insert S).toList := by simp [hlist]
        exact OrderedSet.eq_of_beq_of_mem hmem hT hST
      · rfl
    · dsimp only
      rw [h.queue, hlist, List.drop_append_of_le_length hbase, List.append_assoc]
    · dsimp only
      rw [h.log, hlist, List.drop_append_of_le_length hpos, List.map_append, List.map_singleton]
    · dsimp only
      rw [Dfa.states_addState, h.states]

omit [DigitLimit] in
/-- Noting a set changes no row. -/
theorem rowAt_noting (p : Progress) (S R : ValueSet) :
    (p.noting S).dfa.rowAt R = p.dfa.rowAt R := by
  rw [Progress.noting]
  split
  · rfl
  · dsimp only
    rw [Dfa.rowAt_addState, Bool.and_false, Bool.or_false]

omit [DigitLimit] in
/-- A target of a set is spelled in the registry as it is spelled in the end. -/
theorem find?_successor_of_initial {found : OrderedSet ValueSet}
    (hinitial : found.toList <+: (c.explore n).discovered.toList)
    (h : found.contains (n.successor current a) = true) :
    found.find? (n.successor current a) = some (c.target n current a) := by
  obtain ⟨T, -, -, hT⟩ := OrderedSet.exists_find?_of_contains h
  rw [target, OrderedSet.find?_of_initial hinitial hT, hT]
  rfl

omit [DigitLimit] in
/-- Equal symbols have one target. -/
theorem target_congr {b : Value} (h : (c.explore n).discovered.contains (n.successor S a) = true)
    (hab : (a == b) = true) : c.target n S a = c.target n S b := by
  obtain ⟨T, -, -, hT⟩ := OrderedSet.exists_find?_of_contains h
  rw [target, target, ← OrderedSet.find?_congr _ (Nfa.successor_congr BEq.rfl hab), hT]
  rfl

section Target

variable {base : Nat} {rest : List ValueSet} (h : c.Found n base rest found p)
  (hinitial : found.toList <+: (c.explore n).discovered.toList)

include h

omit [DigitLimit] in
theorem Found.hasState (hS : S ∈ found.toList) : p.dfa.hasState S = true := by
  rw [← Dfa.contains_states, h.states]
  exact OrderedSet.contains_of_mem hS

omit [DigitLimit] in
/-- Setting a transition of a state finds no set. -/
theorem Found.setTarget (hS : S ∈ found.toList) (a : Value) (T : ValueSet) :
    c.Found n base rest found { p with dfa := p.dfa.setTarget S a T } :=
  ⟨h.registry, h.queue, h.log, h.isOpen.write (nofun : Dfa.Entry.target S a T ≠ .freeze),
    (Dfa.states_setTarget (h.hasState hS) ..).trans h.states⟩

include hinitial

omit [DigitLimit] in
/-- The registry is not complete, but what it contains is spelled as at the end of the search. -/
theorem Found.find?_registry (hfound : found.contains (n.successor current a) = true) :
    p.registry.find? (n.successor current a) = some (c.target n current a) := by
  rw [h.registry, OrderedMap.find?_ofKeys, find?_successor_of_initial hinitial hfound]
  rfl

omit [DigitLimit] in
/-- The transition from a set that was found to another one can be set. -/
theorem Found.addTransition?_eq (hn : c.Runnable n) (hcurrent : current ∈ found.toList)
    (ha : a ∈ c.alphabet.toList) (hfound : found.contains (n.successor current a) = true) :
    p.dfa.addTransition? (.list current.toList) a (.list (c.target n current a).toList) =
      .ok (p.dfa.setTarget current a (c.target n current a)) := by
  have hreadable {S : ValueSet} (hS : S ∈ found.toList) : n.Readable S :=
    hn.readable (hinitial.subset hS)
  have htarget := (OrderedSet.find?_eq_some (find?_successor_of_initial hinitial hfound)).1
  refine Dfa.addTransition?_eq_ok_iff.mpr ⟨h.isOpen.mutable, hn.symbols a ha, ?_, current,
    ValueSet.ofValue?_toList (hreadable hcurrent).hashable, h.hasState hcurrent, _,
    ValueSet.ofValue?_toList (hreadable htarget).hashable, rfl⟩
  rw [h.isOpen.alphabet]
  exact OrderedSet.contains_of_mem ha

end Target

/-- Following a symbol keeps what is known of a run in the middle of a round. -/
theorem Following.step {d : Dfa} {base : OrderedSet ValueSet} {rest : List ValueSet}
    {done : List Value} (hn : c.Runnable n) (h : c.Following n d base rest current done p)
    (hcurrent : current ∈ base.toList) (ha : a ∈ c.alphabet.toList)
    (hinitial : (base.insertAll ((done ++ [a]).map (n.successor current))).toList <+:
      (c.explore n).discovered.toList)
    (hrecordable : Recordable (base.insertAll ((done ++ [a]).map (n.successor current)))) :
    ∃ p', (follow n current a).run p = .ok () p' ∧
      c.Following n d base rest current (done ++ [a]) p' := by
  have hadded : base.insertAll ((done ++ [a]).map (n.successor current)) =
      (base.insertAll (done.map (n.successor current))).insert (n.successor current a) := by
    rw [List.map_append, List.map_singleton, OrderedSet.insertAll_append_singleton]
  have hearlier := base.prefix_insertAll (done.map (n.successor current))
  have hpos : 1 ≤ base.size := List.length_pos_of_mem hcurrent
  have hfound : c.Found n base.size rest
      (base.insertAll ((done ++ [a]).map (n.successor current)))
      (p.noting (n.successor current a)) := by
    rw [hadded]
    exact h.found.noting (hpos.trans hearlier.length_le) hearlier.length_le _
  have hwritable : p.registry.contains (n.successor current a) = false →
      (n.successor current a).writable = true := by
    rw [h.found.contains_registry]
    exact (hadded ▸ hrecordable).writable_of_new (hpos.trans hearlier.length_le)
  have hmem := (base.prefix_insertAll ((done ++ [a]).map (n.successor current))).subset hcurrent
  have hcontains : (base.insertAll ((done ++ [a]).map (n.successor current))).contains
      (n.successor current a) = true := by
    rw [hadded, OrderedSet.contains_insert, BEq.rfl, Bool.or_true]
  refine ⟨_, run_follow hn.sound (hn.readable (hinitial.subset hmem)) (hn.symbols a ha)
    h.found.isOpen.mutable hwritable (hfound.find?_registry hinitial hcontains)
    (hfound.addTransition?_eq hinitial hn hmem ha hcontains), hfound.setTarget hmem .., ?_,
    fun S hS => ?_⟩
  · dsimp only
    rw [Dfa.rowAt_setTarget, BEq.rfl, if_pos rfl, rowAt_noting, h.row]
    dsimp only
    rw [OrderedMap.insert_ofKeys, OrderedSet.ofList_append_singleton]
    refine congrArg _ (OrderedMap.ofKeys_congr fun b _ => ?_)
    split
    -- A symbol that equals one that was followed before has the target of that one.
    · rename_i hab
      obtain ⟨T, hT, hbeq⟩ := OrderedSet.contains_iff.mp hcontains
      exact target_congr (OrderedSet.contains_iff.mpr ⟨T, hinitial.subset hT, hbeq⟩) hab
    · rfl
  · dsimp only
    rw [Dfa.rowAt_setTarget, hS, if_neg Bool.false_ne_true, rowAt_noting, h.others S hS]

omit [DigitLimit] in
/-- What is known after each symbol of a list is known at its end. -/
theorem exists_run_forM {I : List Value → Progress → Prop} {f : Value → Running Unit}
    {done : List Value} (todo : List Value)
    (hstep : ∀ earlier a later p, done ++ todo = earlier ++ a :: later → I earlier p →
      ∃ p', (f a).run p = .ok () p' ∧ I (earlier ++ [a]) p') (h : I done p) :
    ∃ p', (todo.forM f).run p = .ok () p' ∧ I (done ++ todo) p' := by
  induction todo generalizing done p with
  | nil => exact ⟨p, rfl, by rwa [List.append_nil]⟩
  | cons a todo ih =>
    obtain ⟨p₁, hfirst, h₁⟩ := hstep done a todo p rfl h
    rw [List.append_cons] at hstep ⊢
    obtain ⟨p', hrest, h'⟩ := ih hstep h₁
    exact ⟨p', (run_bind_of_ok hfirst _).trans hrest, h'⟩

omit [DigitLimit] in
/-- A set that waits was not expanded. -/
theorem beq_eq_false_of_waiting {waiting : List ValueSet}
    (hvalid : s.Valid (c.successors n)) (hw : s.waiting = current :: waiting) :
    ∀ S ∈ s.expanded, (S == current) = false := by
  have hdistinct := hvalid.accounted.pairwise s.discovered.distinct fun hxy => by rwa [BEq.comm]
  rw [hw] at hdistinct
  exact fun S hS => (List.pairwise_append.mp hdistinct).2.2 S hS current List.mem_cons_self

omit [DigitLimit] in
/-- A step of the search adds the successors of the node that it expands. -/
theorem discovered_expand {waiting : List ValueSet} (hw : s.waiting = current :: waiting) :
    (s.expand c.discipline (c.successors n)).discovered =
      s.discovered.insertAll (c.alphabet.toList.map (n.successor current)) := by
  rw [Search.expand_of_waiting_eq_cons hw]
  exact OrderedSet.insertAll_filter_new ..

omit [DigitLimit] in
/-- At the beginning of a round, the set that is taken becomes a state and no symbol was followed. -/
theorem Agrees.following {waiting rest : List ValueSet} (h : c.Agrees n s p)
    (hvalid : s.Valid (c.successors n)) (hw : s.waiting = current :: waiting) :
    c.Following n p.dfa s.discovered rest current []
      { p with queue := rest, dfa := p.dfa.addState current (n.isAccepting current) } := by
  refine ⟨⟨h.registry, ?_, h.log, ?_, ?_⟩, ?_, fun S hS => ?_⟩
  · exact (List.append_nil rest).symm.trans (congrArg _ List.drop_length.symm)
  · exact h.isOpen.write (nofun : Dfa.Entry.state current _ ≠ .freeze)
  · exact (Dfa.states_addState ..).trans (h.waiting current (hw ▸ List.mem_cons_self))
  · dsimp only
    rw [Dfa.rowAt_addState, BEq.rfl, Bool.true_and,
      h.blank current (beq_eq_false_of_waiting hvalid hw), Bool.false_or]
    rfl
  · dsimp only
    rw [Dfa.rowAt_addState, hS, Bool.false_and, Bool.or_false]

omit [DigitLimit] in
/-- At the end of a round, the run is as far as the search after its step. -/
theorem Following.agrees {waiting rest : List ValueSet} (h : c.Agrees n s p)
    (hvalid : s.Valid (c.successors n)) (hw : s.waiting = current :: waiting)
    (hrest : c.discipline.inOrder rest = waiting)
    (hp' : c.Following n p.dfa s.discovered rest current c.alphabet.toList p') :
    c.Agrees n (s.expand c.discipline (c.successors n)) p' := by
  have hdiscovered := discovered_expand (c := c) (n := n) hw
  have hlist : (s.expand c.discipline (c.successors n)).discovered.toList =
      s.discovered.toList ++ s.fresh (c.successors n current) :=
    Search.toList_discovered_expand hw
  have hexpanded : (s.expand c.discipline (c.successors n)).expanded = s.expanded ++ [current] := by
    rw [Search.expand_of_waiting_eq_cons hw]
  have hvalid' : (s.expand c.discipline (c.successors n)).Valid (c.successors n) := hvalid.expand
  obtain ⟨⟨hregistry, hqueue, hlog, hopen, hstates⟩, hrow, hothers⟩ := hp'
  -- The symbols of the alphabet have been followed, so the run has found what the step finds.
  rw [← hdiscovered] at hregistry hqueue hlog hstates
  refine ⟨hregistry, ?_, hlog, hopen, fun S hS => ?_, fun _ => hstates, fun S hS => ?_,
    fun S hS => ?_⟩
  · rw [hqueue, Discipline.inOrder_append, hrest, hlist, OrderedSet.size, List.drop_left,
      Search.expand_of_waiting_eq_cons hw]
  · have hmem : S ∈ (s.expand c.discipline (c.successors n)).discovered.toList :=
      hvalid'.accounted.mem_iff.mpr (List.mem_append_right _ hS)
    rw [hstates, OrderedSet.insert_eq_self (OrderedSet.contains_of_mem hmem)]
  · rw [hexpanded] at hS
    rcases List.mem_append.mp hS with hS | hS
    · have hne := beq_eq_false_of_waiting hvalid hw S hS
      rw [hothers S (BEq.comm.trans hne), h.expanded S hS]
    · rw [List.mem_singleton.mp hS, hrow, OrderedSet.ofList_toList]
      rfl
  · rw [hexpanded] at hS
    rw [hothers S (hS current (by simp)), h.blank S fun T hT => hS T (List.mem_append_left _ hT)]

/-- A round follows the symbols that come first in the alphabet if what they lead to can be recorded. -/
theorem Agrees.exists_following {waiting : List ValueSet} {earlier later : List Value}
    (hn : c.Runnable n) (h : c.Agrees n s p) (hvalid : s.Valid (c.successors n))
    (hw : s.waiting = current :: waiting) (rest : List ValueSet)
    (hinitial : (s.expand c.discipline (c.successors n)).discovered.toList <+:
      (c.explore n).discovered.toList)
    (hsplit : c.alphabet.toList = earlier ++ later)
    (hrecordable : Recordable (s.discovered.insertAll (earlier.map (n.successor current)))) :
    ∃ p', (earlier.forM (follow n current)).run
        { p with queue := rest, dfa := p.dfa.addState current (n.isAccepting current) } = .ok () p' ∧
      c.Following n p.dfa s.discovered rest current earlier p' := by
  have hcurrent : current ∈ s.discovered.toList :=
    hvalid.accounted.mem_iff.mpr (List.mem_append_right _ (hw ▸ List.mem_cons_self))
  -- What is found up to a symbol is an initial part of what is found in the whole round.
  have hpart (first last : List Value) :
      (s.discovered.insertAll (first.map (n.successor current))).toList <+:
        (s.discovered.insertAll ((first ++ last).map (n.successor current))).toList := by
    rw [List.map_append, OrderedSet.insertAll_append]
    exact OrderedSet.prefix_insertAll ..
  have hstep : ∀ first a last p₁, [] ++ earlier = first ++ a :: last →
      c.Following n p.dfa s.discovered rest current first p₁ →
        ∃ p', (follow n current a).run p₁ = .ok () p' ∧
          c.Following n p.dfa s.discovered rest current (first ++ [a]) p' := by
    intro first a last p₁ hfirst h₁
    rw [List.nil_append, List.append_cons] at hfirst
    have hall := hpart (first ++ [a]) (last ++ later)
    rw [← List.append_assoc, ← hfirst, ← hsplit, ← discovered_expand hw] at hall
    refine h₁.step hn hcurrent ?_ (hall.trans hinitial) (hrecordable.of_initial ?_)
    · rw [hsplit, hfirst]
      simp
    · rw [hfirst]
      exact hpart _ _
  exact exists_run_forM earlier hstep (h.following hvalid hw)

omit [DigitLimit] in
/-- A round begins with a state. -/
theorem Agrees.run_put {waiting : List ValueSet} (hn : c.Runnable n) (h : c.Agrees n s p)
    (hvalid : s.Valid (c.successors n)) (hw : s.waiting = current :: waiting)
    (hinitial : (s.expand c.discipline (c.successors n)).discovered.toList <+:
      (c.explore n).discovered.toList) (rest : List ValueSet) :
    n.Readable current ∧ (put current (n.isAccepting current)).run { p with queue := rest } = .ok ()
      { p with queue := rest, dfa := p.dfa.addState current (n.isAccepting current) } := by
  have hcurrent : current ∈ s.discovered.toList :=
    hvalid.accounted.mem_iff.mpr (List.mem_append_right _ (hw ▸ List.mem_cons_self))
  have hreadable := hn.readable
    (hinitial.subset ((Search.prefix_discovered_expand s).subset hcurrent))
  exact ⟨hreadable, Construction.run_put (p := { p with queue := rest }) hreadable.hashable
    h.isOpen.mutable _⟩

/-- A round of a run does what a step of the search does, if what this finds can be recorded. -/
theorem Agrees.expand {waiting : List ValueSet} (hn : c.Runnable n) (h : c.Agrees n s p)
    (hvalid : s.Valid (c.successors n)) (hw : s.waiting = current :: waiting)
    (hinitial : (s.expand c.discipline (c.successors n)).discovered.toList <+:
      (c.explore n).discovered.toList)
    (hrecordable : Recordable (s.expand c.discipline (c.successors n)).discovered) :
    ∃ rest p', c.discipline.take? p.queue = some (current, rest) ∧
      (c.expand n current).run { p with queue := rest } = .ok () p' ∧
      c.Agrees n (s.expand c.discipline (c.successors n)) p' := by
  obtain ⟨rest, htake, hrest⟩ := Discipline.exists_take?_of_inOrder_eq_cons (h.queue.trans hw)
  obtain ⟨-, hput⟩ := h.run_put hn hvalid hw hinitial rest
  have hall : c.alphabet.toList = c.alphabet.toList ++ [] := (List.append_nil _).symm
  obtain ⟨p', hfollow, hp'⟩ := h.exists_following hn hvalid hw rest hinitial hall
    (discovered_expand (c := c) (n := n) hw ▸ hrecordable)
  exact ⟨rest, p', htake, (run_bind_of_ok hput _).trans hfollow, hp'.agrees h hvalid hw hrest⟩

/-- Among items that are added, there is a first one that is new and cannot be recorded, unless all can
be. -/
theorem exists_first_not_recordable {xs : List ValueSet} (hpos : 1 ≤ found.size)
    (h : Recordable found) (hnot : ¬ Recordable (found.insertAll xs)) :
    ∃ earlier T later, xs = earlier ++ T :: later ∧ Recordable (found.insertAll earlier) ∧
      (found.insertAll earlier).contains T = false ∧ T.writable = false := by
  induction xs generalizing found with
  | nil => exact absurd h hnot
  | cons T xs ih =>
    have hsize : 1 ≤ (found.insert T).size :=
      hpos.trans (found.prefix_insertAll [T]).length_le
    have hnot' : ¬ Recordable ((found.insert T).insertAll xs) := hnot
    cases hT : found.contains T with
    | true =>
      obtain ⟨earlier, U, later, rfl, hearlier, hU⟩ :=
        ih hsize (by rwa [OrderedSet.insert_eq_self hT]) hnot'
      exact ⟨T :: earlier, U, later, rfl, hearlier, hU⟩
    | false =>
      cases hwritable : T.writable with
      | false => exact ⟨[], T, xs, rfl, h, hT, hwritable⟩
      | true =>
        have hinsert : Recordable (found.insert T) := by
          intro S hS
          rw [OrderedSet.toList_insert_of_new hT, List.drop_append_of_le_length hpos] at hS
          rcases List.mem_append.mp hS with hS | hS
          · exact h S hS
          · exact List.mem_singleton.mp hS ▸ hwritable
        obtain ⟨earlier, U, later, rfl, hearlier, hU⟩ := ih hsize hinsert hnot'
        exact ⟨T :: earlier, U, later, rfl, hearlier, hU⟩

/-- What is recorded up to the first set that cannot be written. -/
def recorded (found : OrderedSet ValueSet) : List Event :=
  ((found.toList.drop 1).takeWhile ValueSet.writable).map .discovered

theorem map_drop_eq_recorded (hpos : 1 ≤ found.size) (h : Recordable found)
    (hnew : found.contains T = false) (hnot : T.writable = false)
    (hinitial : (found.insert T).toList <+: found'.toList) :
    (found.toList.drop 1).map .discovered = recorded found' := by
  obtain ⟨later, hlater⟩ := hinitial
  rw [recorded, ← hlater, OrderedSet.toList_insert_of_new hnew, List.append_assoc,
    List.drop_append_of_le_length hpos, List.takeWhile_append_of_pos h, List.singleton_append,
    List.takeWhile_cons_of_neg (by simp [hnot]), List.append_nil]

/-- A round fails at the first set that it finds and that cannot be written. -/
theorem Agrees.expand_failed {waiting : List ValueSet} (hn : c.Runnable n) (h : c.Agrees n s p)
    (hvalid : s.Valid (c.successors n)) (hw : s.waiting = current :: waiting)
    (hinitial : (s.expand c.discipline (c.successors n)).discovered.toList <+:
      (c.explore n).discovered.toList) (hrecordable : Recordable s.discovered)
    (hnot : ¬ Recordable (s.expand c.discipline (c.successors n)).discovered) :
    ∃ rest p', c.discipline.take? p.queue = some (current, rest) ∧
      (c.expand n current).run { p with queue := rest } = .error .tooManyDigits p' ∧
      p'.log = recorded (c.explore n).discovered := by
  obtain ⟨rest, htake, -⟩ := Discipline.exists_take?_of_inOrder_eq_cons (h.queue.trans hw)
  obtain ⟨hreadable, hput⟩ := h.run_put hn hvalid hw hinitial rest
  have hpos : 1 ≤ s.discovered.size := List.length_pos_of_mem
    (hvalid.accounted.mem_iff.mpr (List.mem_append_right _ (hw ▸ List.mem_cons_self)))
  rw [discovered_expand hw] at hnot hinitial
  obtain ⟨found, T, others, hsplit, hfound, hnew, hT⟩ :=
    exists_first_not_recordable hpos hrecordable hnot
  obtain ⟨earlier, last, halphabet, rfl, hlast⟩ := List.map_eq_append_iff.mp hsplit
  obtain ⟨a, later, rfl, rfl, rfl⟩ := List.map_eq_cons_iff.mp hlast
  obtain ⟨p', hfollow, hp'⟩ := h.exists_following hn hvalid hw rest
    (discovered_expand (c := c) (n := n) hw ▸ hinitial) halphabet hfound
  have hlast : (follow n current a).run p' = .error .tooManyDigits p' :=
    run_follow_of_not_writable hn.sound hreadable (hn.symbols a (halphabet ▸ by simp))
      ((hp'.found.contains_registry _).trans hnew) hT
  refine ⟨rest, p', htake, (run_bind_of_ok hput _).trans ?_, hp'.found.log.trans ?_⟩
  · have hforM : (earlier ++ a :: later).forM (follow n current) = (do
        earlier.forM (follow n current)
        (a :: later).forM (follow n current)) := List.forM_append
    rw [halphabet, hforM, run_bind_of_ok hfollow]
    exact run_bind_of_error hlast _
  · refine map_drop_eq_recorded (hpos.trans (s.discovered.prefix_insertAll _).length_le) hfound hnew
      hT (List.IsPrefix.trans ?_ hinitial)
    rw [halphabet, List.append_cons, List.map_append, OrderedSet.insertAll_append, List.map_append,
      List.map_singleton, OrderedSet.insertAll_append_singleton]
    exact OrderedSet.prefix_insertAll ..

/-! ### Runs -/

/-- The loop follows the search to its end, if all that this finds can be recorded. -/
theorem exists_rounds {taken : List ValueSet} (hn : c.Runnable n)
    (hloop : Search.Loop c.discipline (c.successors n) s taken t)
    (ht : t.discovered = (c.explore n).discovered) (hvalid : s.Valid (c.successors n))
    (hrecordable : Recordable (c.explore n).discovered) (h : c.Agrees n s p) :
    ∃ p', c.Rounds n p (.ok () p') ∧ c.Agrees n t p' := by
  induction hloop generalizing p with
  | done hw => exact ⟨p, .done (Discipline.take?_of_inOrder_eq_nil (h.queue.trans hw)), h⟩
  | round hw hloop ih =>
    have hinitial := ht ▸ hloop.prefix_discovered
    obtain ⟨rest, p₁, htake, hexpand, h₁⟩ :=
      h.expand hn hvalid hw hinitial (hrecordable.of_initial hinitial)
    obtain ⟨p', hrounds, h'⟩ := ih ht hvalid.expand h₁
    exact ⟨p', .round htake hexpand hrounds, h'⟩

/-- Otherwise the loop fails where something cannot be recorded. -/
theorem exists_rounds_failed {taken : List ValueSet} (hn : c.Runnable n)
    (hloop : Search.Loop c.discipline (c.successors n) s taken t)
    (ht : t.discovered = (c.explore n).discovered) (hvalid : s.Valid (c.successors n))
    (hrecordable : Recordable s.discovered) (hnot : ¬ Recordable (c.explore n).discovered)
    (h : c.Agrees n s p) :
    ∃ p', c.Rounds n p (.error .tooManyDigits p') ∧ p'.log = recorded (c.explore n).discovered := by
  induction hloop generalizing p with
  | done hw => exact absurd (ht ▸ hrecordable) hnot
  | @round s t current waiting taken hw hloop ih =>
    have hinitial := ht ▸ hloop.prefix_discovered
    by_cases hnext : Recordable (s.expand c.discipline (c.successors n)).discovered
    · obtain ⟨rest, p₁, htake, hexpand, h₁⟩ := h.expand hn hvalid hw hinitial hnext
      obtain ⟨p', hrounds, hlog⟩ := ih ht hvalid.expand hnext h₁
      exact ⟨p', .round htake hexpand hrounds, hlog⟩
    · obtain ⟨rest, p', htake, hexpand, hlog⟩ :=
        h.expand_failed hn hvalid hw hinitial hrecordable hnext
      exact ⟨p', .failed htake hexpand, hlog⟩

/-- A loop has one course and one end. -/
theorem Rounds.eq_of_rounds {result result' : EStateM.Result AutomatonError Progress Unit}
    (h : c.Rounds n p result) (h' : c.Rounds n p result') : result = result' := by
  induction h generalizing result' with
  | done hnone =>
    cases h' with
    | done => rfl
    | round hsome | failed hsome => cases hnone.symm.trans hsome
  | round hsome hexpand _ ih =>
    cases h' with
    | done hnone => cases hnone.symm.trans hsome
    | round hsome' hexpand' hrounds' =>
      cases hsome.symm.trans hsome'
      cases hexpand.symm.trans hexpand'
      exact ih hrounds'
    | failed hsome' hexpand' =>
      cases hsome.symm.trans hsome'
      cases hexpand.symm.trans hexpand'
  | failed hsome hexpand =>
    cases h' with
    | done hnone => cases hnone.symm.trans hsome
    | round hsome' hexpand' =>
      cases hsome.symm.trans hsome'
      cases hexpand.symm.trans hexpand'
    | failed hsome' hexpand' =>
      cases hsome.symm.trans hsome'
      cases hexpand.symm.trans hexpand'
      rfl

/-- A run has one course. -/
theorem Runs.eq_of_runs {log log' : List Event} {outcome outcome' : Except AutomatonError Dfa}
    (h : c.Runs n log outcome) (h' : c.Runs n log' outcome') :
    log = log' ∧ outcome = outcome' := by
  cases h with
  | refused hbegin =>
    cases h' with
    | refused hbegin' =>
      cases hbegin.symm.trans hbegin'
      exact ⟨rfl, rfl⟩
    | failed hbegin' | returned hbegin' => cases hbegin.symm.trans hbegin'
  | failed hbegin hrounds =>
    cases h' with
    | refused hbegin' => cases hbegin.symm.trans hbegin'
    | failed hbegin' hrounds' =>
      cases hbegin.symm.trans hbegin'
      cases hrounds.eq_of_rounds hrounds'
      exact ⟨rfl, rfl⟩
    | returned hbegin' hrounds' =>
      cases hbegin.symm.trans hbegin'
      cases hrounds.eq_of_rounds hrounds'
  | returned hbegin hrounds =>
    cases h' with
    | refused hbegin' => cases hbegin.symm.trans hbegin'
    | failed hbegin' hrounds' =>
      cases hbegin.symm.trans hbegin'
      cases hrounds.eq_of_rounds hrounds'
    | returned hbegin' hrounds' =>
      cases hbegin.symm.trans hbegin'
      cases hrounds.eq_of_rounds hrounds'
      exact ⟨rfl, rfl⟩

omit [DigitLimit] in
/-- A run begins where the search begins. -/
theorem exists_begin? (hn : c.Runnable n) :
    ∃ p, c.begin? n = .ok p ∧ c.Agrees n (.start c.discipline [n.closure n.starts]) p := by
  have hstart : n.closure? (.list n.starts.toList) = .ok (n.closure n.starts) :=
    Nfa.closure?_list hn.starts
  have hclosure := hn.starts.closure hn.sound
  have hnew : Dfa.new? (.list (n.closure n.starts).toList) (.list c.alphabet.toList) =
      .ok ⟨n.closure n.starts, c.alphabet, .empty, false⟩ := by
    rw [Dfa.new?, ValueSet.ofValue?_toList hclosure.hashable, ValueSet.ofValue?_toList hn.symbols]
    rfl
  have hwaiting : (Search.start c.discipline [n.closure n.starts]).waiting =
      [n.closure n.starts] := by
    cases c.discipline <;> rfl
  refine ⟨⟨.insert .empty (n.closure n.starts) (n.closure n.starts), [n.closure n.starts],
    ⟨n.closure n.starts, c.alphabet, .empty, false⟩, []⟩, ?_, rfl, ?_, rfl, ⟨rfl, rfl, rfl⟩,
    fun S hS => ?_, fun h => absurd rfl h, fun S hS => absurd hS List.not_mem_nil, fun S _ => rfl⟩
  · rw [begin?, hstart]
    change (orShapeError (Dfa.new? _ _) >>= _) = _
    rw [hnew]
    rfl
  · rw [hwaiting]
    cases c.discipline <;> rfl
  · rw [hwaiting, List.mem_singleton] at hS
    rw [hS]
    rfl

theorem recordable_iff_reportable (c : Construction) (n : Nfa) :
    Recordable (c.explore n).discovered ↔ reportable (c.dfa n) = true := by
  rw [Recordable, reportable, states_dfa, List.all_eq_true]

/-- A run that ends makes the automaton of the construction and has recorded the states after the
start. -/
theorem exists_runs (hn : c.Runnable n) (hreportable : reportable (c.dfa n) = true) :
    c.Runs n (events (c.dfa n)) (.ok (c.dfa n)) := by
  obtain ⟨p, hbegin, hp⟩ := exists_begin? hn
  obtain ⟨taken, hloop⟩ := c.exists_loop_explore n
  have hvalid := Search.valid_start c.discipline (c.successors n) [n.closure n.starts]
  obtain ⟨p', hrounds, hp'⟩ := exists_rounds hn hloop rfl hvalid
    ((recordable_iff_reportable c n).mpr hreportable) hp
  -- At the end no set waits: all that were found have been expanded and have their rows.
  have hperm := (hloop.valid hvalid).perm_expanded hloop.waiting_eq_nil
  have hexpanded : (c.explore n).expanded ≠ [] := by
    have hsize := c.size_explore_pos n
    rw [OrderedSet.size, hperm.length_eq] at hsize
    exact List.ne_nil_of_length_pos hsize
  have hrows : p'.dfa.rows = .ofKeys (c.explore n).discovered (c.row n (c.explore n).discovered) := by
    rw [Dfa.rows_eq_ofKeys, hp'.states hexpanded]
    exact OrderedMap.ofKeys_congr fun S hS => hp'.expanded S (hperm.mem_iff.mp hS)
  have hdfa : p'.dfa.freeze = c.dfa n := by
    rw [Dfa.freeze, dfa, hrows, hp'.isOpen.start, hp'.isOpen.alphabet]
  have hlog : p'.log ++ [c.summary p'.dfa.freeze] = events (c.dfa n) := by
    rw [hdfa, hp'.log, events, states_dfa]
    rfl
  rw [← hlog, ← hdfa]
  exact .returned hbegin hrounds

/-- A run that finds a set which cannot be written fails there. -/
theorem exists_runs_failed (hn : c.Runnable n) (hnot : ¬ reportable (c.dfa n) = true) :
    c.Runs n (recorded (c.dfa n).states) (.error .tooManyDigits) := by
  obtain ⟨p, hbegin, hp⟩ := exists_begin? hn
  obtain ⟨taken, hloop⟩ := c.exists_loop_explore n
  have hvalid := Search.valid_start c.discipline (c.successors n) [n.closure n.starts]
  have hstart : Recordable (Search.start c.discipline [n.closure n.starts]).discovered :=
    fun S hS => absurd hS List.not_mem_nil
  obtain ⟨p', hrounds, hlog⟩ := exists_rounds_failed hn hloop rfl hvalid hstart
    (mt (recordable_iff_reportable c n).mp hnot) hp
  rw [states_dfa, ← hlog]
  exact .failed hbegin hrounds

/-- What a run records and makes that answers at once. A run that is refused records nothing; one that
fails has recorded the states up to the one that cannot be written. -/
def course (c : Construction) (n : Nfa) : List Event × Except AutomatonError Dfa :=
  match c.run? n with
  | .ok r => (r.events, .ok r.dfa)
  | .error .tooManyDigits => (recorded (c.dfa n).states, .error .tooManyDigits)
  | .error e => ([], .error e)

variable {log : List Event} {outcome : Except AutomatonError Dfa}

/-- Step by step, a run records and makes what it answers at once. -/
theorem runs_iff (hn : n.Sound) (hsymbols : ∀ a ∈ c.alphabet.toList, a.Hashable) :
    c.Runs n log outcome ↔ (log, outcome) = c.course n := by
  have hcourse : ∃ log' outcome', c.Runs n log' outcome' ∧ (log', outcome') = c.course n := by
    cases hmarker : n.requireMarker n.starts with
    | error fault =>
      have hclosure : n.closure? (.list n.starts.toList) = .error fault := by
        rw [Nfa.closure?, ValueSet.ofValue?_toList hn.starts]
        change (n.requireMarker n.starts >>= _) = _
        rw [hmarker]
        rfl
      have hbegin : c.begin? n = .error (.shape fault) := by
        rw [begin?, hclosure]
        rfl
      have hrun : c.run? n = .error (.shape fault) := by
        rw [run?_eq_bind, hmarker]
        rfl
      exact ⟨_, _, .refused hbegin, by rw [course, hrun]⟩
    | ok u =>
      have hrunnable : c.Runnable n :=
        ⟨hn, ⟨hn.starts, Nfa.requireMarker_eq_ok_iff.mp hmarker⟩, hsymbols⟩
      have hrun := run?_eq_bind c n
      rw [hmarker] at hrun
      by_cases hreportable : reportable (c.dfa n) = true
      · have hrun := hrun.trans (if_pos hreportable)
        exact ⟨_, _, exists_runs hrunnable hreportable, by rw [course, hrun]⟩
      · have hrun := hrun.trans (if_neg hreportable)
        exact ⟨_, _, exists_runs_failed hrunnable hreportable, by rw [course, hrun]⟩
  obtain ⟨log', outcome', hruns, heq⟩ := hcourse
  rw [← heq, Prod.mk.injEq]
  constructor
  · intro h
    exact h.eq_of_runs hruns
  · rintro ⟨rfl, rfl⟩
    exact hruns

end Course

end Construction

/-- What a conversion records and makes that answers at once. -/
def Nfa.course [DigitLimit] (n : Nfa) (alphabet : Option Value) (worklist : Value) :
    List Event × Except AutomatonError Dfa :=
  match Construction.prepare? n (alphabet.getD (.list n.symbols.toList)) worklist with
  | .ok c => c.course n
  | .error e => ([], .error e)

namespace Nfa

variable [DigitLimit] {n : Nfa} {alphabet : Option Value} {worklist : Value}

/-- A conversion makes what it answers. -/
theorem course_snd (n : Nfa) (alphabet : Option Value) (worklist : Value) :
    (n.course alphabet worklist).2 = (n.convert? alphabet worklist).map (·.dfa) := by
  rw [course, convert?]
  cases Construction.prepare? n (alphabet.getD (.list n.symbols.toList)) worklist with
  | error e => rfl
  | ok c =>
    change (c.course n).2 = (c.run? n).map (·.dfa)
    rw [Construction.course]
    cases c.run? n with
    | ok r => rfl
    | error e => cases e <;> rfl

/-- Step by step, a conversion records and makes what it answers at once. -/
theorem converts_iff (hn : n.Sound) {log : List Event} {outcome : Except AutomatonError Dfa} :
    n.Converts alphabet worklist log outcome ↔ (log, outcome) = n.course alphabet worklist := by
  rw [course]
  cases hprepare : Construction.prepare? n (alphabet.getD (.list n.symbols.toList)) worklist with
  | error e =>
    constructor
    · intro h
      cases h with
      | refused h =>
        cases hprepare.symm.trans h
        rfl
      | prepared h => cases hprepare.symm.trans h
    · intro h
      cases h
      exact .refused hprepare
  | ok c =>
    have hsymbols := ValueSet.hashable_of_ofValue?_eq_ok (Construction.of_prepare?_eq_ok hprepare).2
    dsimp only
    rw [← Construction.runs_iff hn hsymbols]
    constructor
    · intro h
      cases h with
      | refused h => cases hprepare.symm.trans h
      | prepared h hruns =>
        cases hprepare.symm.trans h
        exact hruns
    · exact .prepared hprepare

end Nfa

end Determinize
