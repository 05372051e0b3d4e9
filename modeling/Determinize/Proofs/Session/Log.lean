import Determinize.Proofs.Construction.Session
import Determinize.Proofs.Nfa.Description
import Determinize.Proofs.Nfa.Spelled

/-!
# What was added in a session

The transitions of an automaton in a session are those it was made with and those that were added
with success since, whatever else was asked in between: additions that fail, changes of the marker and
of the start and accept states, and conversions, which only read. A transition that reads nothing was
added under the marker of that moment. So everything that an automaton answers about its transitions
can be read off from a log of additions.

Reading an automaton answers something and makes no automaton. Only conversions and runs appear as
requests of a session; what else can be read is asked after any list of requests.

## Main definitions

* `Nfa.addition?`, `Nfa.given` — what a change adds, and what an automaton is made with.
* `Nfa.Reflects` — the targets of an automaton are those of a log.
* `Nfa.Answers` — what an automaton answers, read off from a log.
* `Session.added` — what the requests of a session add to an automaton.

## Main results

* `Nfa.Reflects.change`, `Session.Reflects.next` — automata reflect what was added.
* `Session.answers_added` — what an automaton answers after any session.
-/

namespace Determinize

namespace Nfa

/-! ### Adding one transition -/

/-- The transition that a change is to add. One that reads nothing is added under the marker. -/
def Change.transition? (marker : Value) : Change → Option (Value × Value × Value)
  | .add source symbol target => some (source, symbol, target)
  | .addMarked source target => some (source, marker, target)
  | .addStart _ | .addAccept _ | .removeStart _ | .removeAccept _ | .setMarker _ => none

/-- The transition that a change adds, if it succeeds. -/
def addition? (n : Nfa) (c : Change) : Option (Value × Value × Value) :=
  if (n.change c).1.isNone then c.transition? n.marker else none

/-- The transitions that an automaton is made with, if it is made of triples. -/
def given (transitions marker : Value) : List (Value × Value × Value) :=
  (transitions.itemList?.getD []).filterMap fun x =>
    x.triple?.toOption.map (Description.labelled marker)

variable {n n' : Nfa} {p a q p' a' : Value} {log : List (Value × Value × Value)}

/-- An addition that fails leaves all targets as they are. -/
theorem sameTargets_add {fault : ShapeError} (h : (n.add p a q).1 = some fault) :
    n.SameTargets (n.add p a q).2 := by
  rcases n.add_cases p a q with ⟨-, -, -, hadd⟩ | ⟨_, -, ⟨-, hadd⟩ | ⟨-, -, hadd⟩ | ⟨-, -, hadd⟩⟩
  · rw [hadd] at h
    cases h
  · rw [hadd]
    exact ⟨rfl, rfl, rfl, fun _ _ _ => rfl⟩
  · rw [hadd]
    exact n.sameTargets_reserveSource p
  · rw [hadd]
    exact n.sameTargets_reserveTargets p a

/-! ### Logs -/

/-- The targets of the logged transitions from `p` with the label `a`, in the order of the log. -/
def loggedTargets (log : List (Value × Value × Value)) (p a : Value) : List Value :=
  (log.filter fun t => t.1 == p && t.2.1 == a).map (·.2.2)

/-- The targets of an automaton are those of a log, each once and spelled as it was added first. -/
def Reflects (n : Nfa) (log : List (Value × Value × Value)) : Prop :=
  ∀ p a, n.targets p a = OrderedSet.ofList (loggedTargets log p a)

/-- What an automaton answers to which the transitions of a log were added. -/
structure Answers (n : Nfa) (log : List (Value × Value × Value)) : Prop where
  /-- No transition is listed twice, however it is spelled. -/
  distinct : n.transitions.Pairwise fun t u => (t == u) = false
  transitions : ∀ t, (∃ u ∈ n.transitions, (u == t) = true) ↔ ∃ u ∈ log, (u == t) = true
  transitionsFor : ∀ p a, p.Hashable → a.Hashable →
    n.transitionsFor? p a = .ok (OrderedSet.ofList (loggedTargets log p a))
  /-- The symbol is not looked at if there is no room for transitions of the state. -/
  transitionsFor_of_ok : ∀ p a T, n.transitionsFor? p a = .ok T →
    T = OrderedSet.ofList (loggedTargets log p a)
  states : ∀ q, n.states.contains q = true ↔
    n.starts.contains q = true ∨ n.accepts.contains q = true ∨
      ∃ t ∈ log, (t.1 == q) = true ∨ (t.2.2 == q) = true
  symbols : ∀ a, n.symbols.contains a = true ↔
    (∃ t ∈ log, (t.2.1 == a) = true) ∧ a.differs n.marker = true

theorem loggedTargets_append_singleton (log : List (Value × Value × Value))
    (t : Value × Value × Value) (p a : Value) :
    loggedTargets (log ++ [t]) p a =
      loggedTargets log p a ++ if t.1 == p && t.2.1 == a then [t.2.2] else [] := by
  rw [loggedTargets, List.filter_append, List.map_append, ← loggedTargets, List.filter_cons,
    List.filter_nil]
  split <;> rfl

theorem mem_loggedTargets : q ∈ loggedTargets log p a ↔
    ∃ t ∈ log, (t.1 == p) = true ∧ (t.2.1 == a) = true ∧ t.2.2 = q := by
  simp only [loggedTargets, List.mem_map, List.mem_filter, Bool.and_eq_true, and_assoc]

/-! ### One change -/

theorem Reflects.of_edges_eq (h : n.Reflects log) (hedges : n'.edges = n.edges) :
    n'.Reflects log := by
  intro p a
  rw [← h p a, targets, targets, hedges]

theorem Reflects.of_sameTargets (h : n.Reflects log) (hsame : n.SameTargets n') :
    n'.Reflects log :=
  fun p a => (hsame.targets p a trivial).symm.trans (h p a)

theorem Reflects.link (h : n.Reflects log) (p a q : Value) :
    (n.link p a q).Reflects (log ++ [(p, a, q)]) := by
  intro p' a'
  rw [targets_link, loggedTargets_append_singleton]
  split
  · rename_i hsame
    rw [Bool.and_eq_true] at hsame
    rw [OrderedSet.ofList_append_singleton, targets_congr hsame.1 hsame.2, h p' a']
  · rw [List.append_nil, h p' a']

theorem change_eq_add {c : Change} (h : c.transition? n.marker = some (p, a, q)) :
    n.change c = n.add p a q := by
  cases c <;> cases h <;> rfl

/-- An addition is logged if it succeeds. -/
theorem Reflects.addition (h : n.Reflects log) {c : Change}
    (hc : c.transition? n.marker = some (p, a, q)) :
    (n.change c).2.Reflects (log ++ (n.addition? c).toList) := by
  rw [addition?, hc, change_eq_add hc]
  cases hfault : (n.add p a q).1 with
  | some fault => simpa using h.of_sameTargets (sameTargets_add hfault)
  | none =>
    rw [link_of_add hfault]
    exact h.link p a q

/-- Start states, accept states and the marker are changed apart from the transitions. -/
theorem edges_orKeep {x : Value} (hedges : n'.edges = n.edges) :
    (n.orKeep (x.requireHashable >>= fun _ => pure n')).2.edges = n.edges := by
  cases x.requireHashable with
  | ok => exact hedges
  | error fault => rfl

theorem addition?_of_transition?_eq_none {c : Change} (h : c.transition? n.marker = none) :
    n.addition? c = none := by
  rw [addition?, h, ite_self]

/-- A change adds its transition to the log, if it adds one. -/
theorem Reflects.change (h : n.Reflects log) (c : Change) :
    (n.change c).2.Reflects (log ++ (n.addition? c).toList) := by
  -- A change that is not to add a transition keeps them all.
  have hkeep (hc : c.transition? n.marker = none) (hedges : (n.change c).2.edges = n.edges) :
      (n.change c).2.Reflects (log ++ (n.addition? c).toList) := by
    rw [addition?_of_transition?_eq_none hc, Option.toList_none, List.append_nil]
    exact h.of_edges_eq hedges
  cases c with
  | add p a q => exact h.addition rfl
  | addMarked p q => exact h.addition rfl
  | addStart state => exact hkeep rfl (edges_orKeep rfl)
  | addAccept state => exact hkeep rfl (edges_orKeep rfl)
  | removeStart state => exact hkeep rfl (edges_orKeep rfl)
  | removeAccept state => exact hkeep rfl (edges_orKeep rfl)
  | setMarker marker => exact hkeep rfl rfl

/-! ### Making an automaton -/

theorem eq_of_new? {starts accepts marker : Value} (h : new? starts accepts marker = .ok n) :
    n.marker = marker ∧ n.edges = .empty := by
  obtain ⟨S, -, h⟩ := exists_of_bind_eq_ok h
  obtain ⟨A, -, h⟩ := exists_of_bind_eq_ok h
  injection h with h
  rw [← h]
  exact ⟨rfl, rfl⟩

theorem reflects_of_new? {starts accepts marker : Value} (h : new? starts accepts marker = .ok n) :
    n.Reflects [] := by
  intro p a
  rw [targets, (eq_of_new? h).2]
  rfl

/-- A triple that is added is logged with its label. -/
theorem Reflects.addTriple? (h : n.Reflects log) {x : Value} (hadd : n.addTriple? x = .ok n') :
    n'.marker = n.marker ∧
      n'.Reflects (log ++ (x.triple?.toOption.map (Description.labelled n.marker)).toList) := by
  obtain ⟨⟨p, a, q⟩, ht, hadd⟩ := exists_of_bind_eq_ok hadd
  rw [ht]
  obtain rfl := eq_link_of_add? hadd
  exact ⟨rfl, h.link _ _ _⟩

theorem Reflects.foldlM_addTriple? (h : n.Reflects log) {triples : List Value}
    (hadd : triples.foldlM Nfa.addTriple? n = .ok n') :
    n'.Reflects (log ++ triples.filterMap fun x =>
      x.triple?.toOption.map (Description.labelled n.marker)) := by
  induction triples generalizing n log with
  | nil =>
    injection hadd with hadd
    rwa [← hadd, List.filterMap_nil, List.append_nil]
  | cons x triples ih =>
    rw [List.foldlM_cons] at hadd
    obtain ⟨m, hfirst, hrest⟩ := exists_of_bind_eq_ok hadd
    obtain ⟨hmarker, hm⟩ := h.addTriple? hfirst
    have hn' := ih hm hrest
    rw [hmarker, List.append_assoc] at hn'
    rw [List.filterMap_cons]
    cases hx : x.triple?.toOption.map (Description.labelled n.marker) <;> simpa [hx] using hn'

theorem reflects_of_ofTriples? {transitions starts accepts marker : Value}
    (h : ofTriples? transitions starts accepts marker = .ok n) :
    n.Reflects (given transitions marker) := by
  obtain ⟨m, hnew, h⟩ := exists_of_bind_eq_ok h
  obtain ⟨triples, htriples, h⟩ := exists_of_bind_eq_ok h
  have hitems : transitions.itemList? = some triples := by
    rw [Value.items?] at htriples
    split at htriples
    · rename_i heq
      cases htriples
      exact heq
    · cases htriples
  have hn := (reflects_of_new? hnew).foldlM_addTriple? h
  rw [(eq_of_new? hnew).1, List.nil_append] at hn
  rwa [given, hitems]

/-! ### Answers -/

namespace Reflects

variable (h : n.Reflects log)

include h

theorem exists_beq_iff (t : Value × Value × Value) :
    (∃ u ∈ n.transitions, (u == t) = true) ↔ ∃ u ∈ log, (u == t) = true := by
  rw [← hasEdge_iff_exists_beq, ← contains_targets_iff, h, OrderedSet.contains_ofList_iff]
  simp only [mem_loggedTargets, triple_beq_iff]
  constructor
  · rintro ⟨_, ⟨u, hu, hp, ha, rfl⟩, hq⟩
    exact ⟨u, hu, hp, ha, hq⟩
  · rintro ⟨u, hu, hp, ha, hq⟩
    exact ⟨_, ⟨u, hu, hp, ha, rfl⟩, hq⟩

/-- What an automaton answers can be read off from the log that it reflects. -/
theorem answers : n.Answers log where
  distinct := n.pairwise_transitions
  transitions := h.exists_beq_iff
  transitionsFor p a hp ha := by
    rw [← h p a, transitionsFor?, Value.requireHashable_eq_ok hp, Value.requireHashable_eq_ok ha]
    exact ite_self (Except.ok (n.targets p a))
  transitionsFor_of_ok p a T hT := by
    obtain ⟨_, -, hT⟩ := exists_of_bind_eq_ok hT
    rw [← h p a]
    split at hT
    · obtain ⟨_, -, hT⟩ := exists_of_bind_eq_ok hT
      exact (Except.ok.inj hT).symm
    · exact (Except.ok.inj hT).symm
  states := contains_states_iff_of_sameEdges h.exists_beq_iff
  symbols := contains_symbols_iff_of_sameEdges h.exists_beq_iff

end Reflects

end Nfa

/-! ### Sessions -/

namespace Session

/-- What an attempt to make an automaton adds at a place of the session: what is given, if the
automaton is made and has this place. -/
def givenAt (s : Session) (i : Nat) (given : List (Value × Value × Value)) :
    Except ShapeError Nfa → List (Value × Value × Value)
  | .ok _ => if i = s.automata.length then given else []
  | .error _ => []

/-- What a request adds to the automaton at a place of the session. -/
def additions (s : Session) (i : Nat) : Request → List (Value × Value × Value)
  | .make starts accepts marker => s.givenAt i [] (Nfa.new? starts accepts marker)
  | .makeOfTriples transitions starts accepts marker =>
    s.givenAt i (Nfa.given transitions marker) (Nfa.ofTriples? transitions starts accepts marker)
  | .change k c => if k = i then (s.automata[i]?.bind (·.addition? c)).toList else []
  | .prepare .. | .run _ | .convert .. => []

/-- What the requests of a list add to the automaton at a place of the session, in this order. -/
def added [DigitLimit] (s : Session) (i : Nat) : List Request → List (Value × Value × Value)
  | [] => []
  | r :: requests => s.additions i r ++ (s.next r).added i requests

/-- Every automaton reflects its log, and nothing is logged for automata that are not there. -/
structure Reflects (s : Session) (logs : Nat → List (Value × Value × Value)) : Prop where
  automaton : ∀ i (n : Nfa), s.automata[i]? = some n → n.Reflects (logs i)
  absent : ∀ i, s.automata[i]? = none → logs i = []

section Course

variable {s : Session} {logs : Nat → List (Value × Value × Value)}

theorem Reflects.of_automata_eq {s' : Session} (h : s.Reflects logs)
    (hs : s'.automata = s.automata) : s'.Reflects fun i => logs i ++ [] := by
  simp only [List.append_nil]
  exact ⟨hs ▸ h.automaton, hs ▸ h.absent⟩

theorem Reflects.adding (h : s.Reflects logs) {x : Except ShapeError Nfa}
    {given : List (Value × Value × Value)} (hx : ∀ n, x = .ok n → n.Reflects given) :
    (s.adding x).Reflects fun i => logs i ++ s.givenAt i given x := by
  cases x with
  | error fault => exact h.of_automata_eq rfl
  | ok m =>
    have hautomata (i : Nat) : (s.adding (.ok m)).automata[i]? =
        if i = s.automata.length then some m else s.automata[i]? := by
      change (s.automata ++ [m])[i]? = _
      grind
    -- The place of the automaton that is made was empty, so nothing was logged for it.
    have hnew : logs s.automata.length = [] := h.absent _ (List.getElem?_eq_none le_rfl)
    constructor
    · intro i n hn
      rw [hautomata] at hn
      rw [givenAt]
      split at hn
      · rename_i hi
        injection hn with hn
        rw [if_pos hi, hi, hnew, List.nil_append, ← hn]
        exact hx m rfl
      · rename_i hi
        rw [if_neg hi, List.append_nil]
        exact h.automaton i n hn
    · intro i hi
      rw [hautomata] at hi
      split at hi
      · cases hi
      · rename_i hne
        rw [givenAt, if_neg hne, List.append_nil]
        exact h.absent i hi

variable [DigitLimit]

/-- A request adds to the logs what it adds to the automata. -/
theorem Reflects.next (h : s.Reflects logs) (r : Request) :
    (s.next r).Reflects fun i => logs i ++ s.additions i r := by
  cases r with
  | make starts accepts marker => exact h.adding fun n => Nfa.reflects_of_new?
  | makeOfTriples transitions starts accepts marker =>
    exact h.adding fun n => Nfa.reflects_of_ofTriples?
  | change k c =>
    have hautomata (i : Nat) : (s.next (.change k c)).automata[i]? =
        (fun n => if k = i then (n.change c).2 else n) <$> s.automata[i]? :=
      List.getElem?_modify ..
    constructor
    · intro i n hn
      rw [hautomata] at hn
      obtain ⟨m, hm, rfl⟩ := Option.map_eq_some_iff.mp hn
      rw [additions, hm]
      split
      · exact (h.automaton i m hm).change c
      · rw [List.append_nil]
        exact h.automaton i m hm
    · intro i hi
      rw [hautomata, Option.map_eq_map, Option.map_eq_none_iff] at hi
      rw [additions, hi, h.absent i hi]
      exact ite_self []
  | prepare k alphabet worklist =>
    refine h.of_automata_eq ?_
    rw [Session.next]
    cases s.automata[k]? with
    | none => rfl
    | some m => cases hc : Construction.prepare? m alphabet worklist <;> simp only [hc, preparing]
  | run j => exact h.of_automata_eq rfl
  | convert k alphabet worklist => exact h.of_automata_eq rfl

/-- The automata of a session reflect what was added. -/
theorem Reflects.after (h : s.Reflects logs) (requests : List Request) :
    (s.after requests).Reflects fun i => logs i ++ s.added i requests := by
  induction requests generalizing s logs with
  | nil => exact h.of_automata_eq rfl
  | cons r requests ih =>
    simp only [added, ← List.append_assoc]
    exact ih (h.next r)

/-- What an automaton answers after any session is what was added to it. -/
theorem answers_added (requests : List Request) {i : Nat} {n : Nfa}
    (h : (empty.after requests).automata[i]? = some n) : n.Answers (empty.added i requests) := by
  have hempty : empty.Reflects fun _ => [] := ⟨fun _ _ hn => (nomatch hn), fun _ _ => rfl⟩
  simpa only [List.nil_append] using ((hempty.after requests).automaton i n h).answers

end Course

/-- Transitions are added under two markers, twice the same one in different spellings, and additions
fail at the symbol and at the target. A second automaton is given by triples. -/
def relabelling : List Request :=
  [.make (.list [.int 0]) (.list [.int 2]) (.text "e"),
    .makeOfTriples (.tuple [.list [.int 0, .null, .int 1], .tuple [.int 1, .text "a", .int 2]])
      (.list []) (.list []) (.text "ε"),
    .change 0 (.addMarked (.int 0) (.int 1)),
    .change 0 (.add (.bool true) (.list []) (.int 2)),
    .change 0 (.add (.int 1) (.text "b") (.list [])),
    .change 0 (.setMarker (.text "a")),
    .change 0 (.add (.int 1) (.text "a") (.int 2)),
    .change 0 (.addMarked (.bool true) (.bool true)),
    .change 0 (.addMarked (.int 1) (.int 1)),
    .change 0 (.removeStart (.int 0)),
    .convert 0 none (.text "fifo")]

/-- The transition under the first marker is one that reads a symbol. -/
theorem answers_added_relabelling :
    (∃ n, (empty.after relabelling).automata[0]? = some n ∧
        n.Answers [(.int 0, .text "e", .int 1), (.int 1, .text "a", .int 2),
          (.bool true, .text "a", .bool true), (.int 1, .text "a", .int 1)] ∧
        n.symbols.toList = [.text "e"]) ∧
      ∃ n, (empty.after relabelling).automata[1]? = some n ∧
        n.Answers [(.int 0, .text "ε", .int 1), (.int 1, .text "a", .int 2)] := by
  have hlog : empty.added 0 relabelling = [(.int 0, .text "e", .int 1), (.int 1, .text "a", .int 2),
      (.bool true, .text "a", .bool true), (.int 1, .text "a", .int 1)] := by decide
  have hlog' : empty.added 1 relabelling =
      [(.int 0, .text "ε", .int 1), (.int 1, .text "a", .int 2)] := by decide
  refine ⟨⟨_, rfl, ?_, by decide⟩, _, rfl, ?_⟩
  · rw [← hlog]
    exact answers_added relabelling rfl
  · rw [← hlog']
    exact answers_added relabelling rfl

end Session

end Determinize
