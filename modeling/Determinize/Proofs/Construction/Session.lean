import Determinize.Proofs.Construction.Exploration
import Determinize.Proofs.Nfa.History

/-!
# Prepared constructions in a session

In a session automata are made and changed, and constructions are prepared for them. A prepared
construction refers to its automaton: a run reads the automaton as it is at that moment, while the
alphabet was compared with the marker when the construction was prepared. A conversion does both at
once.

So a run answers what a conversion would answer at that moment, unless the marker has become a
symbol of the alphabet since: then the conversion is refused, and the run goes on over the alphabet
that was accepted before.

## Main definitions

* `Session`, `Session.Request`, `Session.next`, `Session.after` — sessions and their course.
* `Session.answer` — what a session answers.

## Main results

* `Construction.prepare?_of_prepare?_eq_ok` — a construction can be prepared again unless the marker
  is a symbol.
* `Session.Valid.next`, `Session.valid_after` — prepared constructions have been accepted.
* `Session.answer_run_eq_answer_convert` — runs against conversions.
-/

namespace Determinize

/-! ### Preparing a construction again -/

namespace Construction

variable [DigitLimit] {n n₀ : Nfa} {alphabet worklist : Value} {c : Construction}

/-- A construction that was prepared once is prepared from the same arguments for every automaton
whose marker is not one of its symbols. -/
theorem prepare?_of_prepare?_eq_ok (h : prepare? n₀ alphabet worklist = .ok c) :
    prepare? n alphabet worklist =
      if c.alphabet.contains n.marker then .error (.markerInAlphabet n.marker) else .ok c :=
  prepare?_eq (of_prepare?_eq_ok h).1 (of_prepare?_eq_ok h).2

/-- With the arguments of a prepared construction, a conversion looks at the marker and then does
what a run does. -/
theorem convert?_of_prepare?_eq_ok (h : prepare? n₀ alphabet worklist = .ok c) :
    n.convert? (some alphabet) worklist =
      if c.alphabet.contains n.marker then .error (.markerInAlphabet n.marker) else c.run? n := by
  rw [Nfa.convert?, Option.getD_some, prepare?_of_prepare?_eq_ok h]
  split <;> rfl

/-- A run is not refused if the marker is a symbol. -/
theorem run?_of_contains_marker (h : prepare? n₀ alphabet worklist = .ok c)
    (hmarker : c.alphabet.contains n.marker = true) :
    c.run? n = if n.Reportable c.alphabet then .ok ⟨c.dfa n, events (c.dfa n)⟩
      else .error .tooManyDigits := by
  obtain ⟨a, ha, hmarker⟩ := OrderedSet.contains_iff.mp hmarker
  have hhash := ValueSet.hashable_of_ofValue?_eq_ok (of_prepare?_eq_ok h).2 a ha
  exact c.run?_of_hashable ((Value.hashable_congr hmarker).mp hhash)

/-- The alphabet of what a run makes is that of the construction. -/
theorem alphabet_of_run?_eq_ok {r : Conversion} (h : c.run? n = .ok r) :
    r.dfa.alphabet = c.alphabet := by
  rw [(of_run?_eq_ok h).1]
  rfl

end Construction

/-! ### Sessions -/

/-- A construction that was prepared in a session, with what it was prepared from. -/
structure Prepared where
  /-- The place of its automaton in the session. -/
  automaton : Nat
  alphabet : Value
  worklist : Value
  construction : Construction

/-- The automata of a session and the constructions that were prepared for them, in the order in
which they were made. -/
structure Session where
  automata : List Nfa
  prepared : List Prepared

namespace Session

/-- What is asked of a session. Automata and constructions are named by their places. -/
inductive Request
  | make (starts accepts marker : Value)
  | makeOfTriples (transitions starts accepts marker : Value)
  | change (automaton : Nat) (change : Nfa.Change)
  | prepare (automaton : Nat) (alphabet worklist : Value)
  | run (construction : Nat)
  | convert (automaton : Nat) (alphabet : Option Value) (worklist : Value)

/-- What a session answers. -/
inductive Answer
  | done
  | converted (c : Conversion)
  | refused (e : AutomatonError)
  /-- There is nothing at the place that was named. -/
  | absent

/-- The session without automata. -/
def empty : Session := ⟨[], []⟩

/-- The session with a further automaton, if it could be made. -/
def adding (s : Session) : Except ShapeError Nfa → Session
  | .ok n => { s with automata := s.automata ++ [n] }
  | .error _ => s

/-- The session with a further construction for an automaton, if it could be prepared. -/
def preparing (s : Session) (automaton : Nat) (alphabet worklist : Value) :
    Except AutomatonError Construction → Session
  | .ok c => { s with prepared := s.prepared ++ [⟨automaton, alphabet, worklist, c⟩] }
  | .error _ => s

/-- The session after a request. Runs and conversions leave it as it is. -/
def next [DigitLimit] (s : Session) : Request → Session
  | .make starts accepts marker => s.adding (Nfa.new? starts accepts marker)
  | .makeOfTriples transitions starts accepts marker =>
    s.adding (Nfa.ofTriples? transitions starts accepts marker)
  | .change i c => { s with automata := s.automata.modify i fun n => (n.change c).2 }
  | .prepare i alphabet worklist =>
    match s.automata[i]? with
    | some n => s.preparing i alphabet worklist (Construction.prepare? n alphabet worklist)
    | none => s
  | .run _ | .convert .. => s

/-- The session after a list of requests. -/
def after [DigitLimit] (s : Session) (requests : List Request) : Session := requests.foldl next s

/-- The answer to an attempt. -/
def Answer.ofResult {ε α : Type} (refusal : ε → AutomatonError) (success : α → Answer) :
    Except ε α → Answer
  | .ok x => success x
  | .error e => .refused (refusal e)

/-- The answer to a request. -/
def answer [DigitLimit] (s : Session) : Request → Answer
  | .make starts accepts marker =>
    .ofResult .shape (fun _ => .done) (Nfa.new? starts accepts marker)
  | .makeOfTriples transitions starts accepts marker =>
    .ofResult .shape (fun _ => .done) (Nfa.ofTriples? transitions starts accepts marker)
  | .change i c =>
    match s.automata[i]? with
    | some n => ((n.change c).1.map fun fault => .refused (.shape fault)).getD .done
    | none => .absent
  | .prepare i alphabet worklist =>
    match s.automata[i]? with
    | some n => .ofResult id (fun _ => .done) (Construction.prepare? n alphabet worklist)
    | none => .absent
  | .run j =>
    match s.prepared[j]? with
    | some p =>
      match s.automata[p.automaton]? with
      | some n => .ofResult id .converted (p.construction.run? n)
      | none => .absent
    | none => .absent
  | .convert i alphabet worklist =>
    match s.automata[i]? with
    | some n => .ofResult id .converted (n.convert? alphabet worklist)
    | none => .absent

/-- Whether a request changes an automaton. -/
def Request.changes (automaton : Nat) : Request → Bool
  | .change i _ => i == automaton
  | _ => false

/-! ### The course of a session -/

/-- Every construction refers to an automaton, and was accepted for an automaton. -/
def Valid [DigitLimit] (s : Session) : Prop :=
  ∀ p ∈ s.prepared, p.automaton < s.automata.length ∧
    ∃ n, Construction.prepare? n p.alphabet p.worklist = .ok p.construction

section Course

variable [DigitLimit] {s : Session} {p : Prepared} {n : Nfa} {j : Nat}

theorem Valid.adding (hs : s.Valid) (x : Except ShapeError Nfa) : (s.adding x).Valid := by
  cases x with
  | error e => exact hs
  | ok n =>
    intro p hp
    refine ⟨?_, (hs p hp).2⟩
    change p.automaton < (s.automata ++ [n]).length
    rw [List.length_append]
    exact Nat.lt_add_right _ (hs p hp).1

theorem Valid.next (hs : s.Valid) (r : Request) : (s.next r).Valid := by
  cases r with
  | make starts accepts marker => exact hs.adding _
  | makeOfTriples transitions starts accepts marker => exact hs.adding _
  | change i c =>
    intro p hp
    refine ⟨?_, (hs p hp).2⟩
    change p.automaton < (s.automata.modify i fun n => (n.change c).2).length
    rw [List.length_modify]
    exact (hs p hp).1
  | prepare i alphabet worklist =>
    rw [Session.next]
    cases hn : s.automata[i]? with
    | none => exact hs
    | some n =>
      cases hc : Construction.prepare? n alphabet worklist with
      | error e => simpa only [hc, preparing] using hs
      | ok c =>
        simp only [hc, preparing]
        intro p hp
        rcases List.mem_append.mp hp with hp | hp
        · exact hs p hp
        · rw [List.mem_singleton.mp hp]
          exact ⟨(List.getElem?_eq_some_iff.mp hn).1, n, hc⟩
  | run j => exact hs
  | convert i alphabet worklist => exact hs

/-- What holds at first and is kept by every request of a list holds after the list. -/
theorem after_induction {P : Session → Prop} (hs : P s) {requests : List Request}
    (hnext : ∀ r ∈ requests, ∀ s, P s → P (s.next r)) : P (s.after requests) := by
  induction requests generalizing s with
  | nil => exact hs
  | cons r requests ih =>
    rw [List.forall_mem_cons] at hnext
    exact ih (hnext.1 s hs) hnext.2

theorem valid_after (requests : List Request) : (empty.after requests).Valid :=
  after_induction (fun _ hp => absurd hp List.not_mem_nil) fun r _ _ hs => hs.next r

omit [DigitLimit] in
theorem getElem?_append_of_eq_some {α : Type} {xs : List α} {i : Nat} {x : α}
    (h : xs[i]? = some x) (ys : List α) : (xs ++ ys)[i]? = some x := by
  rw [List.getElem?_append_left (List.getElem?_eq_some_iff.mp h).1, h]

/-- A request that does not change an automaton leaves it as it is. -/
theorem getElem?_automata_next {i : Nat} {r : Request} (hr : r.changes i = false)
    (hn : s.automata[i]? = some n) : (s.next r).automata[i]? = some n := by
  have hadd (x : Except ShapeError Nfa) : (s.adding x).automata[i]? = some n := by
    cases x with
    | error e => exact hn
    | ok n' => exact getElem?_append_of_eq_some hn [n']
  cases r with
  | make starts accepts marker => exact hadd _
  | makeOfTriples transitions starts accepts marker => exact hadd _
  | change k c =>
    have hki : k ≠ i := by simpa [Request.changes] using hr
    simpa [Session.next, List.getElem?_modify, hki] using hn
  | prepare k alphabet worklist =>
    rw [Session.next]
    cases s.automata[k]? with
    | none => exact hn
    | some m => cases hc : Construction.prepare? m alphabet worklist <;> simpa only [preparing, hc]
  | run j => exact hn
  | convert k alphabet worklist => exact hn

/-- Prepared constructions stay. -/
theorem getElem?_prepared_next {j : Nat} (r : Request) (hp : s.prepared[j]? = some p) :
    (s.next r).prepared[j]? = some p := by
  have hadd (x : Except ShapeError Nfa) : (s.adding x).prepared[j]? = some p := by
    cases x <;> exact hp
  cases r with
  | make starts accepts marker => exact hadd _
  | makeOfTriples transitions starts accepts marker => exact hadd _
  | change k c => exact hp
  | prepare k alphabet worklist =>
    rw [Session.next]
    cases s.automata[k]? with
    | none => exact hp
    | some m =>
      cases hc : Construction.prepare? m alphabet worklist with
      | error e => simpa only [preparing, hc]
      | ok c => simpa only [preparing, hc] using getElem?_append_of_eq_some hp [_]
  | run j => exact hp
  | convert k alphabet worklist => exact hp

/-! ### Runs and conversions -/

theorem answer_run (hp : s.prepared[j]? = some p) (hn : s.automata[p.automaton]? = some n) :
    s.answer (.run j) = .ofResult id .converted (p.construction.run? n) := by
  simp only [answer, hp, hn]

theorem answer_convert {i : Nat} {alphabet : Option Value} {worklist : Value}
    (hn : s.automata[i]? = some n) :
    s.answer (.convert i alphabet worklist) =
      .ofResult id .converted (n.convert? alphabet worklist) := by
  simp only [answer, hn]

/-- As long as its automaton is not changed, a construction answers the same. -/
theorem answer_run_after (hp : s.prepared[j]? = some p) (hn : s.automata[p.automaton]? = some n)
    {requests : List Request} (hkeep : ∀ r ∈ requests, r.changes p.automaton = false) :
    (s.after requests).answer (.run j) = s.answer (.run j) := by
  have hafter := after_induction (s := s)
    (P := fun t => t.prepared[j]? = some p ∧ t.automata[p.automaton]? = some n) ⟨hp, hn⟩
    fun r hr t ht => ⟨getElem?_prepared_next r ht.1, getElem?_automata_next (hkeep r hr) ht.2⟩
  rw [answer_run hp hn, answer_run hafter.1 hafter.2]

/-- In every session, a run of a prepared construction answers what a conversion with the same
arguments would answer at that moment, unless the marker has become a symbol of the alphabet. Then
the conversion is refused, and the run goes on over the alphabet that was accepted: it fails only if a
reached set that it reports cannot be written. -/
theorem answer_run_eq_answer_convert (requests : List Request) {j : Nat} {p : Prepared}
    (hp : (empty.after requests).prepared[j]? = some p) :
    ∃ n, (empty.after requests).automata[p.automaton]? = some n ∧
      ValueSet.ofValue? p.alphabet = .ok p.construction.alphabet ∧
      (p.construction.alphabet.contains n.marker = false →
        (empty.after requests).answer (.run j) =
          (empty.after requests).answer (.convert p.automaton (some p.alphabet) p.worklist)) ∧
      (p.construction.alphabet.contains n.marker = true →
        (empty.after requests).answer (.convert p.automaton (some p.alphabet) p.worklist) =
            .refused (.markerInAlphabet n.marker) ∧
          (n.Reportable p.construction.alphabet →
            ∃ c, (empty.after requests).answer (.run j) = .converted c) ∧
          (¬ n.Reportable p.construction.alphabet →
            (empty.after requests).answer (.run j) = .refused .tooManyDigits)) ∧
      (∀ c, (empty.after requests).answer (.run j) = .converted c →
        c.dfa.alphabet = p.construction.alphabet) ∧
      ∀ more : List Request, (∀ r ∈ more, r.changes p.automaton = false) →
        ((empty.after requests).after more).answer (.run j) =
          (empty.after requests).answer (.run j) := by
  obtain ⟨hi, n₀, hprepared⟩ := valid_after requests p (List.mem_of_getElem? hp)
  obtain ⟨n, hn⟩ : ∃ n, (empty.after requests).automata[p.automaton]? = some n :=
    ⟨_, List.getElem?_eq_getElem hi⟩
  have hconvert := Construction.convert?_of_prepare?_eq_ok (n := n) hprepared
  refine ⟨n, hn, (Construction.of_prepare?_eq_ok hprepared).2, fun hfree => ?_,
    fun hmarker => ⟨?_, fun hreportable => ?_, fun hnot => ?_⟩, fun c hc => ?_,
    fun more hmore => ?_⟩
  · rw [answer_run hp hn, answer_convert hn, hconvert, hfree, if_neg Bool.false_ne_true]
  · rw [answer_convert hn, hconvert, hmarker, if_pos rfl]
    rfl
  · rw [answer_run hp hn, Construction.run?_of_contains_marker hprepared hmarker,
      if_pos hreportable]
    exact ⟨_, rfl⟩
  · rw [answer_run hp hn, Construction.run?_of_contains_marker hprepared hmarker, if_neg hnot]
    rfl
  · rw [answer_run hp hn] at hc
    cases hrun : p.construction.run? n with
    | error e => rw [hrun] at hc; cases hc
    | ok r =>
      rw [hrun] at hc
      injection hc with hc
      rw [← hc]
      exact Construction.alphabet_of_run?_eq_ok hrun
  · exact answer_run_after hp hn hmore

end Course

/-- A construction for the symbols `a`, after which a transition is added, a start state is removed
and the marker is set to the given value. -/
def remarking (marker : Value) : List Request :=
  [.make (.list [.int 0, .int 1]) (.list [.int 2]) (.text "ε"),
    .change 0 (.add (.int 0) (.text "a") (.int 1)),
    .prepare 0 (.list [.text "a", .text "a"]) (.text "lifo"),
    .change 0 (.add (.int 1) (.text "b") (.int 2)),
    .change 0 (.removeStart (.int 1)),
    .change 0 (.setMarker marker)]

/-- The transition that was added is read as marked by the run and by the conversion. -/
theorem answer_run_remarking_b :
    (empty.after (remarking (.text "b"))).answer (.run 0) =
      (empty.after (remarking (.text "b"))).answer
        (.convert 0 (some (.list [.text "a", .text "a"])) (.text "lifo")) := by
  obtain ⟨n, hn, -, hagree, -⟩ := answer_run_eq_answer_convert (remarking (.text "b")) (j := 0)
    (p := ⟨0, .list [.text "a", .text "a"], .text "lifo", ⟨.ofList [.text "a"], .lifo⟩⟩) rfl
  injection hn with hn
  exact hagree (by rw [← hn]; decide)

/-- Runs do not always answer what conversions do: after the marker has been set to a symbol, the
conversion is refused, and the run makes an automaton with the marker in its alphabet. -/
theorem answer_run_remarking_a :
    (empty.after (remarking (.text "a"))).answer (.run 0) ≠
        (empty.after (remarking (.text "a"))).answer
          (.convert 0 (some (.list [.text "a", .text "a"])) (.text "lifo")) ∧
      ∃ c n, (empty.after (remarking (.text "a"))).answer (.run 0) = .converted c ∧
        (empty.after (remarking (.text "a"))).automata[0]? = some n ∧
        c.dfa.alphabet.contains n.marker = true := by
  have hrefused : (empty.after (remarking (.text "a"))).answer
      (.convert 0 (some (.list [.text "a", .text "a"])) (.text "lifo")) =
        .refused (.markerInAlphabet (.text "a")) := rfl
  have hrun : ∃ c n, (empty.after (remarking (.text "a"))).answer (.run 0) = .converted c ∧
      (empty.after (remarking (.text "a"))).automata[0]? = some n ∧
      c.dfa.alphabet.contains n.marker = true := ⟨_, _, rfl, rfl, by decide⟩
  refine ⟨fun hequal => ?_, hrun⟩
  obtain ⟨c, -, hc, -⟩ := hrun
  rw [hc, hrefused] at hequal
  cases hequal

end Session

end Determinize
