import Determinize.Proofs.Construction.Course
import Determinize.Proofs.Construction.Table
import Determinize.Proofs.Value.StableSort
import Mathlib.Data.List.TakeWhile

/-!
# The log of a conversion

A conversion records every state but the start when it finds it, and its numbers at the end. So the log
tells the states of the converted automaton in their order. A conversion that is refused has recorded
nothing: it is refused before it finds a state. One that fails because a state cannot be written has
recorded the states before this one.

## Main definitions

* `Event.names` — a record tells that a set was found.
* `Dfa.Tells` — a log tells an automaton.

## Main results

* `OrderedSet.countP_beq` — members are counted once.
* `Construction.tells_events` — what a run records tells what it makes.
* `Nfa.converts_tells` — the log of a conversion, step by step.
-/

namespace Determinize

/-- A member of a set is in its list once. -/
theorem OrderedSet.countP_beq {α : Type} [BEq α] [EquivBEq α] (s : OrderedSet α) (a : α) :
    s.toList.countP (· == a) = (s.contains a).toNat := by
  obtain ⟨members, hdistinct⟩ := s
  change members.countP (· == a) = (members.any (· == a)).toNat
  induction members with
  | nil => rfl
  | cons x members ih =>
    rw [List.pairwise_cons] at hdistinct
    rw [List.countP_cons, List.any_cons, ih hdistinct.2]
    cases hx : x == a with
    | false => rfl
    | true =>
      have hnone : members.any (· == a) = false := by
        rw [List.any_eq_false]
        intro y hy hya
        have hxy := hdistinct.1 y hy
        rw [BEq.trans hx (BEq.symm hya)] at hxy
        cases hxy
      rw [hnone]
      rfl

/-- Whether a record tells that a set was found that equals the given one. -/
def Event.names (S : ValueSet) : Event → Bool
  | discovered T => T == S
  | constructed .. | loading _ | importing _ => false

/-- Whether the text of a value comes before that of another one. -/
def Value.isDisplayLess (x y : Value) : Bool := decide (x.display < y.display)

/-- A log tells the automaton that was made from an automaton over an alphabet: the states after the
start in their order, and how many states, accepting states and symbols there are. -/
structure Dfa.Tells [DigitLimit] (d : Dfa) (n : Nfa) (alphabet : ValueSet) (log : List Event) : Prop where
  start : d.states.toList.head? = some d.start
  /-- The states that meet the accept states are counted. -/
  records : log = (d.states.toList.drop 1).map .discovered ++
    [.constructed d.size (d.states.toList.countP fun S => S.toList.any n.accepts.contains)
      alphabet.size]
  levels : log.map Event.level = List.replicate (d.size - 1) .debug ++ [.info]
  shown : ∀ i S, d.states.toList[i + 1]? = some S → log[i]? = some (.discovered S)
  /-- The start is not recorded, and every other state once. -/
  once : ∀ S, log.countP (Event.names S) = (d.hasState S && !(d.start == S)).toNat
  /-- A record shows the members of its state, sorted by their texts. -/
  messages : ∀ S, .discovered S ∈ log → S.writable = true ∧
    ∃ items, IsStableSort Value.isDisplayLess S.toList items ∧
      (Event.discovered S).message = "Discovered state " ++ (Value.list items).quoted

namespace Construction

variable [DigitLimit] {c : Construction} {n : Nfa}

omit [DigitLimit] in
theorem isAccepting_eq_any (n : Nfa) (S : ValueSet) :
    n.isAccepting S = S.toList.any n.accepts.contains := by
  rw [Bool.eq_iff_iff, Nfa.isAccepting_iff, List.any_eq_true]
  constructor
  · rintro ⟨q, hq, hS⟩
    obtain ⟨x, hx, hxq⟩ := OrderedSet.contains_iff.mp hS
    exact ⟨x, hx, by rwa [OrderedSet.contains_congr _ hxq]⟩
  · rintro ⟨q, hq, hS⟩
    exact ⟨q, hS, OrderedSet.contains_of_mem hq⟩

/-- What a run records tells what it makes. -/
theorem tells_events (c : Construction) (n : Nfa) (hreportable : reportable (c.dfa n) = true) :
    (c.dfa n).Tells n c.alphabet (events (c.dfa n)) := by
  have hstart : (c.dfa n).states.toList.head? = some (c.dfa n).start := by
    rw [states_dfa]
    exact head?_explore c n
  obtain ⟨others, hstates⟩ := List.head?_eq_some_iff.mp hstart
  have hsize : (c.dfa n).size = others.length + 1 := by
    rw [size_dfa, ← states_dfa, OrderedSet.size, hstates, List.length_cons]
  have haccept : (c.dfa n).acceptStates.length =
      (c.dfa n).states.toList.countP fun S => S.toList.any n.accepts.contains := by
    rw [acceptStates_dfa, states_dfa, ← List.countP_eq_length_filter]
    exact List.countP_congr fun S _ => by rw [isAccepting_eq_any]
  have hevents : events (c.dfa n) = others.map .discovered ++
      [.constructed (c.dfa n).size (c.dfa n).acceptStates.length c.alphabet.size] := by
    rw [events, hstates]
    rfl
  refine ⟨hstart, ?_, ?_, fun i S hS => ?_, fun S => ?_, fun S hS => ⟨?_, ?_⟩⟩
  · rw [← haccept]
    rfl
  · rw [hevents, List.map_append, List.map_map, hsize, Nat.add_sub_cancel]
    exact congrArg (· ++ [Level.info]) List.map_const'
  · rw [hstates, List.getElem?_cons_succ] at hS
    rw [hevents, List.getElem?_append_left (by simpa using (List.getElem?_eq_some_iff.mp hS).1),
      List.getElem?_map, hS]
    rfl
  · -- Among the states the start is counted with the others, in the log it is not.
    have hcount := (c.dfa n).states.countP_beq S
    rw [hstates, List.countP_cons, Dfa.contains_states] at hcount
    rw [hevents, List.countP_append, List.countP_map]
    change others.countP (· == S) + 0 = _
    cases hS : (c.dfa n).start == S with
    | false => simpa [hS] using hcount
    | true =>
      have hstate : (c.dfa n).hasState S = true := by
        rw [← Dfa.contains_states]
        exact OrderedSet.contains_iff.mpr ⟨_, List.mem_of_head? hstart, hS⟩
      simpa [hS, hstate] using hcount
  · obtain ⟨T, hT, heq⟩ : ∃ T ∈ others, Event.discovered T = .discovered S := by
      simpa [hevents] using hS
    cases heq
    rw [reportable, hstates, List.drop_succ_cons, List.drop_zero, List.all_eq_true] at hreportable
    exact hreportable S hT
  · exact ⟨_, isStableSort_insertionSort (fun x y => decide_eq_true_iff) S.toList, rfl⟩

end Construction

namespace Nfa

section Converts

variable [DigitLimit] {n : Nfa} {alphabet : Option Value} {worklist : Value} {log : List Event}

/-- A conversion that fails has recorded nothing, unless a state cannot be written. -/
theorem Sound.log_eq_nil (hn : n.Sound) {e : AutomatonError} (he : e ≠ .tooManyDigits)
    (h : n.Converts alphabet worklist log (.error e)) : log = [] := by
  rw [converts_iff hn, course] at h
  split at h
  · rw [Construction.course] at h
    split at h
    · cases h
    · exact absurd (Except.error.inj (Prod.mk.inj h).2) he
    · exact (Prod.mk.inj h).1
  · exact (Prod.mk.inj h).1

/-- The records of a conversion over an alphabet without the marker tell what it makes. -/
theorem Sound.tells_of_converts (hn : n.Sound) {symbols : List Value} {d : Discipline} {e : Dfa}
    (hhash : ∀ a ∈ symbols, a.Hashable) (hfree : ∀ a ∈ symbols, (a == n.marker) = false)
    (h : n.Converts (some (.list symbols)) (.text d.name) log (.ok e)) :
    e.Tells n (OrderedSet.ofList symbols) log := by
  rw [converts_iff hn, course, Option.getD_some, Construction.prepare?_list d hhash hfree] at h
  dsimp only at h
  rw [Construction.course] at h
  split at h
  · rename_i hrun
    obtain ⟨rfl, hreportable⟩ := Construction.of_run?_eq_ok hrun
    obtain ⟨rfl, hdfa⟩ := Prod.mk.inj h
    rw [Except.ok.inj hdfa]
    exact Construction.tells_events ⟨OrderedSet.ofList symbols, d⟩ n
      ((Construction.reportable_dfa_iff _ n).mpr hreportable)
  · cases (Prod.mk.inj h).2
  · cases (Prod.mk.inj h).2

/-- The log tells the conversion. Step by step, a conversion has one course, which records and makes
what is answered at once. The records over an alphabet without the marker tell the states after the
start, each once, and the numbers of what is made. A conversion that is refused has recorded nothing; an
unknown order of expansion and the marker in the alphabet are refused so. If a state cannot be written,
the conversion fails there and has recorded the states before it. -/
theorem converts_tells (n : Nfa) (hn : n.Built) (symbols : List Value) (d : Discipline)
    (hhash : ∀ a ∈ symbols, a.Hashable) (hfree : ∀ a ∈ symbols, (a == n.marker) = false) :
    (∀ alphabet worklist log outcome, n.Converts alphabet worklist log outcome ↔
      (log, outcome) = n.course alphabet worklist) ∧
    (∀ alphabet worklist,
      (n.course alphabet worklist).2 = (n.convert? alphabet worklist).map (·.dfa)) ∧
    (n.marker.Hashable → n.Reportable (.ofList symbols) →
      ∃ log e, n.Converts (some (.list symbols)) (.text d.name) log (.ok e)) ∧
    (n.marker.Hashable → ¬ n.Reportable (.ofList symbols) →
      ∃ found : List ValueSet, (∀ S ∈ found, S.writable = true) ∧
        n.Converts (some (.list symbols)) (.text d.name) (found.map .discovered)
          (.error .tooManyDigits)) ∧
    (∀ log e, n.Converts (some (.list symbols)) (.text d.name) log (.ok e) →
      e.Tells n (OrderedSet.ofList symbols) log) ∧
    (∀ alphabet worklist log fault, fault ≠ .tooManyDigits →
      n.Converts alphabet worklist log (.error fault) → log = []) ∧
    (∀ alphabet worklist, Discipline.ofValue? worklist = none →
      n.Converts alphabet worklist []
        (.error (if worklist.writable then .unknownDiscipline worklist else .tooManyDigits))) ∧
    ∀ others : List Value, (∀ a ∈ others, a.Hashable) → (∃ a ∈ others, (a == n.marker) = true) →
      n.Converts (some (.list others)) (.text d.name) [] (.error (.markerInAlphabet n.marker)) := by
  have hcourse : n.course (some (.list symbols)) (.text d.name) =
      Construction.course ⟨OrderedSet.ofList symbols, d⟩ n := by
    rw [course, Option.getD_some, Construction.prepare?_list d hhash hfree]
  refine ⟨fun _ _ _ _ => converts_iff hn.sound, course_snd n, fun hmarker hreportable => ?_,
    fun hmarker hnot => ?_, fun _ _ => hn.sound.tells_of_converts hhash hfree,
    fun _ _ _ _ => hn.sound.log_eq_nil, fun alphabet worklist hworklist => ?_,
    fun others hothers hmarker => ?_⟩
  · have hrun := Construction.run?_of_hashable ⟨OrderedSet.ofList symbols, d⟩ hmarker
    rw [if_pos hreportable] at hrun
    exact ⟨_, _, (converts_iff hn.sound).mpr (by rw [hcourse, Construction.course, hrun])⟩
  · have hrun := Construction.run?_of_hashable ⟨OrderedSet.ofList symbols, d⟩ hmarker
    rw [if_neg hnot] at hrun
    exact ⟨_, fun S => List.mem_takeWhile_imp,
      (converts_iff hn.sound).mpr (by rw [hcourse, Construction.course, hrun]; rfl)⟩
  · refine .refused ?_
    rw [Construction.prepare?, hworklist]
    rfl
  · refine .refused ?_
    rw [Option.getD_some, Construction.prepare?_eq d.ofValue?_name (ValueSet.ofValue?_list hothers),
      if_pos (OrderedSet.contains_ofList_iff.mpr hmarker)]

end Converts

/-- Last in, first out, four states are found, one of them accepting, over two symbols of which one is
given twice. -/
theorem converts_tells_remarked :
    ∃ log e, remarked.Converts (some (.list [.text "a", .text "e", .text "a"])) (.text "lifo") log
        (.ok e) ∧
      e.Tells remarked (.ofList [.text "a", .text "e", .text "a"]) log ∧
      log.map Event.message = ["Discovered state []", "Discovered state [1]", "Discovered state [2]",
        "Constructed DFA with 4 states (1 accepting) over 2 symbols"] := by
  obtain ⟨hiff, -, hexists, -, htells, -⟩ := converts_tells remarked built_remarked
    [.text "a", .text "e", .text "a"] .lifo (by decide) (by decide)
  obtain ⟨log, e, hconverts⟩ := hexists (by decide) (by decide)
  have hlog : log = (remarked.course (some (.list [.text "a", .text "e", .text "a"]))
      (.text "lifo")).1 := congrArg Prod.fst ((hiff _ _ _ _).mp hconverts)
  exact ⟨log, e, hconverts, htells _ _ hconverts, hlog ▸ by decide⟩

/-! ### Conversions without such a log -/

theorem recorded_enlarged : Construction.recorded
    (Construction.dfa ⟨OrderedSet.ofList [.text "a"], .fifo⟩ enlarged).states = [] := by
  have hstates : (((Construction.dfa ⟨OrderedSet.ofList [.text "a"], .fifo⟩ enlarged).states.toList
      ).drop 1).map OrderedSet.toList = [[.int (10 ^ digitLimit : Nat)], []] := by decide +kernel
  obtain ⟨S, rest, hdrop, hS, -⟩ := List.map_eq_cons_iff.mp hstates
  have hnot : ValueSet.writable S = false := by
    rw [ValueSet.writable, hS, List.all_cons, writable_ten_pow_digitLimit, Bool.false_and]
  rw [Construction.recorded, hdrop, List.takeWhile_cons_of_neg (by simp [hnot]), List.map_nil]

/-- Not every conversion over an alphabet without the marker has such a log. One of an automaton with an
integer of more digits than can be written fails where it would record this state, and one over an
alphabet with a list fails at the list. Neither has recorded a number. -/
theorem converts_enlarged :
    enlarged.Converts (some (.list [.text "a"])) (.text "fifo") [] (.error .tooManyDigits) ∧
      looped.Converts (some (.list [.list []])) (.text "fifo") []
        (.error (.shape (.unhashable (.list [])))) := by
  have hmarker : enlarged.marker.Hashable := by decide
  have hcourse : enlarged.course (some (.list [.text "a"])) (.text "fifo") =
      ([], .error .tooManyDigits) := by
    have hrun := Construction.run?_of_hashable ⟨OrderedSet.ofList [.text "a"], .fifo⟩ hmarker
    rw [if_neg not_reportable_enlarged] at hrun
    have hprepare : Construction.prepare? enlarged (.list [.text "a"]) (.text "fifo") =
        .ok ⟨OrderedSet.ofList [.text "a"], .fifo⟩ :=
      Construction.prepare?_list .fifo (by decide) (by decide)
    rw [course, Option.getD_some, hprepare]
    dsimp only
    rw [Construction.course, hrun]
    dsimp only
    rw [recorded_enlarged]
  exact ⟨(converts_iff built_enlarged.sound).mpr hcourse.symm, .refused rfl⟩

end Nfa

end Determinize
