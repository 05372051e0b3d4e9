import Determinize.Proofs.Construction.DefaultAlphabet
import Determinize.Proofs.Session.Log

/-!
# What a failed addition leaves

An addition that fails may leave a place for its source, or for its source and its symbol, without a
transition. The place keeps their spelling. So a transition that is added there later is listed with
the source and the symbol as the failed addition spelled them, and a symbol that cannot be a member
of a set is looked at, and refused, where it was not looked at before.

Nothing else is left: with and without the failed addition, the start states, the accept states, the
marker and the targets stay the same in the course of any session, and so do closures, moves, runs
and conversions.

## Main definitions

* `Nfa.Residue` — automata that differ by what failed additions leave.
* `Nfa.ReadsAlike` — what is read from two such automata.
* `Session.Alike` — what two sessions answer that differ in one such automaton.

## Main results

* `Nfa.residue_add`, `Nfa.Residue.change`, `Session.residue_after` — the residue of a failed addition,
  and in the course of a session.
* `Nfa.Residue.readsAlike`, `Nfa.Residue.run?`, `Nfa.Residue.convert?_none`.
* `Session.alike_after_failed_addition`.
-/

namespace Determinize

/-- Two answers are related, or the second one refuses a value that cannot be a member of a set. -/
def UnlessUnhashable {α : Type} (R : α → α → Prop) (refuse : ShapeError → α) (y : Value)
    (r r' : α) : Prop :=
  R r r' ∨ ∃ fault, y.hashFault? = some fault ∧ r' = refuse fault

namespace UnlessUnhashable

variable {ε α β : Type} {refuse : ShapeError → α} {wrap : ShapeError → ε} {y : Value}

theorem of_eq {r r' : α} (h : r = r') : UnlessUnhashable (· = ·) refuse y r r' := .inl h

theorem map {refuse' : ShapeError → β} {r r' : α} (h : UnlessUnhashable (· = ·) refuse y r r')
    (f : α → β) (hf : ∀ fault, f (refuse fault) = refuse' fault) :
    UnlessUnhashable (· = ·) refuse' y (f r) (f r') := by
  rcases h with h | ⟨fault, hfault, h⟩
  · exact .inl (congrArg f h)
  · exact .inr ⟨fault, hfault, (congrArg f h).trans (hf fault)⟩

/-- A refusal is not followed by anything. -/
theorem bind {r r' : Except ε α} {f f' : α → Except ε β}
    (h : UnlessUnhashable (· = ·) (fun fault => .error (wrap fault)) y r r')
    (hf : ∀ v, UnlessUnhashable (· = ·) (fun fault => .error (wrap fault)) y (f v) (f' v)) :
    UnlessUnhashable (· = ·) (fun fault => .error (wrap fault)) y (r >>= f) (r' >>= f') := by
  rcases h with rfl | ⟨fault, hfault, rfl⟩
  · cases r with
    | error e => exact .inl rfl
    | ok v => exact hf v
  · exact .inr ⟨fault, hfault, rfl⟩

theorem forM {xs : List Value} {f f' : Value → Except ε Unit}
    (h : ∀ x, UnlessUnhashable (· = ·) (fun fault => .error (wrap fault)) y (f x) (f' x)) :
    UnlessUnhashable (· = ·) (fun fault => .error (wrap fault)) y (xs.forM f) (xs.forM f') := by
  induction xs with
  | nil => exact .inl rfl
  | cons x xs ih => exact (h x).bind fun _ => ih

/-- A value is refused if it is looked at. -/
theorem requireHashable {c c' : Bool} (hc : c = true → c' = true) (y : Value) :
    UnlessUnhashable (· = ·) .error y (if c then y.requireHashable else .ok ())
      (if c' then y.requireHashable else .ok ()) := by
  cases c with
  | true => exact .inl (by rw [hc rfl])
  | false =>
    cases c' with
    | false => exact .inl rfl
    | true =>
      rw [if_pos rfl, Value.requireHashable]
      cases hy : y.hashFault? with
      | none => exact .inl rfl
      | some fault => exact .inr ⟨fault, hy, rfl⟩

end UnlessUnhashable

namespace Nfa

/-- An automaton differs from another one at most in what additions from `p` with the label `a` leave
when they fail: in places, and in sources and symbols that are spelled as `p` and `a`. -/
structure Residue (p a : Value) (n n' : Nfa) : Prop where
  same : n.SameTargets n'
  source : ∀ x, n'.spelledSource x = n.spelledSource x ∨ n'.spelledSource x = some p
  symbol : ∀ x b, n'.spelledSymbol x b = n.spelledSymbol x b ∨ n'.spelledSymbol x b = some a

/-- A transition is another one with its source and its symbol spelled the same or as `p` and `a`. -/
structure RespelledAs (p a : Value) (t t' : Value × Value × Value) : Prop where
  beq : (t' == t) = true
  source : t'.1 = t.1 ∨ t'.1 = p
  symbol : t'.2.1 = t.2.1 ∨ t'.2.1 = a
  target : t'.2.2 = t.2.2

variable {n n' : Nfa} {p a q x b : Value} {fault : ShapeError}

/-- What is read from two automata that differ by what failed additions from `p` with the label `a`
leave. -/
structure ReadsAlike [DigitLimit] (p a : Value) (n n' : Nfa) : Prop where
  marker : n'.marker = n.marker
  starts : n'.starts = n.starts
  accepts : n'.accepts = n.accepts
  isAccepting : ∀ S, n'.isAccepting S = n.isAccepting S
  summary? : n'.summary? = n.summary?
  transitionsFor : ∀ x b,
    UnlessUnhashable (· = ·) .error b (n.transitionsFor? x b) (n'.transitionsFor? x b)
  closure : ∀ xs, UnlessUnhashable (· = ·) .error n.marker (n.closure? xs) (n'.closure? xs)
  move : ∀ xs b, UnlessUnhashable (· = ·) .error b (n.move? xs b) (n'.move? xs b)
  /-- The same transitions are listed in any order. -/
  transitions : ∃ ts, n'.transitions.Perm ts ∧ List.Forall₂ (RespelledAs p a) n.transitions ts
  states : (n'.states == n.states) = true
  symbols : (n'.symbols == n.symbols) = true
  /-- If equal values are spelled alike, nothing is listed in another spelling. -/
  spelledAlike : ∀ {P : Value → Prop}, (∀ x y, P x → P y → (x == y) = true → x = y) →
    (∀ t ∈ n.transitions, P t.1 ∧ P t.2.1 ∧ P t.2.2) → (∀ x ∈ n.starts.toList, P x) →
    (∀ x ∈ n.accepts.toList, P x) → P p → P a →
      n'.transitions.Perm n.transitions ∧ n'.states.toList.Perm n.states.toList ∧
        n'.symbols.toList.Perm n.symbols.toList

variable {n n' : Nfa} {p a q x b : Value} {fault : ShapeError}

/-! ### One addition that fails -/

/-- Making room keeps the spelling that there is. -/
theorem spelled_or {o o' : Option Value} {c : Bool} (h : c = true → o' = o) :
    (if c then some (o.getD p) else o') = o' ∨ (if c then some (o.getD p) else o') = some p := by
  cases c with
  | false => exact .inl rfl
  | true =>
    rw [if_pos rfl, h rfl]
    cases o with
    | none => exact .inr rfl
    | some x => exact .inl rfl

theorem residue_reserveSource (n : Nfa) (p a : Value) : n.Residue p a (n.reserveSource p) where
  same := n.sameTargets_reserveSource p
  source x := by
    rw [spelledSource_reserveSource]
    exact spelled_or fun h => (n.spelledSource_congr h).symm
  symbol x b := .inl (n.spelledSymbol_reserveSource p x b)

theorem residue_reserveTargets (n : Nfa) (p a : Value) : n.Residue p a (n.reserveTargets p a) where
  same := n.sameTargets_reserveTargets p a
  source x := by
    rw [reserveTargets, spelledSource_updateTargets]
    exact spelled_or fun h => (n.spelledSource_congr h).symm
  symbol x b := by
    rw [reserveTargets, spelledSymbol_updateTargets]
    refine spelled_or fun h => ?_
    rw [Bool.and_eq_true] at h
    exact (n.spelledSymbol_congr h.1 h.2).symm

theorem Residue.refl (p a : Value) (n : Nfa) : n.Residue p a n :=
  ⟨⟨rfl, rfl, rfl, fun _ _ _ => rfl⟩, fun _ => .inl rfl, fun _ _ => .inl rfl⟩

/-- An addition that fails leaves a residue. -/
theorem residue_add (h : (n.add p a q).1 = some fault) : n.Residue p a (n.add p a q).2 := by
  rcases n.add_cases p a q with ⟨-, -, -, hadd⟩ | ⟨_, -, ⟨-, hadd⟩ | ⟨-, -, hadd⟩ | ⟨-, -, hadd⟩⟩
  · rw [hadd] at h
    cases h
  · rw [hadd]
    exact .refl p a n
  · rw [hadd]
    exact n.residue_reserveSource p a
  · rw [hadd]
    exact n.residue_reserveTargets p a

/-- The transitions are listed as before, right after the addition has failed. -/
theorem transitions_add (h : (n.add p a q).1 = some fault) :
    (n.add p a q).2.transitions = n.transitions := by
  rcases n.add_cases p a q with ⟨-, -, -, hadd⟩ | ⟨_, -, ⟨-, hadd⟩ | ⟨-, -, hadd⟩ | ⟨-, -, hadd⟩⟩
  · rw [hadd] at h
    cases h
  · rw [hadd]
  · rw [hadd]
    exact n.transitions_reserveSource p
  · rw [hadd]
    exact n.transitions_reserveTargets p a

theorem knows_of_spelledSymbol (h : (n.spelledSymbol p a).isSome = true) : n.knows p = true := by
  obtain ⟨b, h⟩ := Option.isSome_iff_exists.mp h
  obtain ⟨row, hrow, -⟩ := Option.bind_eq_some_iff.mp h
  refine Bool.eq_false_imp_eq_true.mp fun hknows => ?_
  rw [OrderedMap.find?_eq_none_iff.mpr hknows] at hrow
  cases hrow

/-- Nothing is left if the source cannot be stored or if there was room already. -/
theorem add_eq_self (h : (n.add p a q).1 = some fault)
    (hroom : ¬ p.Hashable ∨ n.knows p = true ∧ ¬ a.Hashable ∨ (n.spelledSymbol p a).isSome = true) :
    (n.add p a q).2 = n := by
  rcases n.add_cases p a q with ⟨-, -, -, hadd⟩ | ⟨_, -, ⟨-, hadd⟩ | ⟨hp, -, hadd⟩ | ⟨hp, ha, hadd⟩⟩
  · rw [hadd] at h
    cases h
  · rw [hadd]
  · rw [hadd]
    refine reserveSource_eq_self ?_
    rcases hroom with hroom | hroom | hroom
    · exact absurd hp hroom
    · exact hroom.1
    · exact knows_of_spelledSymbol hroom
  · rw [hadd]
    refine reserveTargets_eq_self ?_
    rcases hroom with hroom | hroom | hroom
    · exact absurd hp hroom
    · exact absurd ha hroom.2
    · exact hroom

/-! ### Changes of both automata -/

/-- Making room in both automata keeps what is known of the spellings. -/
theorem spelled_getD_or {o o' r r' : Option Value} {c : Bool} (h : o' = o ∨ o' = some p)
    (hr : r' = r ∨ r' = some p) :
    (if c then some (o'.getD x) else r') = (if c then some (o.getD x) else r) ∨
      (if c then some (o'.getD x) else r') = some p := by
  cases c with
  | false => exact hr
  | true =>
    rcases h with rfl | rfl
    · exact .inl rfl
    · exact .inr rfl

namespace Residue

variable (h : n.Residue p a n')

include h

theorem reserveSource (x : Value) : (n.reserveSource x).Residue p a (n'.reserveSource x) where
  same := ⟨h.same.marker, h.same.starts, h.same.accepts, fun y b _ => by
    rw [targets_reserveSource, targets_reserveSource, h.same.targets y b trivial]⟩
  source y := by
    rw [spelledSource_reserveSource, spelledSource_reserveSource]
    exact spelled_getD_or (h.source x) (h.source y)
  symbol y b := by
    rw [spelledSymbol_reserveSource, spelledSymbol_reserveSource]
    exact h.symbol y b

theorem updateTargets (x b : Value) (f : ValueSet → ValueSet) :
    (n.updateTargets x b f).Residue p a (n'.updateTargets x b f) where
  same := ⟨h.same.marker, h.same.starts, h.same.accepts, fun y d _ => by
    rw [targets_updateTargets, targets_updateTargets, h.same.targets x b trivial,
      h.same.targets y d trivial]⟩
  source y := by
    rw [spelledSource_updateTargets, spelledSource_updateTargets]
    exact spelled_getD_or (h.source x) (h.source y)
  symbol y d := by
    rw [spelledSymbol_updateTargets, spelledSymbol_updateTargets]
    exact spelled_getD_or (h.symbol x b) (h.symbol y d)

theorem add (x b y : Value) :
    (n'.add x b y).1 = (n.add x b y).1 ∧ (n.add x b y).2.Residue p a (n'.add x b y).2 := by
  rw [Nfa.add, Nfa.add]
  cases x.hashFault? with
  | some fault => exact ⟨rfl, h⟩
  | none =>
    cases b.hashFault? with
    | some fault => exact ⟨rfl, h.reserveSource x⟩
    | none =>
      cases y.hashFault? with
      | some fault => exact ⟨rfl, h.updateTargets x b id⟩
      | none => exact ⟨rfl, h.updateTargets x b (·.insert y)⟩

theorem orKeep {m m' : Nfa} (hm : m.Residue p a m') (x : Value) :
    (n'.orKeep (x.requireHashable >>= fun _ => pure m')).1 =
        (n.orKeep (x.requireHashable >>= fun _ => pure m)).1 ∧
      (n.orKeep (x.requireHashable >>= fun _ => pure m)).2.Residue p a
        (n'.orKeep (x.requireHashable >>= fun _ => pure m')).2 := by
  cases x.requireHashable with
  | error fault => exact ⟨rfl, h⟩
  | ok => exact ⟨rfl, hm⟩

/-- The start states, the accept states and the marker can be changed in both automata alike. -/
theorem withFields {starts starts' accepts accepts' : ValueSet} {marker marker' : Value}
    (hstarts : starts = starts') (haccepts : accepts = accepts') (hmarker : marker = marker') :
    (⟨starts, accepts, marker, n.edges⟩ : Nfa).Residue p a ⟨starts', accepts', marker', n'.edges⟩ :=
  ⟨⟨hmarker, hstarts, haccepts, h.same.targets⟩, h.source, h.symbol⟩

/-- Changes of both automata fail alike and keep the residue. -/
theorem change (c : Change) :
    (n'.change c).1 = (n.change c).1 ∧ (n.change c).2.Residue p a (n'.change c).2 := by
  obtain ⟨hmarker, hstarts, haccepts, -⟩ := h.same
  cases c with
  | add source symbol target => exact h.add source symbol target
  | addMarked source target =>
    rw [Nfa.change, Nfa.change, addMarked, addMarked, ← hmarker]
    exact h.add source n.marker target
  | addStart state =>
    exact h.orKeep (h.withFields (congrArg (·.insert state) hstarts) haccepts hmarker) state
  | addAccept state =>
    exact h.orKeep (h.withFields hstarts (congrArg (·.insert state) haccepts) hmarker) state
  | removeStart state =>
    exact h.orKeep (h.withFields (congrArg (·.erase state) hstarts) haccepts hmarker) state
  | removeAccept state =>
    exact h.orKeep (h.withFields hstarts (congrArg (·.erase state) haccepts) hmarker) state
  | setMarker marker => exact ⟨rfl, h.withFields hstarts haccepts rfl⟩

end Residue

/-! ### Reading -/

theorem transitionsFor?_eq (n : Nfa) (x b : Value) :
    n.transitionsFor? x b = do
      x.requireHashable
      (if n.knows x then b.requireHashable else .ok ())
      return n.targets x b := by
  rw [transitionsFor?]
  cases n.knows x <;> rfl

namespace Residue

variable (h : n.Residue p a n')

include h

/-- No room is lost. -/
theorem knows (hx : n.knows x = true) : n'.knows x = true := by
  rw [knows_eq_isSome] at hx ⊢
  rcases h.source x with hsource | hsource
  · rwa [hsource]
  · rw [hsource]
    rfl

theorem transitionsFor? (x b : Value) :
    UnlessUnhashable (· = ·) .error b (n.transitionsFor? x b) (n'.transitionsFor? x b) := by
  rw [transitionsFor?_eq, transitionsFor?_eq, h.same.targets x b trivial]
  exact .bind (.of_eq rfl) fun _ => .bind (.requireHashable h.knows b) fun _ => .of_eq rfl

theorem requireMarker (S : ValueSet) :
    UnlessUnhashable (· = ·) .error n.marker (n.requireMarker S) (n'.requireMarker S) := by
  rw [Nfa.requireMarker, Nfa.requireMarker, ← h.same.marker]
  refine .requireHashable (fun hknows => ?_) n.marker
  obtain ⟨x, hx, hknows⟩ := List.any_eq_true.mp hknows
  exact List.any_eq_true.mpr ⟨x, hx, h.knows hknows⟩

theorem closure? (xs : Value) :
    UnlessUnhashable (· = ·) .error n.marker (n.closure? xs) (n'.closure? xs) :=
  .bind (.of_eq rfl) fun S => .bind (h.requireMarker S) fun _ =>
    .of_eq (congrArg _ (h.same.closure_eq S))

theorem move? (xs b : Value) :
    UnlessUnhashable (· = ·) .error b (n.move? xs b) (n'.move? xs b) :=
  .bind (.of_eq rfl) fun ys =>
    .bind (.forM fun x => (h.transitionsFor? x b).map discard fun _ => rfl) fun _ =>
      .of_eq (congrArg _ (h.same.move_eq ys b))

/-- Runs make the same automaton. -/
theorem run? [DigitLimit] (c : Construction) :
    UnlessUnhashable (· = ·) (fun fault => .error (.shape fault)) n.marker (c.run? n)
      (c.run? n') := by
  rw [Construction.run?, Construction.run?, ← h.same.starts, ← h.same.dfa_eq c]
  exact .bind ((h.requireMarker n.starts).map orShapeError fun _ => rfl) fun _ => .of_eq rfl

theorem prepare?_eq [DigitLimit] (alphabet worklist : Value) :
    Construction.prepare? n' alphabet worklist = Construction.prepare? n alphabet worklist := by
  rw [Construction.prepare?, Construction.prepare?, h.same.marker]

/-- Conversions with an alphabet make the same automaton. -/
theorem convert?_some [DigitLimit] (alphabet worklist : Value) :
    UnlessUnhashable (· = ·) (fun fault => .error (.shape fault)) n.marker
      (n.convert? (some alphabet) worklist) (n'.convert? (some alphabet) worklist) := by
  rw [Nfa.convert?, Nfa.convert?, Option.getD_some, h.prepare?_eq]
  exact .bind (.of_eq rfl) h.run?

/-! ### Listing -/

theorem respelledAs_respell {t : Value × Value × Value} (ht : t ∈ n.transitions) :
    RespelledAs p a t (n'.respell t) := by
  obtain ⟨hsource, hsymbol, -⟩ := mem_transitions_iff_spelled.mp ht
  obtain ⟨hp, ha⟩ := n'.beq_respell t
  refine ⟨triple_beq_iff.mpr ⟨hp, ha, BEq.rfl⟩, ?_, ?_, rfl⟩
  · rw [respell]
    rcases h.source t.1 with hspelled | hspelled
    · exact .inl (by rw [hspelled, hsource, Option.getD_some])
    · exact .inr (by rw [hspelled, Option.getD_some])
  · rw [respell]
    rcases h.symbol t.1 t.2.1 with hspelled | hspelled
    · exact .inl (by rw [hspelled, hsymbol, Option.getD_some])
    · exact .inr (by rw [hspelled, Option.getD_some])

theorem exists_respelled :
    ∃ ts, n'.transitions.Perm ts ∧ List.Forall₂ (RespelledAs p a) n.transitions ts :=
  ⟨_, h.same.perm_transitions, List.forall₂_map_right_iff.mpr
    (List.forall₂_same.mpr fun _ ht => h.respelledAs_respell ht)⟩

/-- If equal values are spelled alike, the same transitions are listed. -/
theorem perm_transitions_of_spelled {P : Value → Prop}
    (hP : ∀ x y, P x → P y → (x == y) = true → x = y)
    (hn : ∀ t ∈ n.transitions, P t.1 ∧ P t.2.1 ∧ P t.2.2) (hp : P p) (ha : P a) :
    n'.transitions.Perm n.transitions := by
  have hsame : ∀ t ∈ n.transitions, n'.respell t = t := by
    intro t ht
    obtain ⟨hbeq, hsource, hsymbol, htarget⟩ := h.respelledAs_respell ht
    obtain ⟨hbeq, hbeq', -⟩ := triple_beq_iff.mp hbeq
    have hPsource : P (n'.respell t).1 := hsource.elim (· ▸ (hn t ht).1) (· ▸ hp)
    have hPsymbol : P (n'.respell t).2.1 := hsymbol.elim (· ▸ (hn t ht).2.1) (· ▸ ha)
    exact Prod.ext (hP _ _ hPsource (hn t ht).1 hbeq)
      (Prod.ext (hP _ _ hPsymbol (hn t ht).2.1 hbeq') htarget)
  have hperm := h.same.perm_transitions
  rwa [List.map_congr_left hsame, List.map_id'] at hperm

/-- If equal values are spelled alike, the same states and symbols are listed. -/
theorem perm_sets_of_spelled {P : Value → Prop}
    (hP : ∀ x y, P x → P y → (x == y) = true → x = y)
    (hn : ∀ t ∈ n.transitions, P t.1 ∧ P t.2.1 ∧ P t.2.2) (hstarts : ∀ x ∈ n.starts.toList, P x)
    (haccepts : ∀ x ∈ n.accepts.toList, P x) (hp : P p) (ha : P a) :
    n'.states.toList.Perm n.states.toList ∧ n'.symbols.toList.Perm n.symbols.toList := by
  have hstates {m : Nfa} (hstarts : ∀ x ∈ m.starts.toList, P x)
      (haccepts : ∀ x ∈ m.accepts.toList, P x)
      (hm : ∀ t ∈ m.transitions, P t.1 ∧ P t.2.1 ∧ P t.2.2) : ∀ x ∈ m.states.toList, P x := by
    intro x hx
    rcases mem_states_toList hx with hx | hx | ⟨t, ht, rfl | rfl⟩
    · exact hstarts x hx
    · exact haccepts x hx
    · exact (hm t ht).1
    · exact (hm t ht).2.2
  have hsymbols {m : Nfa} (hm : ∀ t ∈ m.transitions, P t.1 ∧ P t.2.1 ∧ P t.2.2) :
      ∀ x ∈ m.symbols.toList, P x := by
    intro x hx
    obtain ⟨t, ht, rfl⟩ := mem_symbols_toList hx
    exact (hm t ht).2.1
  have hn' : ∀ t ∈ n'.transitions, P t.1 ∧ P t.2.1 ∧ P t.2.2 := fun t ht =>
    hn t ((h.perm_transitions_of_spelled hP hn hp ha).mem_iff.mp ht)
  have hspelled {S T : ValueSet} (hST : (S == T) = true) (hS : ∀ x ∈ S.toList, P x)
      (hT : ∀ x ∈ T.toList, P x) : S.toList.Perm T.toList :=
    OrderedSet.perm_of_beq hST fun x hx y hy => hP x y (hS x hx) (hT y hy)
  have hstarts' : ∀ x ∈ n'.starts.toList, P x := by rwa [← h.same.starts]
  have haccepts' : ∀ x ∈ n'.accepts.toList, P x := by rwa [← h.same.accepts]
  exact ⟨hspelled h.same.beq_states (hstates hstarts' haccepts' hn') (hstates hstarts haccepts hn),
    hspelled h.same.beq_symbols (hsymbols hn') (hsymbols hn)⟩

/-- What is read from automata that differ by a residue. -/
theorem readsAlike [DigitLimit] : n.ReadsAlike p a n' where
  marker := h.same.marker.symm
  starts := h.same.starts.symm
  accepts := h.same.accepts.symm
  isAccepting S := by rw [isAccepting, isAccepting, h.same.accepts]
  summary? := by rw [Nfa.summary?, Nfa.summary?, h.same.starts, h.same.accepts]
  transitionsFor := h.transitionsFor?
  closure := h.closure?
  move := h.move?
  transitions := h.exists_respelled
  states := h.same.beq_states
  symbols := h.same.beq_symbols
  spelledAlike hP hn hstarts haccepts hp ha :=
    ⟨h.perm_transitions_of_spelled hP hn hp ha, h.perm_sets_of_spelled hP hn hstarts haccepts hp ha⟩

end Residue

end Nfa

theorem Nfa.convert?_of_ofValue?_eq_none [DigitLimit] {n : Nfa} {alphabet : Option Value}
    {worklist : Value} (hd : Discipline.ofValue? worklist = none) :
    n.convert? alphabet worklist =
      .error (if worklist.writable then .unknownDiscipline worklist else .tooManyDigits) := by
  rw [convert?, Construction.prepare?, hd]
  rfl

/-! ### Sessions -/

namespace Session

/-- Two answers are the same up to equality of the automata that are made. -/
inductive Answer.Equal : Answer → Answer → Prop
  | same (x : Answer) : Equal x x
  | converted {c c' : Conversion} (h : (c.dfa == c'.dfa) = true) :
      Equal (.converted c) (.converted c')

/-- The session with another automaton at a place. -/
def replacing (s : Session) (i : Nat) (n : Nfa) : Session :=
  { s with automata := s.automata.set i n }

/-- Whether a request reads the transitions of the automaton at a place. -/
def Reads (s : Session) (i : Nat) : Request → Prop
  | .run j => ∃ x, s.prepared[j]? = some x ∧ x.automaton = i
  | .convert k _ _ => k = i
  | .make .. | .makeOfTriples .. | .change .. | .prepare .. => False

section Course

variable {s : Session} {i : Nat} {n n' : Nfa} {p a : Value}

theorem getElem?_replacing (hn : s.automata[i]? = some n) (n' : Nfa) (k : Nat) :
    (s.replacing i n').automata[k]? = if i = k then some n' else s.automata[k]? := by
  have hi : i < s.automata.length := (List.getElem?_eq_some_iff.mp hn).1
  rw [replacing, List.getElem?_set, if_pos hi]

theorem replacing_self (hn : s.automata[i]? = some n) : s.replacing i n = s := by
  have hset : s.automata.set i n = s.automata := by
    refine List.ext_getElem? fun k => ?_
    grind
  simp only [replacing, hset]

theorem replacing_adding (hn : s.automata[i]? = some n) (n' : Nfa) (x : Except ShapeError Nfa) :
    (s.replacing i n').adding x = (s.adding x).replacing i n' := by
  cases x with
  | error e => rfl
  | ok m =>
    have hi : i < s.automata.length := (List.getElem?_eq_some_iff.mp hn).1
    simp only [adding, replacing, List.set_append, if_pos hi]

theorem replacing_preparing (s : Session) (i : Nat) (n' : Nfa) (k : Nat) (alphabet worklist : Value)
    (x : Except AutomatonError Construction) :
    (s.replacing i n').preparing k alphabet worklist x =
      (s.preparing k alphabet worklist x).replacing i n' := by
  cases x <;> rfl

variable [DigitLimit]

theorem replacing_change (hn : s.automata[i]? = some n) (n' : Nfa) (k : Nat) (c : Nfa.Change) :
    (s.replacing i n').next (.change k c) =
      (s.next (.change k c)).replacing i (if k = i then (n'.change c).2 else n') := by
  have hi : i < s.automata.length := (List.getElem?_eq_some_iff.mp hn).1
  have hset : (s.automata.set i n').modify k (fun n => (n.change c).2) =
      (s.automata.modify k fun n => (n.change c).2).set i
        (if k = i then (n'.change c).2 else n') := by
    refine List.ext_getElem? fun l => ?_
    grind
  simp only [Session.next, replacing, hset]

/-- A request keeps the residue, and the sessions otherwise stay the same. -/
theorem residue_next (hn : s.automata[i]? = some n) (h : n.Residue p a n') (r : Request) :
    ∃ m m', (s.next r).automata[i]? = some m ∧ m.Residue p a m' ∧
      (s.replacing i n').next r = (s.next r).replacing i m' := by
  cases r with
  | make starts accepts marker =>
    exact ⟨n, n', getElem?_automata_next rfl hn, h, replacing_adding hn n' _⟩
  | makeOfTriples transitions starts accepts marker =>
    exact ⟨n, n', getElem?_automata_next rfl hn, h, replacing_adding hn n' _⟩
  | change k c =>
    rw [replacing_change hn]
    by_cases hk : k = i
    · rw [if_pos hk]
      refine ⟨(n.change c).2, (n'.change c).2, ?_, (h.change c).2, rfl⟩
      simp [Session.next, hk, hn]
    · rw [if_neg hk]
      have hkeep : (Request.change k c).changes i = false := by simpa [Request.changes] using hk
      exact ⟨n, n', getElem?_automata_next hkeep hn, h, rfl⟩
  | prepare k alphabet worklist =>
    refine ⟨n, n', getElem?_automata_next rfl hn, h, ?_⟩
    rw [Session.next, Session.next, getElem?_replacing hn]
    by_cases hk : i = k
    · subst hk
      simp only [if_pos, hn, h.prepare?_eq, replacing_preparing]
    · rw [if_neg hk]
      cases s.automata[k]? with
      | none => rfl
      | some m => exact replacing_preparing ..
  | run j => exact ⟨n, n', hn, h, rfl⟩
  | convert k alphabet worklist => exact ⟨n, n', hn, h, rfl⟩

theorem residue_after (hn : s.automata[i]? = some n) (h : n.Residue p a n')
    (requests : List Request) :
    ∃ m m', (s.after requests).automata[i]? = some m ∧ m.Residue p a m' ∧
      (s.replacing i n').after requests = (s.after requests).replacing i m' := by
  induction requests generalizing s n n' with
  | nil => exact ⟨n, n', hn, h, rfl⟩
  | cons r requests ih =>
    obtain ⟨m, m', hm, hresidue, hnext⟩ := residue_next hn h r
    rw [after, after, List.foldl_cons, List.foldl_cons, hnext]
    exact ih hm hresidue

/-! ### Answers -/

/-- The refusal of a value that cannot be a member of a set. -/
def Answer.refusal (fault : ShapeError) : Answer := .refused (.shape fault)

/-- Two sessions that are the same but for the automaton at a place, which is `n` in one and `n'` in
the other one and differs by what failed additions from `p` with the label `a` leave. -/
structure Alike [DigitLimit] (i : Nat) (p a : Value) (n n' : Nfa) (s s' : Session) : Prop where
  automaton : s.automata[i]? = some n
  automaton' : s'.automata[i]? = some n'
  reads : n.ReadsAlike p a n'
  others : ∀ k, i ≠ k → s'.automata[k]? = s.automata[k]?
  prepared : s'.prepared = s.prepared
  answers : ∀ r, ¬ s.Reads i r → s'.answer r = s.answer r
  run : ∀ j, UnlessUnhashable (· = ·) .refusal n.marker (s.answer (.run j)) (s'.answer (.run j))
  convert : ∀ alphabet worklist, UnlessUnhashable (· = ·) .refusal n.marker
    (s.answer (.convert i (some alphabet) worklist))
    (s'.answer (.convert i (some alphabet) worklist))
  /-- The symbols of the automaton may be explored in another order and another spelling. -/
  convertAll : ∀ worklist, UnlessUnhashable Answer.Equal .refusal n.marker
    (s.answer (.convert i none worklist)) (s'.answer (.convert i none worklist))

theorem answer_replacing (hn : s.automata[i]? = some n) (h : n.Residue p a n') {r : Request}
    (hr : ¬ s.Reads i r) : (s.replacing i n').answer r = s.answer r := by
  have hother {k : Nat} (hk : i ≠ k) : (s.replacing i n').automata[k]? = s.automata[k]? := by
    rw [getElem?_replacing hn, if_neg hk]
  have hself : (s.replacing i n').automata[i]? = some n' := by
    rw [getElem?_replacing hn, if_pos rfl]
  cases r with
  | make starts accepts marker => rfl
  | makeOfTriples transitions starts accepts marker => rfl
  | change k c =>
    by_cases hk : i = k
    · subst hk
      simp only [answer, hself, hn, (h.change c).1]
    · simp only [answer, hother hk]
  | prepare k alphabet worklist =>
    by_cases hk : i = k
    · subst hk
      simp only [answer, hself, hn, h.prepare?_eq]
    · simp only [answer, hother hk]
  | run j =>
    cases hx : s.prepared[j]? with
    | none => simp only [answer, replacing, hx]
    | some x =>
      have hk : i ≠ x.automaton := fun hk => hr ⟨x, hx, hk.symm⟩
      have hx' : (s.replacing i n').prepared[j]? = some x := hx
      simp only [answer, hx, hx', hother hk]
  | convert k alphabet worklist =>
    have hk : i ≠ k := fun hk => hr hk.symm
    simp only [answer, hother hk]

theorem answer_run_replacing (hn : s.automata[i]? = some n) (h : n.Residue p a n') (j : Nat) :
    UnlessUnhashable (· = ·) .refusal n.marker (s.answer (.run j))
      ((s.replacing i n').answer (.run j)) := by
  by_cases hreads : s.Reads i (.run j)
  · obtain ⟨x, hx, rfl⟩ := hreads
    have hx' : (s.replacing x.automaton n').prepared[j]? = some x := hx
    have hn' : (s.replacing x.automaton n').automata[x.automaton]? = some n' := by
      rw [getElem?_replacing hn, if_pos rfl]
    rw [answer_run hx hn, answer_run hx' hn']
    exact (h.run? x.construction).map (Answer.ofResult id .converted) fun _ => rfl
  · exact .of_eq (answer_replacing hn h hreads).symm

theorem answer_convert_replacing (hn : s.automata[i]? = some n) (h : n.Residue p a n')
    (alphabet worklist : Value) :
    UnlessUnhashable (· = ·) .refusal n.marker (s.answer (.convert i (some alphabet) worklist))
      ((s.replacing i n').answer (.convert i (some alphabet) worklist)) := by
  have hn' : (s.replacing i n').automata[i]? = some n' := by
    rw [getElem?_replacing hn, if_pos rfl]
  rw [answer_convert hn, answer_convert hn']
  exact (h.convert?_some alphabet worklist).map (Answer.ofResult id .converted) fun _ => rfl

omit [DigitLimit] in
theorem Answer.Equal.eq_of_refused {e : AutomatonError} {x : Answer}
    (h : Answer.Equal (.refused e) x) : x = .refused e := by
  cases h with
  | same => rfl

/-- Runs over equal alphabets make equal automata. -/
theorem equal_run? (c c' : Construction) (h : (c.alphabet == c'.alphabet) = true) (n : Nfa) :
    Answer.Equal (.ofResult id .converted (c.run? n)) (.ofResult id .converted (c'.run? n)) := by
  have hreportable : Construction.reportable (c.dfa n) = Construction.reportable (c'.dfa n) := by
    rw [Bool.eq_iff_iff, c.reportable_dfa_iff, c'.reportable_dfa_iff, Nfa.reportable_congr h]
  have hbeq := (c.isSubsetAutomaton_dfa n).beq (c'.isSubsetAutomaton_dfa n) h
  rw [Construction.run?_eq_bind, Construction.run?_eq_bind, hreportable]
  generalize c.dfa n = d, c'.dfa n = d' at hbeq
  cases orShapeError (n.requireMarker n.starts) with
  | error e => exact .same _
  | ok =>
    cases hc : Construction.reportable d' with
    | false => exact .same _
    | true => exact .converted hbeq

/-- Runs over equal alphabets make equal automata of automata that differ by a residue. -/
theorem unlessUnhashable_run? (h : n.Residue p a n') {c c' : Construction}
    (halphabet : (c.alphabet == c'.alphabet) = true) :
    UnlessUnhashable Answer.Equal .refusal n.marker (.ofResult id .converted (c.run? n))
      (.ofResult id .converted (c'.run? n')) := by
  have hequal := equal_run? c c' halphabet n'
  rcases h.run? c with hsame | ⟨fault, hfault, hrefused⟩
  · rw [hsame]
    exact .inl hequal
  · rw [hrefused] at hequal
    exact .inr ⟨fault, hfault, hequal.eq_of_refused⟩

/-- Without an alphabet, equal sets of symbols are explored. -/
theorem answer_convert_none_replacing (hn : s.automata[i]? = some n) (h : n.Residue p a n')
    (hsound : n.Sound) (hsound' : n'.Sound) (worklist : Value) :
    UnlessUnhashable Answer.Equal .refusal n.marker (s.answer (.convert i none worklist))
      ((s.replacing i n').answer (.convert i none worklist)) := by
  have hn' : (s.replacing i n').automata[i]? = some n' := by
    rw [getElem?_replacing hn, if_pos rfl]
  rw [answer_convert hn, answer_convert hn']
  cases hd : Discipline.ofValue? worklist with
  | none =>
    rw [Nfa.convert?_of_ofValue?_eq_none hd, Nfa.convert?_of_ofValue?_eq_none hd]
    exact .inl (.same _)
  | some d =>
    have hcontains : n'.symbols.contains n'.marker = n.symbols.contains n.marker := by
      rw [OrderedSet.beq_iff.mp h.same.beq_symbols, h.same.marker]
    rw [hsound.convert?_none_eq hd, hsound'.convert?_none_eq hd, hcontains, ← h.same.marker]
    cases n.symbols.contains n.marker with
    | true =>
      rw [if_pos rfl, if_pos rfl]
      exact .inl (.same _)
    | false =>
      rw [if_neg Bool.false_ne_true, if_neg Bool.false_ne_true]
      exact unlessUnhashable_run? h (BEq.symm h.same.beq_symbols)

/-- Two sessions that differ by a residue of one automaton answer alike. -/
theorem alike_replacing (hn : s.automata[i]? = some n) (h : n.Residue p a n') (hsound : n.Sound)
    (hsound' : n'.Sound) : Alike i p a n n' s (s.replacing i n') where
  automaton := hn
  automaton' := by rw [getElem?_replacing hn, if_pos rfl]
  reads := h.readsAlike
  others k hk := by rw [getElem?_replacing hn, if_neg hk]
  prepared := rfl
  answers _ := answer_replacing hn h
  run := answer_run_replacing hn h
  convert := answer_convert_replacing hn h
  convertAll := answer_convert_none_replacing hn h hsound hsound'

theorem next_change_eq_replacing (hn : s.automata[i]? = some n) (c : Nfa.Change) :
    s.next (.change i c) = s.replacing i (n.change c).2 := by
  have hset : s.automata.modify i (fun n => (n.change c).2) =
      s.automata.set i (n.change c).2 := by
    refine List.ext_getElem? fun k => ?_
    grind
  simp only [Session.next, replacing, hset]

theorem built_next (hs : ∀ n ∈ s.automata, n.Built) (r : Request) :
    ∀ n ∈ (s.next r).automata, n.Built := by
  have hadd (x : Except ShapeError Nfa) (hx : ∀ n, x = .ok n → n.Built) :
      ∀ n ∈ (s.adding x).automata, n.Built := by
    cases x with
    | error e => exact hs
    | ok m => exact List.forall_mem_append.mpr ⟨hs, List.forall_mem_singleton.mpr (hx m rfl)⟩
  cases r with
  | make starts accepts marker => exact hadd _ fun _ => .new
  | makeOfTriples transitions starts accepts marker =>
    exact hadd _ fun _ => Nfa.built_ofTriples?
  | change k c =>
    intro n hn
    obtain ⟨l, hl⟩ := List.mem_iff_getElem?.mp hn
    change (s.automata.modify k _)[l]? = _ at hl
    rw [List.getElem?_modify] at hl
    obtain ⟨m, hm, rfl⟩ := Option.map_eq_some_iff.mp hl
    have hbuilt := hs m (List.mem_of_getElem? hm)
    split
    · exact hbuilt.change c
    · exact hbuilt
  | prepare k alphabet worklist =>
    rw [Session.next]
    cases s.automata[k]? with
    | none => exact hs
    | some m => cases hc : Construction.prepare? m alphabet worklist <;> simpa only [hc, preparing]
  | run j => exact hs
  | convert k alphabet worklist => exact hs

/-- The automata of a session have histories, so they store members of sets only. -/
theorem sound_after (requests : List Request) (hn : (empty.after requests).automata[i]? = some n) :
    n.Sound := by
  have hbuilt : ∀ n ∈ (empty.after requests).automata, n.Built :=
    after_induction (P := fun s => ∀ n ∈ s.automata, n.Built)
      (fun _ hn => absurd hn List.not_mem_nil) fun r _ _ hs => built_next hs r
  exact (hbuilt n (List.mem_of_getElem? hn)).sound

/-- An addition that fails leaves the session as it was, or with a place that is empty. Right after it
the same is listed as before. In the further course of the session the same is answered as without the
addition, but for the spelling of sources and symbols that are added there, for the order of what is
listed, and for values that cannot be members of sets and are refused where they were not looked at. -/
theorem alike_after_failed_addition (requests : List Request) {c : Nfa.Change} {q : Value}
    {fault : ShapeError} (hn : (empty.after requests).automata[i]? = some n)
    (hc : c.transition? n.marker = some (p, a, q)) (hfail : (n.change c).1 = some fault) :
    (¬ p.Hashable ∨ n.knows p = true ∧ ¬ a.Hashable ∨ (n.spelledSymbol p a).isSome = true →
        (empty.after requests).next (.change i c) = empty.after requests) ∧
      ((n.change c).2.transitions = n.transitions ∧ (n.change c).2.states = n.states ∧
        (n.change c).2.symbols = n.symbols) ∧
      ∀ more, ∃ m m', Alike i p a m m' ((empty.after requests).after more)
        (((empty.after requests).next (.change i c)).after more) := by
  have hnext := next_change_eq_replacing hn c
  have hadd := Nfa.change_eq_add hc
  rw [hadd] at hfail hnext
  have hresidue : n.Residue p a (n.add p a q).2 := Nfa.residue_add hfail
  rw [hadd]
  refine ⟨fun hroom => ?_, ⟨Nfa.transitions_add hfail, ?_, ?_⟩, fun more => ?_⟩
  · rw [hnext, Nfa.add_eq_self hfail hroom, replacing_self hn]
  · rw [Nfa.states, Nfa.states, Nfa.transitions_add hfail, ← hresidue.same.starts,
      ← hresidue.same.accepts]
  · rw [Nfa.symbols, Nfa.symbols, Nfa.transitions_add hfail, ← hresidue.same.marker]
  · obtain ⟨m, m', hm, hmm', hafter⟩ := residue_after hn hresidue more
    have hm' : (((empty.after requests).after more).replacing i m').automata[i]? = some m' := by
      rw [getElem?_replacing hm, if_pos rfl]
    have happend (rs rs' : List Request) : (empty.after rs).after rs' = empty.after (rs ++ rs') :=
      List.foldl_append.symm
    refine ⟨m, m', ?_⟩
    rw [hnext, hafter]
    refine alike_replacing hm hmm' ?_ ?_
    · rw [happend] at hm
      exact sound_after _ hm
    · rw [← hafter, ← hnext] at hm'
      exact sound_after (requests ++ .change i c :: more) (by rw [← happend]; exact hm')

end Course

/-- A session with one automaton, which has no transitions. -/
def bare : List Request := [.make (.list []) (.list []) (.text "ε")]

/-- An addition from `True` that fails at its symbol. -/
def failing : Nfa.Change := .add (.bool true) (.list []) (.int 2)

/-- An addition from `1`. -/
def further : List Request := [.change 0 (.add (.int 1) (.text "a") (.int 2))]

/-- The transition that is added later is listed with the source that the failed addition has left. -/
theorem alike_after_failed_addition_respelled :
    ∃ m m', Alike 0 (.bool true) (.list []) m m' ((empty.after bare).after further)
        (((empty.after bare).next (.change 0 failing)).after further) ∧
      m.transitions = [(.int 1, .text "a", .int 2)] ∧
      m'.transitions = [(.bool true, .text "a", .int 2)] := by
  obtain ⟨-, -, halike⟩ := alike_after_failed_addition bare (i := 0) (c := failing) rfl rfl rfl
  obtain ⟨m, m', halike⟩ := halike further
  refine ⟨m, m', halike, ?_, ?_⟩
  · rw [← Option.some.inj halike.automaton]
    decide
  · rw [← Option.some.inj halike.automaton']
    decide

/-- A failed addition does not leave the session as it was: what is listed later depends on it. -/
theorem transitions_after_failed_addition :
    (empty.after bare).answer (.change 0 failing) = .refused (.shape (.unhashable (.list []))) ∧
      ((empty.after bare).after further).automata.map Nfa.transitions =
        [[(.int 1, .text "a", .int 2)]] ∧
      (((empty.after bare).next (.change 0 failing)).after further).automata.map Nfa.transitions =
        [[(.bool true, .text "a", .int 2)]] ∧
      (((empty.after bare).next (.change 0 failing)).after further).automata.map Nfa.transitions ≠
        ((empty.after bare).after further).automata.map Nfa.transitions :=
  ⟨rfl, by decide, by decide, by decide⟩

end Session

end Determinize
