import Determinize.Proofs.Collection.Report
import Determinize.Proofs.Config.Checks
import Determinize.Proofs.Construction.DefaultAlphabet
import Determinize.Proofs.Construction.Table

/-!
# What can be wrong with a configured conversion

The checks of types let much pass that no automaton can be built from: `null` in place of a list,
anything in place of a transition. It is noticed when the configuration is converted, in a certain
order. Descriptions that passed the checks have no other faults than the ones listed here, and a
conversion reports the first of them. Without a fault it succeeds.

This is so for data that can be written, as the JSON from which data are read can. Data with longer
integers can be handed over too. Then a fault whose message shows such an integer is reported as that, and
without a fault the conversion still fails if it finds a state that cannot be written.

## Main definitions

* `NfaConfig.faults`, `ConversionConfig.faults` — what is wrong, in the order in which it is noticed.
* `ConfigError.reported` — a fault as it is reported.
* `NfaConfig.Convertible` — nothing is wrong.
* `NfaConfig.excess` — a conversion would find a state that cannot be written.
* `Nfa.Over`, `NfaConfig.Over` — states and symbols have a property.

## Main results

* `NfaConfig.reports_nfa?`, `ConversionConfig.reports_convert?` — the first fault is reported.
* `NfaConfig.Checked.over_of_nfa?` — the described automaton is over what its description is over.
* `AutomatonConfig.convert?_outcome` — the outcome of a configured conversion.
-/

namespace Determinize

open Value

/-! ### Faults -/

namespace Value

/-- Whether a value is a list of three items. -/
def isTriple : Value → Bool
  | list [_, _, _] => true
  | _ => false

/-- Whether a value is a list or an object. -/
def isNested : Value → Bool
  | list _ | object _ => true
  | _ => false

/-- The fault of `null` where a list is expected. -/
def absence (x : Value) : List ShapeError := if x = null then [.notIterable null] else []

/-- The fault of nested data where a member of a set is expected. -/
def nesting (x : Value) : List ShapeError := if x.isNested = true then [.unhashable x] else []

end Value

/-- A fault of shape in a configured automaton. -/
def ConfigError.ofShape (fault : ShapeError) : ConfigError := .automaton (.shape fault)

/-- The fault of anything else where a triple is expected. -/
def NfaConfig.malformation (t : Value) (index : Nat) : List ConfigError :=
  if t.isTriple = true then [] else [.badTriple index t]

/-- What is wrong with the description of an automaton. First the transitions have to be there and
to be triples, then the start states and the accept states have to be there, and last the items of
the triples have to be members of sets. -/
def NfaConfig.faults (d : NfaConfig) : List ConfigError :=
  d.transitions.absence.map .ofShape ++
    (d.transitions.listItems.zipIdx.flatMap fun x => malformation x.1 x.2) ++
    (d.starts.absence ++ d.accepts.absence ++
      d.transitions.listItems.flatMap fun t => t.listItems.flatMap nesting).map .ofShape

/-- The listed symbols that stand for the marker: the marker itself, and `null`. -/
def ConversionConfig.markers (v : ConversionConfig) (marker : Value) : List Value :=
  v.alphabet.listItems.filter fun a => a = .null ∨ a == marker

/-- What is wrong with the description of a conversion: symbols that stand for the marker. -/
def ConversionConfig.faults (v : ConversionConfig) (marker : Value) : List ConfigError :=
  (v.markers marker).map fun _ => .automaton (.markerInAlphabet marker)

/-- A fault as it is reported. A transition that cannot be written is not shown. -/
def ConfigError.reported [DigitLimit] : ConfigError → ConfigError
  | badTriple index t => if t.writable then .badTriple index t else .automaton .tooManyDigits
  | e => e

/-- The symbols that a conversion explores. -/
def ConversionConfig.explored (v : ConversionConfig) (n : Nfa) : ValueSet :=
  .ofList ((v.symbols n.marker).getD (.list n.symbols.toList)).listItems

/-- What fails in a conversion of the described automaton if it finds a state that cannot be written. -/
def NfaConfig.excess [DigitLimit] (d : NfaConfig) (v : ConversionConfig) : List ConfigError :=
  match d.nfa? with
  | .ok n => if n.Reportable (v.explored n) then [] else [.automaton .tooManyDigits]
  | .error _ => []

/-- Nothing is wrong with the description of an automaton and of its conversion. -/
structure NfaConfig.Convertible (d : NfaConfig) (v : ConversionConfig) : Prop where
  transitions : d.transitions ≠ .null
  starts : d.starts ≠ .null
  accepts : d.accepts ≠ .null
  triples : ∀ t ∈ d.transitions.listItems, t.isTriple = true
  items : ∀ t ∈ d.transitions.listItems, ∀ x ∈ t.listItems, x.isNested = false
  symbols : ∀ a ∈ v.alphabet.listItems, a ≠ .null ∧ (a == d.marker) = false

variable {x : Value} {n n' : Nfa} {d : NfaConfig} {v : ConversionConfig}

theorem Value.absence_eq_nil_iff : x.absence = [] ↔ x ≠ .null := by
  rw [absence]
  split <;> simp_all

theorem Value.nesting_eq_nil_iff : x.nesting = [] ↔ x.isNested = false := by
  rw [nesting]
  split <;> simp_all

theorem NfaConfig.malformation_eq_nil_iff {i : Nat} :
    malformation x i = [] ↔ x.isTriple = true := by
  rw [malformation]
  split <;> simp_all

theorem forall_mem_zipIdx_fst {α : Type} {P : α → Prop} {xs : List α} :
    (∀ x ∈ xs.zipIdx, P x.1) ↔ ∀ x ∈ xs, P x := by
  conv_rhs => rw [← List.zipIdx_map_fst 0 xs, List.forall_mem_map]

/-- There is no fault if and only if nothing is wrong. -/
theorem faults_eq_nil_iff : d.faults ++ v.faults d.marker = [] ↔ d.Convertible v := by
  simp only [NfaConfig.faults, ConversionConfig.faults, ConversionConfig.markers,
    List.append_eq_nil_iff, List.map_eq_nil_iff, absence_eq_nil_iff, List.flatMap_eq_nil_iff,
    NfaConfig.malformation_eq_nil_iff,
    forall_mem_zipIdx_fst (P := fun t : Value => t.isTriple = true), nesting_eq_nil_iff,
    List.filter_eq_nil_iff, decide_eq_true_eq, not_or, Bool.not_eq_true]
  constructor
  · rintro ⟨⟨⟨htransitions, htriples⟩, ⟨hstarts, haccepts⟩, hitems⟩, hsymbols⟩
    exact ⟨htransitions, hstarts, haccepts, htriples, hitems, hsymbols⟩
  · rintro ⟨htransitions, hstarts, haccepts, htriples, hitems, hsymbols⟩
    exact ⟨⟨⟨htransitions, htriples⟩, ⟨hstarts, haccepts⟩, hitems⟩, hsymbols⟩

/-- The errors that can be reported: no transition list, no start states or no accept states, a
nested item of a transition, a transition that is no triple, and the marker in the alphabet. -/
theorem NfaConfig.of_mem_faults {e : ConfigError} {marker : Value}
    (he : e ∈ d.faults ++ v.faults marker) :
    e = .ofShape (.notIterable .null) ∨
      (∃ y : Value, y.isNested = true ∧ e = .ofShape (.unhashable y)) ∨
      (∃ i, ∃ y ∈ d.transitions.listItems, y.isTriple = false ∧ e = .badTriple i y) ∨
      e = .automaton (.markerInAlphabet marker) := by
  have habsence {y : Value} {fault : ShapeError} (h : fault ∈ y.absence) :
      fault = .notIterable .null := by
    unfold absence at h
    split at h
    · exact List.mem_singleton.mp h
    · exact absurd h List.not_mem_nil
  simp only [NfaConfig.faults, ConversionConfig.faults, List.mem_append, List.mem_map,
    List.mem_flatMap] at he
  rcases he with ((⟨fault, hfault, rfl⟩ | ⟨⟨t, i⟩, ht, h⟩) |
    ⟨fault, (hfault | hfault) | ⟨t, -, y, -, h⟩, rfl⟩) | ⟨_, -, rfl⟩
  · exact .inl (congrArg _ (habsence hfault))
  · unfold malformation at h
    split at h
    · exact absurd h List.not_mem_nil
    · rename_i htriple
      exact .inr (.inr (.inl ⟨i, t, List.fst_mem_of_mem_zipIdx ht, Bool.not_eq_true _ ▸ htriple,
        List.mem_singleton.mp h⟩))
  · exact .inl (congrArg _ (habsence hfault))
  · exact .inl (congrArg _ (habsence hfault))
  · unfold nesting at h
    split at h
    · rename_i hnested
      exact .inr (.inl ⟨y, hnested, congrArg _ (List.mem_singleton.mp h)⟩)
    · exact absurd h List.not_mem_nil
  · exact .inr (.inr (.inr rfl))

/-! ### Checked lists -/

namespace Value

theorem IsListOf.forall_mem {P : Value → Prop} (h : x.IsListOf P) : ∀ y ∈ x.listItems, P y := by
  rcases h with rfl | ⟨items, rfl, h⟩
  · exact fun _ hy => absurd hy List.not_mem_nil
  · exact h

/-- The items of a checked list are there unless it is `null`. -/
theorem IsListOf.items? {P : Value → Prop} (h : x.IsListOf P) :
    Reports x.items? x.absence ∧ ∀ items, x.items? = .ok items → items = x.listItems := by
  rcases h with rfl | ⟨items, rfl, -⟩
  · exact ⟨.error _ [], nofun⟩
  · exact ⟨.ok items, fun _ h => (Except.ok.inj h).symm⟩

/-- A checked list is a set unless it is `null`. -/
theorem IsListOf.reports_ofValue? (h : x.IsListOf Hashable) :
    Reports (ValueSet.ofValue? x) x.absence := by
  rcases h with rfl | ⟨items, rfl, h⟩
  · exact .error _ []
  · rw [ValueSet.ofValue?_list h]
    exact .ok _

/-- Of JSON data, lists and objects are no members of sets. -/
theorem toList_hashFault? (hx : x.IsJson) : x.hashFault?.toList = x.nesting := by
  cases hx with
  | number h => rcases h with ⟨_, rfl⟩ | ⟨_, rfl⟩ <;> rfl
  | null | bool | text | list | object => rfl

theorem exists_of_isTriple (hx : x.isTriple = true) : ∃ p a q, x = .list [p, a, q] := by
  unfold isTriple at hx
  split at hx
  · exact ⟨_, _, _, rfl⟩
  · cases hx

end Value

/-! ### Building the automaton -/

/-- What is a triple can be added as a transition if its items are members of sets. -/
theorem Nfa.reports_add? (p a q : Value) : Reports (n.add? p a q)
    (p.hashFault?.toList ++ (a.hashFault?.toList ++ q.hashFault?.toList)) := by
  rw [Nfa.add?, Nfa.add]
  cases p.hashFault? with
  | some fault => exact .error _ _
  | none =>
    cases a.hashFault? with
    | some fault => exact .error _ _
    | none => cases q.hashFault? with
      | some fault => exact .error _ _
      | none => exact .ok _

theorem Nfa.marker_of_add? {p a q : Value} (h : n.add? p a q = .ok n') : n'.marker = n.marker := by
  rw [eq_link_of_add? h]
  rfl

theorem Nfa.marker_of_addTriple? {t : Value} (h : n.addTriple? t = .ok n') :
    n'.marker = n.marker := by
  obtain ⟨_, -, h⟩ := exists_of_bind_eq_ok h
  exact marker_of_add? h

theorem Nfa.marker_of_new? {starts accepts marker : Value}
    (h : new? starts accepts marker = .ok n) : n.marker = marker := by
  obtain ⟨S, -, h⟩ := exists_of_bind_eq_ok h
  obtain ⟨T, -, h⟩ := exists_of_bind_eq_ok h
  rw [← Except.ok.inj h]

theorem Nfa.marker_of_ofTriples? {transitions starts accepts marker : Value}
    (h : ofTriples? transitions starts accepts marker = .ok n) : n.marker = marker := by
  obtain ⟨n₀, hnew, h⟩ := exists_of_bind_eq_ok h
  obtain ⟨triples, -, h⟩ := exists_of_bind_eq_ok h
  exact of_foldlM_eq_ok (P := fun n => n.marker = marker)
    (fun n hn t _ n' h => (marker_of_addTriple? h).trans hn) (marker_of_new? hnew) h

theorem Nfa.reports_addTriple? (hmarker : n.marker.Hashable) (hx : x.IsJson)
    (htriple : x.isTriple = true) :
    Reports (n.addTriple? (.tuple x.listItems)) (x.listItems.flatMap nesting) := by
  obtain ⟨p, a, q, rfl⟩ := exists_of_isTriple htriple
  obtain ⟨hp, ha, hq, -⟩ : p.IsJson ∧ a.IsJson ∧ q.IsJson ∧ _ := by
    simpa only [List.forall_mem_cons] using isJson_list_iff.mp hx
  have hsymbol : (if a = .null then n.marker else a).hashFault?.toList = a.nesting := by
    split
    · rename_i hnull
      rw [hashFault?_eq_none_iff.mpr hmarker, hnull]
      rfl
    · exact toList_hashFault? ha
  have h := reports_add? (n := n) p (if a = .null then n.marker else a) q
  rw [toList_hashFault? hp, hsymbol, toList_hashFault? hq, ← List.append_nil q.nesting] at h
  exact h

theorem NfaConfig.reports_transition? [DigitLimit] (hx : x.IsJson) (i : Nat) :
    Reports (transition? x i) ((malformation x i).map ConfigError.reported) := by
  unfold transition?
  split
  · exact .ok _
  · exact absurd hx not_isJson_tuple
  · rename_i hlist _
    rw [malformation, if_neg fun h => (exists_of_isTriple h).elim fun p ⟨a, q, h⟩ => hlist p a q h]
    exact .error _ []

theorem NfaConfig.transition?_eq [DigitLimit] (hx : x.isTriple = true) (i : Nat) :
    transition? x i = .ok (.tuple x.listItems) := by
  obtain ⟨p, a, q, rfl⟩ := exists_of_isTriple hx
  rfl

theorem Nfa.reports_ofTriples? {items : List Value} {starts accepts marker : Value}
    (hitems : ∀ t ∈ items, t.IsJson ∧ t.isTriple = true) (hstarts : starts.IsListOf Hashable)
    (haccepts : accepts.IsListOf Hashable) (hmarker : marker.Hashable) :
    Reports (ofTriples? (.list (items.map fun t => .tuple t.listItems)) starts accepts marker)
      (starts.absence ++ accepts.absence ++
        items.flatMap fun t => t.listItems.flatMap nesting) := by
  have hnew : Reports (new? starts accepts marker) (starts.absence ++ accepts.absence) :=
    hstarts.reports_ofValue?.bind fun S _ => haccepts.reports_ofValue?.map (f := fun T =>
      (⟨S, T, marker, .empty⟩ : Nfa))
  refine hnew.bind fun n hn => ?_
  change Reports ((items.map fun t => Value.tuple t.listItems).foldlM addTriple? n) _
  rw [List.foldlM_map]
  refine Reports.foldlM (P := fun n => n.marker = marker) (fun n hn t ht => ⟨?_, fun n' h => ?_⟩)
    (marker_of_new? hn)
  · exact reports_addTriple? (hn ▸ hmarker) (hitems t ht).1 (hitems t ht).2
  · exact (marker_of_addTriple? h).trans hn

/-- Building a described automaton reports the first fault of the description. -/
theorem NfaConfig.Checked.reports_nfa? [DigitLimit] (hd : d.Checked) :
    Reports d.nfa? (d.faults.map ConfigError.reported) := by
  have hjson := hd.transitions.forall_mem
  obtain ⟨hthere, hlist⟩ := hd.transitions.items?
  have hshape (fs : List ShapeError) :
      (fs.map ConfigError.ofShape).map ConfigError.reported = fs.map ConfigError.ofShape := by
    rw [List.map_map]
    rfl
  rw [faults, List.append_assoc, List.map_append, List.map_append, hshape, hshape, List.map_flatMap]
  refine hthere.mapError.bind fun items hok => ?_
  rw [hlist items (mapError_eq_ok_iff.mp hok)]
  have htriples : Reports (d.transitions.listItems.zipIdx.mapM fun x => transition? x.1 x.2) _ :=
    .mapM fun x hx => reports_transition? (hjson x.1 (List.fst_mem_of_mem_zipIdx hx)) x.2
  refine htriples.bind fun triples hok => ?_
  have hgood := htriples.exists_eq_ok_iff.mp ⟨triples, hok⟩
  simp only [List.flatMap_eq_nil_iff, List.map_eq_nil_iff, malformation_eq_nil_iff] at hgood
  rw [mapM_eq_ok_map fun x hx => transition?_eq (hgood x hx) x.2] at hok
  have heq : triples = d.transitions.listItems.map fun t => .tuple t.listItems := by
    rw [← Except.ok.inj hok, ← List.zipIdx_map_fst 0 d.transitions.listItems, List.map_map,
      List.zipIdx_map_fst]
    rfl
  rw [forall_mem_zipIdx_fst (P := fun t : Value => t.isTriple = true)] at hgood
  rw [heq]
  have hscalar (y : Value) : y.isScalar = true → y.Hashable := hashable_of_isScalar
  exact (Nfa.reports_ofTriples? (fun t ht => ⟨hjson t ht, hgood t ht⟩) (hd.starts.imp hscalar)
    (hd.accepts.imp hscalar) (hscalar _ hd.marker.isScalar)).mapError

theorem NfaConfig.marker_and_built_of_nfa? [DigitLimit] (h : d.nfa? = .ok n) :
    n.marker = d.marker ∧ n.Built := by
  obtain ⟨_, -, h⟩ := exists_of_bind_eq_ok h
  obtain ⟨_, -, h⟩ := exists_of_bind_eq_ok h
  rw [mapError_eq_ok_iff] at h
  exact ⟨Nfa.marker_of_ofTriples? h, Nfa.built_ofTriples? h⟩

/-! ### What the automaton is over -/

/-- A property holds of the start states, of the marker and of what is stored. -/
structure Nfa.Over (P : Value → Prop) (n : Nfa) : Prop where
  starts : ∀ p ∈ n.starts.toList, P p
  marker : P n.marker
  edges : n.Stores P

/-- A property holds of the start states, of the marker and of the items of the transitions. -/
structure NfaConfig.Over (P : Value → Prop) (d : NfaConfig) : Prop where
  starts : d.starts.IsListOf P
  marker : P d.marker
  items : ∀ t ∈ d.transitions.listItems, ∀ x ∈ t.listItems, P x

/-- The members of a set are items of the list from which it was made. -/
theorem ValueSet.forall_mem_of_ofValue? {P : Value → Prop} {S : ValueSet} (hx : x.IsListOf P)
    (h : ValueSet.ofValue? x = .ok S) : ∀ a ∈ S.toList, P a := by
  obtain ⟨xs, hxs, h⟩ := exists_of_bind_eq_ok h
  obtain ⟨⟨⟩, -, h⟩ := exists_of_bind_eq_ok h
  intro a ha
  rw [← Except.ok.inj h] at ha
  exact hx.forall_mem a (hx.items?.2 xs hxs ▸ OrderedSet.mem_of_mem_toList_ofList ha)

section Over

variable {P : Value → Prop} {p a q z starts accepts marker : Value}

theorem Nfa.Over.addTriple? (hn : n.Over P) (hitems : ∀ x ∈ [p, a, q], P x)
    (h : n.addTriple? (.tuple [p, a, q]) = .ok n') : n'.Over P := by
  obtain ⟨_, htriple, h⟩ := exists_of_bind_eq_ok h
  cases Except.ok.inj htriple
  rw [eq_link_of_add? h]
  simp only [List.forall_mem_cons] at hitems
  have hsymbol : P (if a = .null then n.marker else a) := by
    split
    · exact hn.marker
    · exact hitems.2.1
  exact ⟨hn.starts, hn.marker, hn.edges.link hitems.1 hsymbol hitems.2.2.1⟩

theorem Nfa.over_of_new? (hstarts : starts.IsListOf P) (hmarker : P marker)
    (h : new? starts accepts marker = .ok n) : n.Over P := by
  obtain ⟨S, hS, h⟩ := exists_of_bind_eq_ok h
  obtain ⟨T, -, h⟩ := exists_of_bind_eq_ok h
  rw [← Except.ok.inj h]
  exact ⟨ValueSet.forall_mem_of_ofValue? hstarts hS, hmarker, fun _ he => absurd he List.not_mem_nil⟩

/-- JSON data that make a triple are a list of its items. -/
theorem NfaConfig.exists_of_transition? [DigitLimit] {i : Nat} (hx : x.IsJson) (h : transition? x i = .ok z) :
    ∃ p a q, x = .list [p, a, q] ∧ z = .tuple [p, a, q] := by
  unfold transition? at h
  split at h
  · exact ⟨_, _, _, rfl, (Except.ok.inj h).symm⟩
  · exact absurd hx not_isJson_tuple
  · cases h

/-- What holds of the parts of a checked description holds of the described automaton. -/
theorem NfaConfig.Checked.over_of_nfa? [DigitLimit] (hd : d.Checked) (hover : d.Over P) (h : d.nfa? = .ok n) :
    n.Over P := by
  obtain ⟨items, hlist, h⟩ := exists_of_bind_eq_ok h
  obtain ⟨triples, htriples, h⟩ := exists_of_bind_eq_ok h
  obtain ⟨n₀, hnew, h⟩ := exists_of_bind_eq_ok (mapError_eq_ok_iff.mp h)
  obtain ⟨_, hadd, h⟩ := exists_of_bind_eq_ok h
  cases Except.ok.inj hadd
  refine of_foldlM_eq_ok (P := Nfa.Over P) (fun n hn z hz n' h => ?_)
    (Nfa.over_of_new? hover.starts hover.marker hnew) h
  obtain ⟨⟨x, i⟩, hx, hxz⟩ := exists_mem_of_mapM_eq_ok htriples z hz
  have hmem : x ∈ d.transitions.listItems :=
    hd.transitions.items?.2 items (mapError_eq_ok_iff.mp hlist) ▸ List.fst_mem_of_mem_zipIdx hx
  obtain ⟨p, a, q, rfl, rfl⟩ := exists_of_transition? (hd.transitions.forall_mem x hmem) hxz
  exact hn.addTriple? (hover.items _ hmem) h

end Over

/-! ### Descriptions that can be written -/

section Writable

variable [DigitLimit]

/-- What is reported of an automaton that can be written can be written. -/
theorem Nfa.Over.reportable (hn : n.Over (·.writable = true)) (symbols : ValueSet) :
    n.Reportable symbols := by
  have htargets (t : Value × Value × Value) (ht : t ∈ n.transitions) : t.2.2.writable = true :=
    (hn.edges.of_mem_transitions ht).2.2
  intro word _ _
  refine ValueSet.writable_iff.mpr ?_
  cases word using List.reverseRecOn with
  | nil => exact forall_mem_closure htargets hn.starts
  | append_singleton word a =>
    rw [reached_append_singleton]
    exact forall_mem_successor htargets

theorem NfaConfig.Writable.over (hd : d.Writable) (hchecked : d.Checked) :
    d.Over (·.writable = true) :=
  ⟨hd.starts, hchecked.marker.writable,
    fun t ht => writable_listItems (hd.transitions.forall_mem t ht)⟩

theorem NfaConfig.Writable.excess_eq_nil (hd : d.Writable) (hchecked : d.Checked) :
    d.excess v = [] := by
  rw [excess]
  split
  · rename_i n hn
    exact if_pos ((hchecked.over_of_nfa? (hd.over hchecked) hn).reportable _)
  · rfl

/-- The faults of a description that can be written are reported as they are. -/
theorem NfaConfig.Writable.map_reported (hd : d.Writable) :
    (d.faults ++ v.faults d.marker).map ConfigError.reported = d.faults ++ v.faults d.marker := by
  have hself : ∀ e ∈ d.faults ++ v.faults d.marker, e.reported = e := by
    intro e he
    rcases of_mem_faults he with rfl | ⟨y, -, rfl⟩ | ⟨i, y, hy, -, rfl⟩ | rfl
    · rfl
    · rfl
    · exact if_pos (hd.transitions.forall_mem y hy)
    · rfl
  exact (List.map_congr_left hself).trans (List.map_id' _)

end Writable

/-! ### Converting the automaton -/

namespace ConversionConfig

/-- The symbols to explore are the listed ones, and the marker where `null` is listed. -/
theorem Checked.symbols_eq (hv : v.Checked) (marker : Value) :
    v.symbols marker = none ∧ v.alphabet.listItems = [] ∨
      v.symbols marker =
        some (.list (v.alphabet.listItems.map fun a => if a = .null then marker else a)) := by
  rw [symbols]
  rcases hv with h | ⟨items, h, -⟩
  · exact .inl ⟨by rw [h], by rw [h]; rfl⟩
  · exact .inr (by rw [h]; rfl)

/-- The marker is among the symbols to explore if a listed symbol stands for it. -/
theorem contains_symbols_iff (v : ConversionConfig) (marker : Value) :
    (OrderedSet.ofList
        (v.alphabet.listItems.map fun a => if a = .null then marker else a)).contains marker = true ↔
      v.markers marker ≠ [] := by
  rw [OrderedSet.contains_ofList_iff, markers, Ne, List.filter_eq_nil_iff]
  simp only [List.mem_map, exists_exists_and_eq_and, not_forall, not_not, exists_prop,
    decide_eq_true_eq]
  refine exists_congr fun a => and_congr_right fun _ => ?_
  split
  · rename_i hnull
    exact iff_of_true BEq.rfl (.inl hnull)
  · rename_i hnull
    rw [or_iff_right hnull]

/-- Converting an automaton reports that its marker is among the symbols to explore, and then that a state
cannot be written. -/
theorem Checked.reports_convert? [DigitLimit] (hv : v.Checked) (hn : n.Built)
    (hmarker : n.marker.isScalar = true) :
    Reports (n.convert? (v.symbols n.marker) (.text v.discipline.name))
      (((v.markers n.marker).map fun _ => .markerInAlphabet n.marker) ++
        if n.Reportable (v.explored n) then [] else [.tooManyDigits]) := by
  have hrun (symbols : ValueSet) : Reports (Construction.run? ⟨symbols, v.discipline⟩ n)
      (if n.Reportable symbols then [] else [.tooManyDigits]) := by
    rw [Construction.run?_of_hashable _ (hashable_of_isScalar hmarker)]
    dsimp only
    split
    · exact .ok _
    · exact .error _ []
  rcases hv.symbols_eq n.marker with ⟨hsymbols, hlist⟩ | hsymbols
  · have hfree : n.symbols.contains n.marker = false := by
      rw [← OrderedSet.beq_iff.mp n.beq_ofList_symbols]
      exact OrderedSet.contains_ofList_eq_false
        (Nfa.beq_marker_of_mem_symbols (isNaN_of_isScalar hmarker))
    have hexplored : v.explored n = n.symbols := by
      rw [explored, hsymbols]
      exact OrderedSet.ofList_toList _
    rw [hsymbols, hn.sound.convert?_none_eq v.discipline.ofValue?_name, hfree,
      if_neg Bool.false_ne_true, markers, hlist, hexplored]
    exact hrun _
  · have hmarker := hashable_of_isScalar hmarker
    have hexplored : v.explored n =
        .ofList (v.alphabet.listItems.map fun a => if a = .null then n.marker else a) := by
      rw [explored, hsymbols]
      rfl
    have hhash : ∀ b ∈ v.alphabet.listItems.map fun a => if a = .null then n.marker else a,
        b.Hashable := by
      rw [List.forall_mem_map]
      intro a ha
      split
      · exact hmarker
      · exact hashable_of_isScalar (hv.forall_mem a ha).isScalar
    rw [hsymbols, Nfa.convert?, Option.getD_some,
      Construction.prepare?_eq v.discipline.ofValue?_name (ValueSet.ofValue?_list hhash)]
    split
    · rename_i hcontains
      obtain ⟨a, as, heq⟩ := List.exists_cons_of_ne_nil ((v.contains_symbols_iff _).mp hcontains)
      rw [heq]
      exact .error _ _
    · rename_i hcontains
      rw [not_not.mp (mt (v.contains_symbols_iff _).mpr hcontains), hexplored]
      exact hrun _

end ConversionConfig

namespace AutomatonConfig

variable {c : AutomatonConfig}

/-- A conversion reports the first fault of the two descriptions, and without a fault a state that cannot
be written. -/
theorem reports_convert? [DigitLimit] (hnfa : c.nfa = some d) (hconversion : c.conversion = some v)
    (hd : d.Checked) (hv : v.Checked) : Reports c.convert?
      ((d.faults ++ v.faults d.marker).map ConfigError.reported ++ d.excess v) := by
  have hbuild : c.nfa? = d.nfa? := by rw [nfa?, hnfa]
  rw [convert?, hbuild, List.map_append, List.append_assoc]
  refine hd.reports_nfa?.bind fun n hn => ?_
  obtain ⟨hmarker, hbuilt⟩ := NfaConfig.marker_and_built_of_nfa? hn
  have h := (hv.reports_convert? hbuilt (hmarker ▸ hd.marker.isScalar)).mapError (f := ConfigError.automaton)
  rw [List.map_append, List.map_map, apply_ite (List.map ConfigError.automaton)] at h
  rw [hconversion, ConversionConfig.faults, ← hmarker, NfaConfig.excess, hn, List.map_map]
  exact h

/-- A conversion that succeeds makes a complete automaton that cannot be changed. -/
theorem complete_of_convert? [DigitLimit] {r : Conversion} (h : c.convert? = .ok r) :
    r.dfa.frozen = true ∧ r.dfa.Complete := by
  obtain ⟨n, -, h⟩ := exists_of_bind_eq_ok h
  split at h
  · cases h
  · obtain ⟨C, hdfa, -⟩ := Nfa.exists_dfa_of_convert? (mapError_eq_ok_iff.mp h)
    rw [hdfa]
    exact ⟨rfl, (C.isSubsetAutomaton_dfa n).complete⟩

/-- The outcome of a conversion that was built from JSON data. It succeeds if and only if nothing is
wrong with the descriptions, and else reports the first of their faults. No other error occurs. This is
for data that can be written, as all data can that were read from a text: an integer with more digits is
not read either. Data that were made otherwise can have longer integers. Then a fault that shows one is
reported otherwise, and a conversion without a fault can find a state that cannot be written. -/
theorem convert?_outcome [DigitLimit] {build : Builder} (hbuild : build.ChecksTypes) {x : Value}
    (hx : x.IsJson) (hc : build x = .ok c) (hnfa : c.nfa = some d)
    (hconversion : c.conversion = some v) :
    (x.writable = true →
      ((∃ r, c.convert? = .ok r ∧ r.dfa.frozen = true ∧ r.dfa.Complete) ↔ d.Convertible v) ∧
      (∀ e, c.convert? = .error e ↔ (d.faults ++ v.faults d.marker).head? = some e) ∧
      ∀ e, c.convert? = .error e →
        e = .ofShape (.notIterable .null) ∨
          (∃ y : Value, y.isNested = true ∧ e = .ofShape (.unhashable y)) ∨
          (∃ i, ∃ y : Value, y.isTriple = false ∧ e = .badTriple i y) ∨
          e = .automaton (.markerInAlphabet d.marker)) ∧
    ((∃ r, c.convert? = .ok r ∧ r.dfa.frozen = true ∧ r.dfa.Complete) ↔
      d.Convertible v ∧ d.excess v = []) ∧
    ∀ e, c.convert? = .error e ↔
      ((d.faults ++ v.faults d.marker).map ConfigError.reported ++ d.excess v).head? = some e := by
  have hd := hbuild.nfa x c d hx hc hnfa
  have hreports := reports_convert? hnfa hconversion hd (hbuild.conversion x c v hx hc hconversion)
  have hok : (∃ r, c.convert? = .ok r ∧ r.dfa.frozen = true ∧ r.dfa.Complete) ↔
      d.Convertible v ∧ d.excess v = [] := by
    rw [← faults_eq_nil_iff, ← List.map_eq_nil_iff (f := ConfigError.reported),
      ← List.append_eq_nil_iff, ← hreports.exists_eq_ok_iff]
    exact ⟨fun ⟨r, hr, _⟩ => ⟨r, hr⟩, fun ⟨r, hr⟩ => ⟨r, hr, complete_of_convert? hr⟩⟩
  refine ⟨fun hwritable => ?_, hok, fun e => hreports.eq_error_iff⟩
  have hwritable := hbuild.writable x c d hwritable hc hnfa
  rw [hwritable.map_reported, hwritable.excess_eq_nil hd, List.append_nil] at hreports
  refine ⟨hok.trans (and_iff_left (hwritable.excess_eq_nil hd)), fun e => hreports.eq_error_iff,
    fun e he => ?_⟩
  refine (NfaConfig.of_mem_faults (List.mem_of_head? (hreports.eq_error_iff.mp he))).imp_right
    (.imp_right (.imp_left ?_))
  exact fun ⟨i, y, _, h⟩ => ⟨i, y, h⟩

/-- A description without start states in which the target of a transition is a list. -/
def startless : NfaConfig where
  transitions := .list [.list [.int 0, .text "a", .list []]]
  starts := .null
  accepts := .list [.int 1]
  marker := Nfa.defaultMarker

/-- An object with this description, and with the marker in the alphabet. -/
def startlessSource : Value :=
  .object [("nfa", .object [("transitions", startless.transitions), ("start_states", .null),
      ("accept_states", startless.accepts)]),
    ("conversion", .object [("alphabet", .list [.null])])]

theorem isJson_startlessSource : startlessSource.IsJson := by
  simp [startlessSource, startless]

/-- That the start states are missing is reported first. -/
theorem convert?_startless :
    ∃ c, ofValue? startlessSource = .ok c ∧
      c.convert? = .error (.ofShape (.notIterable .null)) := by
  refine ⟨⟨some startless, some ⟨.fifo, .list [.null]⟩, startlessSource⟩, rfl, ?_⟩
  exact (((convert?_outcome checksTypes_ofValue? isJson_startlessSource rfl rfl rfl).1 (by decide)).2.1
    _).mpr rfl

end AutomatonConfig

end Determinize
