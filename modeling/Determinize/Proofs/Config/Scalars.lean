import Determinize.Proofs.Config.Faults
import Determinize.Proofs.Construction.Observation
import Determinize.Proofs.Json.RoundTrip
import Determinize.Proofs.Nfa.Spelled

/-!
# What converted automata are over

The states and symbols of a converted automaton come from its description. So what holds of the parts of
a description holds of them.

This is used twice. Data from which a configuration is built can be written as they come from JSON; then
the converted automaton can be written. And states and symbols that are listed apart are scalars, since
they have been checked; the items of the transitions have not been checked, and can be doubles. If they
are scalars as well, the data of the automaton have no doubles and no tuples, and their JSON is read back.

## Main definitions

* `NfaConfig.OverScalars` — the items of the transitions are scalars.
* `Dfa.Over` — states and symbols have a property.

## Main results

* `AutomatonConfig.over_of_convert?` — the converted automaton is over what its descriptions are over.
* `Dfa.IsTable.isExact_toValue` — its data.
-/

namespace Determinize

open Value

/-- The sources, the symbols and the targets of the listed transitions are scalars. -/
def NfaConfig.OverScalars (d : NfaConfig) : Prop :=
  ∀ t ∈ d.transitions.listItems, ∀ x ∈ t.listItems, x.isScalar = true

/-- A checked description is over scalars if the items of its transitions are scalars. -/
theorem NfaConfig.Checked.over_isScalar {d : NfaConfig} (hd : d.Checked) (hitems : d.OverScalars) :
    d.Over (·.isScalar = true) :=
  ⟨hd.starts, hd.marker.isScalar, hitems⟩

/-- A property holds of the members of the states and of the symbols. -/
structure Dfa.Over (P : Value → Prop) (d : Dfa) : Prop where
  states : ∀ S ∈ d.states.toList, ∀ p ∈ S.toList, P p
  symbols : ∀ a ∈ d.alphabet.toList, P a

theorem Dfa.Over.writable [DigitLimit] {d : Dfa} (hd : d.Over (·.writable = true)) :
    d.writable = true := by
  simp only [Dfa.writable, ValueSet.writable, Bool.and_eq_true, List.all_eq_true]
  exact ⟨hd.states, hd.symbols⟩

/-! ### The converted automaton -/

section Over

variable [DigitLimit] {P : Value → Prop} {r : Conversion}

/-- The symbols of a converted automaton are items of the list that was explored. -/
theorem Nfa.forall_mem_alphabet_of_convert? {n : Nfa} {alphabet : Option Value} {worklist : Value}
    (h : n.convert? alphabet worklist = .ok r)
    (hsymbols : (alphabet.getD (.list n.symbols.toList)).IsListOf P) :
    ∀ a ∈ r.dfa.alphabet.toList, P a := by
  obtain ⟨c, hc, hrun⟩ := exists_of_bind_eq_ok h
  rw [(Construction.of_run?_eq_ok hrun).1]
  exact ValueSet.forall_mem_of_ofValue? hsymbols (Construction.of_prepare?_eq_ok hc).2

/-- What holds of the parts of checked descriptions holds of the converted automaton. -/
theorem AutomatonConfig.over_of_convert? {c : AutomatonConfig} {d : NfaConfig}
    (hnfa : c.nfa = some d) (hd : d.Checked) (hover : d.Over P)
    (hconversion : ∀ v, c.conversion = some v → v.Checked) (hP : ∀ x, x.IsOptionalText → P x)
    (h : c.convert? = .ok r) : r.dfa.Over P := by
  obtain ⟨n, hn, h⟩ := exists_of_bind_eq_ok h
  rw [nfa?, hnfa] at hn
  have hover := hd.over_of_nfa? hover hn
  split at h
  · cases h
  · rename_i v hv
    rw [mapError_eq_ok_iff] at h
    have hstored {t : Value × Value × Value} (ht : t ∈ n.transitions) :=
      hover.edges.of_mem_transitions ht
    have hlisted := (hconversion v hv).forall_mem
    refine ⟨Nfa.forall_mem_states_convert? h hover.starts fun t ht => (hstored ht).2.2,
      Nfa.forall_mem_alphabet_of_convert? h ?_⟩
    rcases (hconversion v hv).symbols_eq n.marker with ⟨hsymbols, -⟩ | hsymbols
    · refine .inr ⟨_, by rw [hsymbols]; rfl, fun a ha => ?_⟩
      obtain ⟨t, ht, rfl⟩ := Nfa.mem_symbols_toList ha
      exact (hstored ht).2.1
    · refine .inr ⟨_, by rw [hsymbols]; rfl, List.forall_mem_map.mpr fun a ha => ?_⟩
      split
      · exact hover.marker
      · exact hP a (hlisted a ha)

end Over

/-! ### The data -/

theorem Value.isExact_of_isScalar {x : Value} (h : x.isScalar = true) : x.IsExact := by
  cases x with
  | null => exact .null
  | bool b => exact .bool b
  | int n => exact .number ⟨n, rfl⟩
  | text s => exact .text s
  | real | tuple | list | object => cases h

theorem ValueSet.isExact_sorted {S : ValueSet} (h : ∀ a ∈ S.toList, a.isScalar = true) :
    (Value.list S.sorted).IsExact :=
  .list fun a ha => isExact_of_isScalar (h a (mem_sorted.mp ha))

/-- The data of an automaton over scalars have neither tuples nor doubles. -/
theorem Dfa.IsTable.isExact_toValue {d : Dfa} {accepting : ValueSet → Bool}
    {target : ValueSet → Value → ValueSet} (h : d.IsTable accepting target)
    (hd : d.Over (·.isScalar = true)) : d.toValue.IsExact := by
  have hstate {S : ValueSet} (hS : S ∈ d.states.toList) : (Value.list S.sorted).IsExact :=
    ValueSet.isExact_sorted (hd.states S hS)
  have hrecord : ∀ r ∈ d.records, (recordValue r).IsExact := by
    rintro ⟨S, a, T⟩ hr
    obtain ⟨hS, ha, rfl⟩ := h.mem_records_iff.mp hr
    refine .object trivial ?_
    simpa using ⟨hstate hS, isExact_of_isScalar (hd.symbols a ha), hstate (h.closed S hS a ha)⟩
  refine .object trivial ?_
  simp only [List.forall_mem_cons]
  refine ⟨hstate h.start_mem, ValueSet.isExact_sorted hd.symbols, .list ?_,
    .list (List.forall_mem_map.mpr hrecord), fun _ hf => absurd hf List.not_mem_nil⟩
  rw [h.acceptStates_eq]
  exact List.forall_mem_map.mpr fun S hS => hstate (List.mem_of_mem_filter hS)

end Determinize
