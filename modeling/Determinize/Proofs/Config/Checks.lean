import Determinize.Config.Automaton
import Determinize.Proofs.Config.Data
import Determinize.Proofs.Dfa.Data

/-!
# What building a configuration checks

A configuration that could be built has passed the checks of types. A field for a sequence holds a
list then, or `null`. The items of the list for start states, accept states and symbols have been
checked in turn: states are scalars, symbols are texts or `null`, and so is the marker. The items of the
list of transitions have not been checked, and are any data. No integer has become longer.

This is all that is assumed of what builds configurations.

## Main definitions

* `Value.IsJson` — data as a JSON document denotes them.
* `Value.isScalar` — whether a value is `null`, a truth value, an integer or a text.
* `Value.IsOptionalText` — texts and `null`.
* `Value.IsListOf` — lists of items of some kind, and `null`.
* `NfaConfig.Checked`, `ConversionConfig.Checked`.
* `Builder.ChecksTypes` — what is known of what builds configurations.

## Main results

* `AutomatonConfig.checksTypes_ofValue?` — the descriptions in a configuration that was built are checked.
-/

namespace Determinize

variable {ε α β : Type}

/-- What attempts at the members of a list make is made of a member. -/
theorem exists_mem_of_mapM_eq_ok {f : α → Except ε β} {xs : List α} {ys : List β}
    (h : xs.mapM f = .ok ys) : ∀ y ∈ ys, ∃ x ∈ xs, f x = .ok y := by
  induction xs generalizing ys with
  | nil => exact Except.ok.inj h ▸ fun _ hy => absurd hy List.not_mem_nil
  | cons x xs ih =>
    rw [List.mapM_cons] at h
    obtain ⟨y, hy, h⟩ := exists_of_bind_eq_ok h
    obtain ⟨ys, hys, h⟩ := exists_of_bind_eq_ok h
    rw [← Except.ok.inj h, List.forall_mem_cons]
    refine ⟨⟨x, List.mem_cons_self, hy⟩, fun z hz => ?_⟩
    obtain ⟨w, hw, hwz⟩ := ih hys z hz
    exact ⟨w, List.mem_cons_of_mem x hw, hwz⟩

/-- What an attempt at a value that may be missing makes is made of the value. -/
theorem exists_of_mapM_eq_ok_some {f : α → Except ε β} {x : Option α} {y : β}
    (h : x.mapM f = .ok (some y)) : ∃ z, x = some z ∧ f z = .ok y := by
  cases x with
  | none => cases h
  | some z =>
    obtain ⟨w, hw, h⟩ := exists_of_bind_eq_ok h
    cases Except.ok.inj h
    exact ⟨z, rfl, hw⟩

namespace Value

/-! ### Data of documents -/

/-- A number as a JSON document denotes it. -/
def IsJsonNumber (x : Value) : Prop := (∃ n, x = int n) ∨ ∃ d, x = real d

/-- Data as a JSON document denotes them: values without tuples. -/
def IsJson (x : Value) : Prop := x.IsData IsJsonNumber fun _ => True

variable {x y : Value} {P Q : Value → Prop}

@[simp]
theorem isJson_null : null.IsJson := .null

@[simp]
theorem isJson_text (s : String) : (text s).IsJson := .text s

@[simp]
theorem isJson_int (n : Int) : (int n).IsJson := .number (.inl ⟨n, rfl⟩)

theorem not_isJson_tuple {items : List Value} : ¬ (tuple items).IsJson := by
  rintro (_ | _ | _ | ⟨h⟩)
  rcases h with ⟨_, h⟩ | ⟨_, h⟩ <;> cases h

@[simp]
theorem isJson_list_iff {items : List Value} : (list items).IsJson ↔ ∀ x ∈ items, x.IsJson := by
  refine ⟨fun h => ?_, .list⟩
  cases h with
  | number h => rcases h with ⟨_, h⟩ | ⟨_, h⟩ <;> cases h
  | list h => exact h

@[simp]
theorem isJson_object_iff {fields : List (String × Value)} :
    (object fields).IsJson ↔ ∀ f ∈ fields, f.2.IsJson := by
  refine ⟨fun h => ?_, .object trivial⟩
  cases h with
  | number h => rcases h with ⟨_, h⟩ | ⟨_, h⟩ <;> cases h
  | object _ h => exact h

theorem IsJson.listItems (h : x.IsJson) : ∀ y ∈ x.listItems, y.IsJson := by
  cases x with
  | list => exact isJson_list_iff.mp h
  | null | bool | int | real | text | tuple | object => exact fun _ hy => absurd hy List.not_mem_nil

theorem IsJson.of_lookup {fields : List (String × Value)} {key : String}
    (h : (object fields).IsJson) (hx : fields.lookup key = some x) : x.IsJson :=
  isJson_object_iff.mp h _ (mem_of_lookup hx)

/-- What is loaded are data as a JSON document denotes them. -/
theorem IsLoaded.isJson (h : x.IsLoaded) : x.IsJson := by
  induction h with
  | null => exact .null
  | bool b => exact .bool b
  | text s => exact .text s
  | number h =>
    exact .number h.cases
  | list _ ih => exact .list ih
  | object _ _ ih => exact .object trivial ih

/-! ### Parts that can be written -/

section Writable

variable [DigitLimit]

theorem writable_int_of_lt {n : Int} (h : n.natAbs < 10 ^ 640) : (int n).writable = true :=
  Option.isNone_iff_eq_none.mpr (excessDigits?_of_lt h)

theorem writable_listItems (h : x.writable = true) : ∀ y ∈ x.listItems, y.writable = true := by
  cases x with
  | list => exact writable_list_iff.mp h
  | null | bool | int | real | text | tuple | object => exact fun _ hy => absurd hy List.not_mem_nil

theorem writable_of_lookup {fields : List (String × Value)} {key : String}
    (h : (object fields).writable = true) (hx : fields.lookup key = some x) : x.writable = true :=
  writable_object_iff.mp h _ (mem_of_lookup hx)

end Writable

/-! ### Scalars -/

/-- Whether a value is `null`, a truth value, an integer or a text. -/
def isScalar : Value → Bool
  | null | bool _ | int _ | text _ => true
  | real _ | tuple _ | list _ | object _ => false

theorem isNaN_of_isScalar (h : x.isScalar = true) : x.isNaN = false := by
  cases x with
  | null | bool | int | text => rfl
  | real | tuple | list | object => cases h

theorem hashable_of_isScalar (h : x.isScalar = true) : x.Hashable := by
  cases x with
  | null | bool | int | text => rfl
  | real | tuple | list | object => cases h

/-- A text, or `null`. -/
def IsOptionalText (x : Value) : Prop := x = null ∨ ∃ s, x = text s

theorem IsOptionalText.isScalar (h : x.IsOptionalText) : x.isScalar = true := by
  rcases h with rfl | ⟨s, rfl⟩ <;> rfl

theorem IsOptionalText.writable [DigitLimit] (h : x.IsOptionalText) : x.writable = true := by
  rcases h with rfl | ⟨s, rfl⟩ <;> rfl

/-! ### Checked sequences -/

/-- A list of items of some kind, or `null`. -/
def IsListOf (P : Value → Prop) (x : Value) : Prop :=
  x = null ∨ ∃ items, x = list items ∧ ∀ y ∈ items, P y

theorem isListOf_null : IsListOf P null := .inl rfl

theorem IsListOf.imp (h : x.IsListOf P) (hPQ : ∀ y, P y → Q y) : x.IsListOf Q := by
  rcases h with rfl | ⟨items, rfl, h⟩
  · exact .inl rfl
  · exact .inr ⟨items, rfl, fun y hy => hPQ y (h y hy)⟩

end Value

open Value Config

variable {x z : Value} {path : List String}

theorem isListOf_of_builtList? {Q : Value → Prop} {items : List Value}
    {item? : List String → Value → Except BuildError Value}
    (hitem : ∀ path, ∀ y ∈ items, ∀ z, item? path y = .ok z → Q z)
    (h : builtList? path item? items = .ok z) : z.IsListOf Q := by
  obtain ⟨ys, hys, h⟩ := exists_of_bind_eq_ok h
  refine .inr ⟨ys, (Except.ok.inj h).symm, fun y hy => ?_⟩
  obtain ⟨⟨x, i⟩, hx, hxy⟩ := exists_mem_of_mapM_eq_ok hys y hy
  exact hitem _ x (List.fst_mem_of_mem_zipIdx hx) y hxy

/-- A checked sequence is a list, or `null`. Its items are what the check of an item makes, of an item of
the list or of a text. -/
theorem isListOf_of_sequence? {P Q : Value → Prop}
    {item? : List String → Value → Except BuildError Value} (hitems : ∀ y ∈ x.listItems, P y)
    (htext : ∀ s, P (.text s)) (hitem : ∀ path y, P y → ∀ z, item? path y = .ok z → Q z)
    (h : sequence? path item? x = .ok z) : z.IsListOf Q := by
  cases x with
  | null => exact .inl (Except.ok.inj h).symm
  | list items => exact isListOf_of_builtList? (fun path y hy => hitem path y (hitems y hy)) h
  | text s =>
    refine isListOf_of_builtList? (fun path y hy => hitem path y ?_) h
    obtain ⟨c, -, rfl⟩ := List.mem_map.mp hy
    exact htext _
  | bool | int | real | tuple | object => cases h

theorem isScalar_of_int? (h : int? path x = .ok z) : z.isScalar = true := by
  cases x with
  | object fields =>
    cases fields with
    | nil => exact Except.ok.inj h ▸ rfl
    | cons => cases h
  | null | bool | int => exact Except.ok.inj h ▸ rfl
  | real | text | list | tuple => cases h

theorem isOptionalText_of_text? (h : text? path x = .ok z) : z.IsOptionalText := by
  cases x with
  | object fields =>
    rw [text?] at h
    split at h
    · exact .inr ⟨_, (Except.ok.inj h).symm⟩
    · cases h
  | null => exact .inl (Except.ok.inj h).symm
  | text s => exact .inr ⟨s, (Except.ok.inj h).symm⟩
  | bool | int | real | list | tuple => cases h

theorem isListOf_of_alphabet? (h : ConversionConfig.alphabet? path x = .ok z) :
    z.IsListOf IsOptionalText := by
  unfold ConversionConfig.alphabet? at h
  split at h
  · exact .inl (Except.ok.inj h).symm
  · exact isListOf_of_sequence? (P := fun _ => True) (fun _ _ => trivial) (fun _ => trivial)
      (fun _ _ _ _ => isOptionalText_of_text?) (mapError_eq_ok_iff.mp h)

theorem writable_of_int? [DigitLimit] (hx : x.writable = true) (h : int? path x = .ok z) :
    z.writable = true := by
  cases x with
  | object fields =>
    cases fields with
    | nil => exact Except.ok.inj h ▸ writable_int_of_lt (Nat.pow_pos (by decide))
    | cons => cases h
  | null | bool | int => exact Except.ok.inj h ▸ hx
  | real | text | list | tuple => cases h

/-- A field has what its check makes of the value under its key. -/
theorem exists_of_field? {fields : List (String × Value)} {key : String}
    {build? : List String → Value → Except BuildError Value}
    (h : field? fields path key build? = .ok (some z)) :
    ∃ y, fields.lookup key = some y ∧ build? (path ++ [key]) y = .ok z := by
  unfold field? at h
  split at h
  · rename_i y hy
    refine ⟨y, hy, ?_⟩
    cases hz : build? (path ++ [key]) y with
    | error e => rw [hz] at h; cases h
    | ok z' =>
      rw [hz] at h
      rw [Option.some.inj (Except.ok.inj h)]
  · cases h

/-! ### Checked descriptions -/

/-- What building guarantees of the description of an automaton. -/
structure NfaConfig.Checked (d : NfaConfig) : Prop where
  transitions : d.transitions.IsListOf IsJson
  starts : d.starts.IsListOf (·.isScalar = true)
  accepts : d.accepts.IsListOf (·.isScalar = true)
  marker : d.marker.IsOptionalText

/-- The transitions and the start states can be written. -/
structure NfaConfig.Writable [DigitLimit] (d : NfaConfig) : Prop where
  transitions : d.transitions.IsListOf (·.writable = true)
  starts : d.starts.IsListOf (·.writable = true)

/-- What building guarantees of the description of a conversion. -/
def ConversionConfig.Checked (v : ConversionConfig) : Prop := v.alphabet.IsListOf IsOptionalText

/-- A description of an automaton is made of what the fields of an object make. -/
theorem NfaConfig.exists_of_ofValue? {d : NfaConfig} (h : ofValue? path x = .ok (some d)) :
    ∃ fields transitions starts accepts, x = .object fields ∧
      fields.lookup "transitions" = some transitions ∧ fields.lookup "start_states" = some starts ∧
      sequence? (path ++ ["transitions"]) anything? transitions = .ok d.transitions ∧
      sequence? (path ++ ["start_states"]) int? starts = .ok d.starts ∧
      sequence? (path ++ ["accept_states"]) int? accepts = .ok d.accepts ∧
      d.marker.IsOptionalText := by
  cases x with
  | object fields =>
    obtain ⟨accepts, haccepts, h⟩ := exists_of_bind_eq_ok h
    obtain ⟨marker, hmarker, h⟩ := exists_of_bind_eq_ok h
    obtain ⟨starts, hstarts, h⟩ := exists_of_bind_eq_ok h
    obtain ⟨transitions, htransitions, h⟩ := exists_of_bind_eq_ok h
    split at h
    · cases Option.some.inj (Except.ok.inj h)
      obtain ⟨_, -, haccepts⟩ := exists_of_field? haccepts
      obtain ⟨_, hlookup, hstarts⟩ := exists_of_field? hstarts
      obtain ⟨_, hlookup', htransitions⟩ := exists_of_field? htransitions
      refine ⟨fields, _, _, _, rfl, hlookup', hlookup, htransitions, hstarts, haccepts, ?_⟩
      cases marker with
      | none => exact .inr ⟨_, rfl⟩
      | some z =>
        obtain ⟨_, -, hz⟩ := exists_of_field? hmarker
        exact isOptionalText_of_text? hz
    · cases h
  | null | bool | int | real | text | list | tuple => cases h

theorem NfaConfig.checked {d : NfaConfig} (hx : x.IsJson)
    (h : NfaConfig.ofValue? path x = .ok (some d)) : d.Checked := by
  obtain ⟨fields, transitions, starts, accepts, rfl, hlookup, -, htransitions, hstarts, haccepts,
    hmarker⟩ := exists_of_ofValue? h
  have hint {x z : Value} {path : List String} (hz : sequence? path int? x = .ok z) :
      z.IsListOf (·.isScalar = true) :=
    isListOf_of_sequence? (P := fun _ => True) (fun _ _ => trivial) (fun _ => trivial)
      (fun _ _ _ _ => isScalar_of_int?) hz
  refine ⟨isListOf_of_sequence? (hx.of_lookup hlookup).listItems isJson_text ?_ htransitions,
    hint hstarts, hint haccepts, hmarker⟩
  exact fun _ y hy z hz => Except.ok.inj hz ▸ hy

/-- The transitions and the start states can be written if the data can. -/
theorem NfaConfig.writable_of_ofValue? [DigitLimit] {d : NfaConfig} (hx : x.writable = true)
    (h : NfaConfig.ofValue? path x = .ok (some d)) : d.Writable := by
  obtain ⟨fields, transitions, starts, accepts, rfl, hlookup, hlookup', htransitions, hstarts, -⟩ :=
    exists_of_ofValue? h
  have htext (s : String) : (Value.text s).writable = true := rfl
  refine ⟨isListOf_of_sequence? (writable_listItems (writable_of_lookup hx hlookup)) htext ?_
      htransitions,
    isListOf_of_sequence? (writable_listItems (writable_of_lookup hx hlookup')) htext
      (fun _ _ hy _ => writable_of_int? hy) hstarts⟩
  exact fun _ y hy z hz => Except.ok.inj hz ▸ hy

theorem ConversionConfig.checked_standard : ConversionConfig.standard.Checked := isListOf_null

theorem ConversionConfig.checked {v : ConversionConfig}
    (h : ConversionConfig.ofValue? path x = .ok (some v)) : v.Checked := by
  cases x with
  | object fields =>
    obtain ⟨alphabet, halphabet, h⟩ := exists_of_bind_eq_ok h
    obtain ⟨worklist, -, h⟩ := exists_of_bind_eq_ok h
    split at h
    · rename_i conversion hconversion _
      cases Option.some.inj (Except.ok.inj h)
      have halph : v.alphabet = alphabet.getD .null := by
        unfold new? at hconversion
        split at hconversion
        · rw [← Except.ok.inj hconversion]
        · cases hconversion
      rw [ConversionConfig.Checked, halph]
      cases alphabet with
      | none => exact isListOf_null
      | some z =>
        obtain ⟨_, -, hz⟩ := exists_of_field? halphabet
        exact isListOf_of_alphabet? hz
    · cases h
  | null | bool | int | real | text | list | tuple => cases h

namespace AutomatonConfig

variable {c : AutomatonConfig}

/-- A configuration is made of what the fields of an object make. Without a description of the
conversion, it is the standard one. -/
theorem exists_of_ofValue? (h : ofValue? x = .ok c) :
    ∃ fields, x = .object fields ∧
      (∃ y, fields.lookup "nfa" = some y ∧ NfaConfig.ofValue? ["nfa"] y = .ok c.nfa) ∧
      ((fields.lookup "conversion" = none ∧ c.conversion = some .standard) ∨
        ∃ y, fields.lookup "conversion" = some y ∧
          ConversionConfig.ofValue? ["conversion"] y = .ok c.conversion) := by
  cases x with
  | object fields =>
    unfold ofValue? at h
    cases hlookup : fields.lookup "conversion" with
    | none =>
      simp only [hlookup] at h
      obtain ⟨conversion, hstandard, h⟩ := exists_of_bind_eq_ok h
      obtain ⟨nfa, hnfa, h⟩ := exists_of_bind_eq_ok h
      split at h
      · cases Except.ok.inj h
        exact ⟨fields, rfl, exists_of_mapM_eq_ok_some hnfa,
          .inl ⟨hlookup, (Except.ok.inj hstandard).symm⟩⟩
      · cases h
    | some y =>
      simp only [hlookup] at h
      obtain ⟨conversion, hbuilt, h⟩ := exists_of_bind_eq_ok h
      obtain ⟨nfa, hnfa, h⟩ := exists_of_bind_eq_ok h
      split at h
      · cases Except.ok.inj h
        exact ⟨fields, rfl, exists_of_mapM_eq_ok_some hnfa, .inr ⟨y, hlookup, hbuilt⟩⟩
      · cases h
  | null | bool | int | real | text | list | tuple => cases h

end AutomatonConfig

/-! ### What builds configurations -/

/-- What is known of a builder of configurations: the descriptions that it builds of JSON data are
checked, and it makes no integers that are longer than those in the data. -/
structure Builder.ChecksTypes (build : Builder) : Prop where
  nfa : ∀ x c d, x.IsJson → build x = .ok c → c.nfa = some d → d.Checked
  conversion : ∀ x c v, x.IsJson → build x = .ok c → c.conversion = some v → v.Checked
  writable : ∀ [DigitLimit] x c d, x.writable = true → build x = .ok c → c.nfa = some d →
    d.Writable

theorem AutomatonConfig.checksTypes_ofValue? : Builder.ChecksTypes ofValue? where
  nfa x c d hx h hd := by
    obtain ⟨fields, rfl, ⟨y, hy, hnfa⟩, -⟩ := exists_of_ofValue? h
    exact NfaConfig.checked (hx.of_lookup hy) (hd ▸ hnfa)
  conversion x c v _ h hv := by
    obtain ⟨fields, rfl, -, ⟨-, hstandard⟩ | ⟨y, -, hconversion⟩⟩ := exists_of_ofValue? h
    · cases hstandard.symm.trans hv
      exact ConversionConfig.checked_standard
    · exact ConversionConfig.checked (hv ▸ hconversion)
  writable x c d hx h hd := by
    obtain ⟨fields, rfl, ⟨y, hy, hnfa⟩, -⟩ := exists_of_ofValue? h
    exact NfaConfig.writable_of_ofValue? (writable_of_lookup hx hy) (hd ▸ hnfa)

end Determinize
