import Determinize.Proofs.Config.Token

/-!
# Written data are read back

The tokens of data are read as a document of the same form: a number is a numeral or the negation of
one, and lists and objects have the forms of their members. This document denotes the data. The
numbers are doubles again until whole ones become integers, and the fields of objects are sorted. So
loaded data that are written as JSON are read back as the same data, up to the order of fields.

## Main definitions

* `Value.document` — the form of a value as a document.
* `Evaluator.ReadsJson` — what is known of an evaluator of documents.

## Main results

* `Value.IsLoaded.ofString?_render` — written data are read as their form.
* `Value.IsLoaded.exists_evaluateIn?` — the form denotes the data.
* `Value.IsLoaded.exists_evaluateText?` — written data are read back.
-/

namespace Determinize

namespace Value

/-! ### The form of data -/

/-- The form of a number as a document. -/
def numberDocument (x : Value) : Document :=
  if x.hasMinus then .negation (.number x.numeral) else .number x.numeral

mutual

/-- The form of a value as a document. -/
def document : Value → Document
  | null => .null
  | bool b => .bool b
  | int n => numberDocument (int n)
  | real x => numberDocument (real x)
  | text s => .text s
  | tuple items | list items => .list (itemDocuments items)
  | object fields => .object (fieldDocuments fields)

/-- The forms of the items of a list. -/
def itemDocuments : List Value → List Document
  | [] => []
  | x :: xs => document x :: itemDocuments xs

/-- The forms of the values of fields. -/
def fieldDocuments : List (String × Value) → List (String × Document)
  | [] => []
  | (k, x) :: fields => (k, document x) :: fieldDocuments fields

end

open Document (readItems? readFields?)

variable {x : Value} {rest : List Token} {fuel : Nat}

theorem read?_numberTokens (x : Value) (hfuel : x.numberTokens.length ≤ fuel) :
    Document.read? fuel (x.numberTokens ++ rest) = some (x.numberDocument, rest) := by
  cases hminus : x.hasMinus with
  | false =>
    rw [numberTokens, hminus] at hfuel ⊢
    rw [numberDocument, hminus]
    obtain ⟨fuel, rfl⟩ := Nat.exists_eq_add_of_le' (hfuel : 1 ≤ fuel)
    rfl
  | true =>
    rw [numberTokens, hminus] at hfuel ⊢
    rw [numberDocument, hminus]
    obtain ⟨fuel, rfl⟩ := Nat.exists_eq_add_of_le' (hfuel : 2 ≤ fuel)
    rfl

/-- Data do not begin with a bracket that closes a list, nor with a comma. -/
theorem exists_itemTokens_eq_cons (x : Value) (xs : List Value) : ∃ t ts,
    itemTokens (x :: xs) = t :: ts ∧ t ≠ .punctuation ']' ∧ t ≠ .punctuation ',' := by
  have hnumber (y : Value) : ∃ t ts, y.numberTokens = t :: ts ∧
      t ≠ .punctuation ']' ∧ t ≠ .punctuation ',' := by
    rw [numberTokens]
    cases y.hasMinus <;> exact ⟨_, _, rfl, by simp, by simp⟩
  have htokens : ∃ t ts, x.tokens = t :: ts ∧ t ≠ .punctuation ']' ∧ t ≠ .punctuation ',' := by
    cases x with
    | int n => exact hnumber (int n)
    | real x => exact hnumber (real x)
    | null | bool | text | tuple | list | object => exact ⟨_, _, rfl, by simp, by simp⟩
  obtain ⟨t, ts, hts, ht⟩ := htokens
  cases xs with
  | nil => exact ⟨t, ts, hts, ht⟩
  | cons => exact ⟨t, _, by rw [itemTokens, hts, List.cons_append], ht⟩

section Read

variable {ts rest' : List Token} {d : Document} {t : Token}

theorem readItems?_of_close (h : Document.read? fuel ts = some (d, .punctuation ']' :: rest)) :
    readItems? (fuel + 1) ts = some ([d], rest) := by
  rw [readItems?, h]
  rfl

theorem readItems?_of_comma {ds : List Document} (ht : t ≠ .punctuation ']')
    (h : Document.read? fuel ts = some (d, .punctuation ',' :: t :: rest))
    (hitems : readItems? fuel (t :: rest) = some (ds, rest')) :
    readItems? (fuel + 1) ts = some (d :: ds, rest') := by
  rw [readItems?, h]
  dsimp only [Option.bind_eq_bind, Option.bind_some]
  split
  · rename_i heq
    cases heq
  · rename_i heq
    cases heq
    exact absurd rfl ht
  · rename_i heq
    cases heq
    rw [hitems]
    rfl
  · rename_i hne
    exact absurd rfl (hne _)

theorem readFields?_of_close {k : String}
    (h : Document.read? fuel ts = some (d, .punctuation '\x7d' :: rest)) :
    readFields? (fuel + 1) (.text k :: .punctuation ':' :: ts) = some ([(k, d)], rest) := by
  rw [readFields?]
  change (Document.read? fuel ts).bind _ = _
  rw [h]
  rfl

theorem readFields?_of_comma {k : String} {ds : List (String × Document)}
    (ht : t ≠ .punctuation '\x7d')
    (h : Document.read? fuel ts = some (d, .punctuation ',' :: t :: rest))
    (hfields : readFields? fuel (t :: rest) = some (ds, rest')) :
    readFields? (fuel + 1) (.text k :: .punctuation ':' :: ts) = some ((k, d) :: ds, rest') := by
  rw [readFields?]
  change (Document.read? fuel ts).bind _ = _
  rw [h, Option.bind_some]
  dsimp only [Option.bind_eq_bind]
  split
  · rename_i heq
    cases heq
  · rename_i heq
    cases heq
    exact absurd rfl ht
  · rename_i heq
    cases heq
    rw [hfields]
    rfl
  · rename_i hne
    exact absurd rfl (hne _)

end Read

theorem readItems?_itemTokens {items : List Value} (hne : items ≠ [])
    (hitems : ∀ x ∈ items, ∀ {rest fuel}, x.tokens.length ≤ fuel →
      Document.read? fuel (x.tokens ++ rest) = some (x.document, rest))
    (hfuel : (itemTokens items).length < fuel) :
    readItems? fuel (itemTokens items ++ .punctuation ']' :: rest) =
      some (itemDocuments items, rest) := by
  induction items generalizing fuel with
  | nil => exact absurd rfl hne
  | cons x xs ih =>
    rw [List.forall_mem_cons] at hitems
    obtain ⟨fuel, rfl⟩ := Nat.exists_eq_add_one_of_ne_zero (Nat.ne_zero_of_lt hfuel)
    cases xs with
    | nil =>
      rw [itemTokens] at hfuel ⊢
      exact readItems?_of_close (hitems.1 (Nat.le_of_lt_succ hfuel))
    | cons y ys =>
      rw [itemTokens, List.length_append, List.length_cons] at hfuel
      have hlength : (itemTokens (y :: ys)).length < fuel := by omega
      have hrest := ih (List.cons_ne_nil y ys) hitems.2 hlength
      obtain ⟨t, ts, hts, hclose, -⟩ := exists_itemTokens_eq_cons y ys
      rw [hts, List.cons_append] at hrest
      rw [itemTokens, hts, List.append_assoc, List.cons_append, List.cons_append]
      exact readItems?_of_comma hclose (hitems.1 (by omega)) hrest

theorem readFields?_fieldTokens {fields : List (String × Value)} (hne : fields ≠ [])
    (hfields : ∀ f ∈ fields, ∀ {rest fuel}, f.2.tokens.length ≤ fuel →
      Document.read? fuel (f.2.tokens ++ rest) = some (f.2.document, rest))
    (hfuel : (fieldTokens fields).length < fuel) :
    readFields? fuel (fieldTokens fields ++ .punctuation '\x7d' :: rest) =
      some (fieldDocuments fields, rest) := by
  induction fields generalizing fuel with
  | nil => exact absurd rfl hne
  | cons field fields ih =>
    obtain ⟨k, x⟩ := field
    rw [List.forall_mem_cons] at hfields
    obtain ⟨fuel, rfl⟩ := Nat.exists_eq_add_one_of_ne_zero (Nat.ne_zero_of_lt hfuel)
    cases fields with
    | nil =>
      rw [fieldTokens, List.length_cons, List.length_cons] at hfuel
      exact readFields?_of_close (hfields.1 (show x.tokens.length ≤ fuel by omega))
    | cons f fields =>
      rw [fieldTokens, List.length_cons, List.length_cons, List.length_append,
        List.length_cons] at hfuel
      have hlength : (fieldTokens (f :: fields)).length < fuel := by omega
      have hrest := ih (List.cons_ne_nil f fields) hfields.2 hlength
      obtain ⟨l, ts, hts⟩ : ∃ l ts, fieldTokens (f :: fields) = .text l :: ts := by
        cases fields <;> exact ⟨_, _, rfl⟩
      rw [hts, List.cons_append] at hrest
      rw [fieldTokens, hts, List.cons_append, List.cons_append, List.append_assoc,
        List.cons_append, List.cons_append]
      exact readFields?_of_comma (t := .text l) (by simp)
        (hfields.1 (show x.tokens.length ≤ fuel by omega)) hrest

/-- The tokens of loaded data are read as their form. -/
theorem IsLoaded.read?_tokens (hx : x.IsLoaded) (hfuel : x.tokens.length ≤ fuel) :
    Document.read? fuel (x.tokens ++ rest) = some (x.document, rest) := by
  induction hx generalizing rest fuel with
  | null | bool b | text s =>
    obtain ⟨fuel, rfl⟩ := Nat.exists_eq_add_one_of_ne_zero (Nat.ne_zero_of_lt hfuel)
    first | rfl | (cases b <;> rfl)
  | number hx =>
    rcases hx.cases with ⟨_, rfl⟩ | ⟨_, rfl⟩
    · exact read?_numberTokens _ hfuel
    · exact read?_numberTokens _ hfuel
  | @list items _ ih =>
    rw [tokens, List.length_cons, List.length_append, List.length_singleton] at hfuel
    obtain ⟨fuel, rfl⟩ := Nat.exists_eq_add_one_of_ne_zero (Nat.ne_zero_of_lt hfuel)
    cases items with
    | nil => rfl
    | cons x xs =>
      have hread : readItems? fuel (itemTokens (x :: xs) ++ .punctuation ']' :: rest) =
          some (itemDocuments (x :: xs), rest) :=
        readItems?_itemTokens (List.cons_ne_nil x xs) ih (Nat.le_of_succ_le_succ hfuel)
      obtain ⟨t, ts, hts, hclose, hcomma⟩ := exists_itemTokens_eq_cons x xs
      rw [tokens, List.cons_append, List.append_assoc, List.singleton_append, Document.read?, hread]
      · rfl
      · intro rest' h
        rw [hts] at h
        exact hclose (List.cons.inj h).1
      · intro rest' h
        rw [hts] at h
        exact hcomma (List.cons.inj h).1
  | @object fields _ _ ih =>
    rw [tokens, List.length_cons, List.length_append, List.length_singleton] at hfuel
    obtain ⟨fuel, rfl⟩ := Nat.exists_eq_add_one_of_ne_zero (Nat.ne_zero_of_lt hfuel)
    cases fields with
    | nil => rfl
    | cons f fields =>
      have hread : readFields? fuel (fieldTokens (f :: fields) ++ .punctuation '\x7d' :: rest) =
          some (fieldDocuments (f :: fields), rest) :=
        readFields?_fieldTokens (List.cons_ne_nil f fields) ih (Nat.le_of_succ_le_succ hfuel)
      obtain ⟨l, ts, hts⟩ : ∃ l ts, fieldTokens (f :: fields) = .text l :: ts := by
        cases fields <;> exact ⟨_, _, rfl⟩
      rw [tokens, List.cons_append, List.append_assoc, List.singleton_append, Document.read?, hread]
      · rfl
      · simp [hts]
      · simp [hts]

/-- Loaded data that are written are read as their form. -/
theorem IsLoaded.ofString?_render (hx : x.IsLoaded) :
    Document.ofString? (Json.render x) = some x.document := by
  have hstops : Token.Stops [] := fun _ hc => nomatch hc
  have hlexes := hx.lexes_write hstops Token.lexes_nil
  rw [List.append_nil, List.append_nil] at hlexes
  have hread : Document.read? (2 * x.tokens.length + 1) (x.tokens ++ []) =
      some (x.document, []) := hx.read?_tokens (by omega)
  rw [List.append_nil] at hread
  rw [Document.ofString?, Json.render, String.toList_ofList, Token.ofChars?, hlexes _ le_rfl]
  change (Document.read? (2 * x.tokens.length + 1) x.tokens).bind _ = _
  rw [hread]
  rfl

/-! ### What data denote as documents -/

/-- A number denotes the double from which it came. -/
theorem evaluateIn?_numberDocument {r : Rat} (h : (Double.finite r).Representable)
    (externals : List (String × String)) (depth : Nat) (scope : Document.Scope) :
    (numberDocument (ofWholeDouble (.finite r))).evaluateIn? externals depth scope =
      .ok (real (.finite r)) := by
  obtain ⟨n, hread, hvalue⟩ := exists_readsAs_ofWholeDouble h
  obtain ⟨hminus, hnumeral, -⟩ := exists_of_readsAs hread
  rw [numberDocument, hminus, hnumeral]
  by_cases hr : r < 0
  · rw [decide_eq_true hr, if_pos rfl, Document.evaluateIn?, Document.evaluateIn?, hvalue]
    have hne : r.abs ≠ 0 := fun h => hr.ne (Rat.abs_eq_zero_iff.mp h)
    change Except.ok (real (if r.abs = 0 then _ else _)) = _
    rw [if_neg hne, Rat.abs_of_nonpos hr.le, neg_neg]
  · rw [decide_eq_false hr, if_neg Bool.false_ne_true, Document.evaluateIn?, hvalue,
      Rat.abs_of_nonneg (not_lt.mp hr)]

variable {externals : List (String × String)} {depth : Nat} {scope : Document.Scope}

theorem exists_evaluateItems? {items : List Value}
    (h : ∀ x ∈ items, ∃ y, x.document.evaluateIn? externals depth scope = .ok y ∧
      y.IsData IsFinite Ascending ∧ y.withIntegers.SameData x) :
    ∃ ys, Document.evaluateItems? externals depth scope (itemDocuments items) = .ok ys ∧
      (∀ y ∈ ys, y.IsData IsFinite Ascending) ∧
      List.Forall₂ (fun y x => y.withIntegers.SameData x) ys items := by
  induction items with
  | nil =>
    rw [itemDocuments, Document.evaluateItems?]
    exact ⟨[], rfl, fun _ hy => absurd hy List.not_mem_nil, .nil⟩
  | cons x xs ih =>
    rw [List.forall_mem_cons] at h
    obtain ⟨⟨y, hy, hfinite, hsame⟩, h⟩ := h
    obtain ⟨ys, hys, hfinites, hsames⟩ := ih h
    rw [itemDocuments, Document.evaluateItems?, hy, hys]
    exact ⟨y :: ys, rfl, List.forall_mem_cons.mpr ⟨hfinite, hfinites⟩, .cons hsame hsames⟩

theorem exists_evaluateFields? {fields : List (String × Value)}
    (h : ∀ f ∈ fields, ∃ y, f.2.document.evaluateIn? externals depth scope = .ok y ∧
      y.IsData IsFinite Ascending ∧ y.withIntegers.SameData f.2) :
    ∃ ys, Document.evaluateFields? externals depth scope (fieldDocuments fields) = .ok ys ∧
      (∀ f ∈ ys, f.2.IsData IsFinite Ascending) ∧
      List.Forall₂ (fun f g => f.1 = g.1 ∧ f.2.withIntegers.SameData g.2) ys fields := by
  induction fields with
  | nil =>
    rw [fieldDocuments, Document.evaluateFields?]
    exact ⟨[], rfl, fun _ hy => absurd hy List.not_mem_nil, .nil⟩
  | cons field fields ih =>
    obtain ⟨k, x⟩ := field
    rw [List.forall_mem_cons] at h
    obtain ⟨⟨y, hy, hfinite, hsame⟩, h⟩ := h
    obtain ⟨ys, hys, hfinites, hsames⟩ := ih h
    rw [fieldDocuments, Document.evaluateFields?, hy, hys]
    exact ⟨(k, y) :: ys, rfl, List.forall_mem_cons.mpr ⟨hfinite, hfinites⟩,
      .cons ⟨rfl, hsame⟩ hsames⟩

theorem map_fst_fieldDocuments (fields : List (String × Value)) :
    (fieldDocuments fields).map (·.1) = fields.map (·.1) := by
  induction fields with
  | nil => rfl
  | cons field fields ih => rw [fieldDocuments, List.map_cons, List.map_cons, ih]

/-- The form of loaded data denotes the data, with doubles for the numbers. -/
theorem IsLoaded.exists_evaluateIn? (hx : x.IsLoaded) (externals : List (String × String))
    (depth : Nat) (scope : Document.Scope) :
    ∃ y, x.document.evaluateIn? externals depth scope = .ok y ∧ y.IsData IsFinite Ascending ∧
      y.withIntegers.SameData x := by
  induction hx with
  | null => exact ⟨.null, by rw [document, Document.evaluateIn?], .null, .refl _⟩
  | bool b => exact ⟨.bool b, by rw [document, Document.evaluateIn?], .bool b, .refl _⟩
  | text s => exact ⟨.text s, by rw [document, Document.evaluateIn?], .text s, .refl _⟩
  | @number x hx =>
    have hdocument : x.document = x.numberDocument := by
      rcases hx.cases with ⟨_, rfl⟩ | ⟨_, rfl⟩ <;> rfl
    obtain ⟨r, hr, rfl⟩ := hx
    refine ⟨real (.finite r), ?_, .number ⟨_, hr, rfl, rfl⟩, .refl _⟩
    rw [hdocument]
    exact evaluateIn?_numberDocument hr externals depth scope
  | list _ ih =>
    obtain ⟨ys, hys, hfinite, hsame⟩ := exists_evaluateItems? ih
    refine ⟨list ys, ?_, .list hfinite, ?_⟩
    · rw [document, Document.evaluateIn?, hys]
      rfl
    · rw [Value.withIntegers, withIntegersItems_eq_map]
      exact sameData_list (List.forall₂_map_left_iff.mpr hsame)
  | @object fields hkeys _ ih =>
    obtain ⟨ys, hys, hfinite, hsame⟩ := exists_evaluateFields? ih
    have hduplicate : Document.duplicate? ((fieldDocuments fields).map (·.1)) = none := by
      rw [map_fst_fieldDocuments, duplicate?_eq_none_iff]
      exact hkeys
    have hysKeys : (ys.map (·.1)).Nodup := by
      rwa [map_eq_map_of_forall₂ hsame fun _ _ h => h.1]
    refine ⟨object _, ?_, .object (ascending_insertionSort hysKeys) fun f hf => ?_, ?_⟩
    · rw [document, Document.evaluateIn?, hduplicate]
      dsimp only
      rw [hys]
      rfl
    · exact hfinite f ((perm_insertionSort _ ys).mem_iff.mp hf)
    · rw [Value.withIntegers, withIntegersFields_eq_map]
      refine sameData_object ((perm_insertionSort _ ys).map _) ?_ (List.forall₂_map_left_iff.mpr hsame)
      rw [List.map_map]
      exact (ascending_insertionSort hysKeys).nodup

end Value

/-- What is known of an evaluator: JSON is a document and denotes the data of which it is the JSON, up to
the order of fields. -/
def Evaluator.ReadsJson (evaluate : Evaluator) : Prop :=
  ∀ externals x, x.IsLoaded → ∃ y, evaluate externals (Json.render x) = .ok y ∧ y.SameData x

/-- Loaded data that are written as JSON are read back. -/
theorem Value.IsLoaded.exists_evaluateText? {x : Value} (hx : x.IsLoaded)
    (externals : List (String × String)) :
    ∃ y, evaluateText? externals (Json.render x) = .ok y ∧ y.SameData x := by
  obtain ⟨y, hy, hfinite, hsame⟩ := hx.exists_evaluateIn? externals x.document.bindingCount []
  have hdata := Document.isData_of_evaluateIn? hy
  have hposition := (firstInfinity?_eq_none_iff hdata).mpr hfinite
  refine ⟨y.withIntegers, ?_, hsame⟩
  simp only [evaluateText?, hx.ofString?_render]
  refine bind_eq_ok_iff.mpr ⟨y, hy, ?_⟩
  simp only [hposition]
  rfl

theorem readsJson_evaluateText? : Evaluator.ReadsJson evaluateText? :=
  fun externals _ hx => hx.exists_evaluateText? externals

end Determinize
