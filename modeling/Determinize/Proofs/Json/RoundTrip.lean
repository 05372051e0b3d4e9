import Determinize.Json.Decode
import Determinize.Proofs.Config.Token

/-!
# Written JSON is read back

Written data are read as the same data, with the same types, if neither tuples nor doubles occur in
them. What follows a value does not matter, unless it continues a number; so the reader stops behind
every item and every field. The line that is written has no control characters, and different data
have different lines.

## Main definitions

* `Value.IsExact` — data without tuples and doubles.
* `Json.ReadsBack` — a written value is read back, whatever follows.
* `Json.IsLine` — a text without control characters.

## Main results

* `Json.readChars?_flatMap_escape` — escaped characters are read back.
* `Value.IsExact.readsBack`, `Value.IsExact.parse?_render` — written data are read back.
* `Value.IsExact.render_inj` — different data have different lines.
* `Value.IsExact.isLine_write` — data are written on one line.
-/

namespace Determinize

namespace Json

variable {fuel : Nat} {more rest rest' : List Char}

/-! ### Texts -/

/-- A letter after a backslash is read as the character for which it stands. -/
theorem readChars?_escaped {c e : Char} (he : e ≠ 'u') (hescaped : escaped? e = some c)
    (h : readChars? fuel rest = some (more, rest')) :
    readChars? (fuel + 1) (Text.backslash :: e :: rest) = some (c :: more, rest') := by
  rw [readChars?, if_neg (by decide), if_pos rfl, hescaped]
  · change (readChars? fuel rest).bind _ = _
    rw [h]
    rfl
  · exact he

/-- A control that is written by its number is read back. -/
theorem readChars?_hexadecimal {c : Char} (hc : c.toNat < 0x20)
    (h : readChars? fuel rest = some (more, rest')) :
    readChars? (fuel + 1) (Text.backslash :: 'u' :: (Text.hexadecimal 4 c.toNat ++ rest)) =
      some (c :: more, rest') := by
  rw [readChars?, if_neg (by decide), if_pos rfl]
  change (takeNumbered? (Text.hexadecimal 4 c.toNat ++ rest)).bind _ = _
  rw [Token.takeNumbered?_hexadecimal hc, Char.ofNat_toNat]
  change (readChars? fuel rest).bind _ = _
  rw [h]
  rfl

/-- A character that is written is read back. -/
theorem readChars?_escape (h : readChars? fuel rest = some (more, rest')) (c : Char) :
    readChars? (fuel + 1) (escape c ++ rest) = some (c :: more, rest') := by
  rw [escape]
  split_ifs with hquote hn hr ht hf hb hsmall
  · rcases hquote with rfl | rfl <;> exact readChars?_escaped (by decide) rfl h
  · exact hn ▸ readChars?_escaped (by decide) rfl h
  · exact hr ▸ readChars?_escaped (by decide) rfl h
  · exact ht ▸ readChars?_escaped (by decide) rfl h
  · exact hf ▸ readChars?_escaped (by decide) rfl h
  · exact hb ▸ readChars?_escaped (by decide) rfl h
  · exact readChars?_hexadecimal hsmall h
  · rw [List.singleton_append]
    unfold readChars?
    rw [if_neg fun h => hquote (.inl h), if_neg fun h => hquote (.inr h), if_neg hsmall]
    change (readChars? fuel rest).bind _ = _
    rw [h]
    rfl

/-- Escaped characters are read back up to the closing quote. -/
theorem readChars?_flatMap_escape (cs rest : List Char) (hfuel : cs.length < fuel) :
    readChars? fuel (cs.flatMap escape ++ Text.doubleQuote :: rest) = some (cs, rest) := by
  induction cs generalizing fuel with
  | nil =>
    obtain ⟨fuel, rfl⟩ := Nat.exists_eq_add_one_of_ne_zero (Nat.ne_zero_of_lt hfuel)
    rfl
  | cons c cs ih =>
    obtain ⟨fuel, rfl⟩ := Nat.exists_eq_add_one_of_ne_zero (Nat.ne_zero_of_lt hfuel)
    rw [List.flatMap_cons, List.append_assoc]
    exact readChars?_escape (ih (Nat.lt_of_succ_lt_succ hfuel)) c

/-- A text is read back after its opening quote. -/
theorem readText?_flatMap_escape (s : String) (rest : List Char) :
    readText? (s.toList.flatMap escape ++ Text.doubleQuote :: rest) = some (s, rest) := by
  have hlength := Token.length_le_flatMap_escape s.toList
  rw [readText?, readChars?_flatMap_escape _ _ (by rw [List.length_append]; omega)]
  exact congrArg (fun t => some (t, rest)) String.ofList_toList

theorem writeText_append (s : String) (rest : List Char) :
    writeText s ++ rest =
      Text.doubleQuote :: (s.toList.flatMap escape ++ Text.doubleQuote :: rest) := by
  rw [writeText, List.append_assoc, List.singleton_append, List.cons_append]

/-! ### Numbers -/

/-- Only the number zero has a zero as its first digit. -/
theorem head?_toDigits_ne {n : Nat} (hn : n ≠ 0) : (Nat.toDigits 10 n).head? ≠ some '0' := by
  induction n using Nat.strongRecOn with
  | ind n ih =>
    by_cases hsmall : n < 10
    · rw [Nat.toDigits_of_lt_base hsmall]
      interval_cases n
      · exact absurd rfl hn
      all_goals decide
    · rw [Nat.toDigits_of_base_le (by decide) (not_lt.mp hsmall),
        List.head?_append_of_ne_nil _ Nat.toDigits_ne_nil]
      exact ih (n / 10) (Nat.div_lt_self (Nat.pos_of_ne_zero hn) (by decide)) (by omega)

/-- The digits of a number have no needless zeros. -/
theorem hasNeedlessZero_toDigits (n : Nat) (hrest : Numeral.Ends rest) :
    Numeral.hasNeedlessZero (Nat.toDigits 10 n ++ rest) = false := by
  unfold Numeral.hasNeedlessZero
  split
  · rename_i d tail heq
    by_cases hn : n = 0
    · subst hn
      have htail : rest = d :: tail := (List.cons.inj heq).2
      rw [htail] at hrest
      rw [(hrest d rfl).1]
      rfl
    · refine absurd ?_ (head?_toDigits_ne hn)
      rw [← List.head?_append_of_ne_nil _ Nat.toDigits_ne_nil, heq, List.head?_cons]
  · rfl

/-- A numeral is read with the sign before it. -/
theorem read?_sign (negative : Bool) {c : Char} {cs : List Char} (hc : c ≠ '-') :
    Numeral.read? ((if negative then ['-'] else []) ++ c :: cs) =
      if Numeral.hasNeedlessZero (c :: cs) then none
      else (Numeral.readUnsigned? (c :: cs)).map fun (n, rest) => ({ n with negative }, rest) := by
  cases negative with
  | true => rfl
  | false =>
    change Numeral.read? (c :: cs) = _
    unfold Numeral.read?
    split
    rename_i heq
    split at heq
    · rename_i hcs
      exact absurd (List.cons.inj hcs).1 hc
    · cases heq
      rfl

/-- An integer is read back, whatever follows that does not continue it. -/
theorem readNumber?_int (n : Int) (hrest : Numeral.Ends rest) :
    readNumber? ((toString n).toList ++ rest) = some (.int n, rest) := by
  have hread := readUnsigned?_toDigits n.natAbs hrest
  have hzero := hasNeedlessZero_toDigits n.natAbs hrest
  obtain ⟨c, cs, hcs⟩ := List.exists_cons_of_ne_nil (Nat.toDigits_ne_nil (b := 10) (n := n.natAbs))
  have hc : c ≠ '-' := by
    rintro rfl
    have := Numeral.isDigit_toDigits n.natAbs '-' (hcs ▸ List.mem_cons_self)
    cases this
  rw [hcs, List.cons_append] at hread hzero
  rw [toList_toString_int, hcs, List.append_assoc, List.cons_append, readNumber?, read?_sign _ hc,
    hzero, hread]
  change some (Value.int (if decide (n < 0) then -(n.natAbs : Int) else n.natAbs), rest) = _
  congr
  simp only [decide_eq_true_eq]
  split <;> omega

/-! ### Scalars -/

/-- What does not begin with a space, a quote or a bracket that opens is a number or a word. -/
theorem readValue?_of_first {c : Char} {cs : List Char}
    (hc : isSpace c = false ∧ c ≠ '[' ∧ c ≠ '\x7b' ∧ c ≠ '\x22') :
    readValue? (fuel + 1) (c :: cs) = (readNumber? (c :: cs)).or (readWord? (c :: cs)) := by
  obtain ⟨hspace, hlist, hobject, htext⟩ := hc
  have hskip : skipSpace (c :: cs) = c :: cs := List.dropWhile_cons_of_neg (by simp [hspace])
  rw [readValue?, hskip]
  split
  · rename_i heq
    cases heq
  · rename_i heq
    exact absurd (List.cons.inj heq).1 hlist
  · rename_i heq
    exact absurd (List.cons.inj heq).1 hobject
  · rename_i heq
    exact absurd (List.cons.inj heq).1 htext
  · rfl

/-- The text of an integer begins with a minus or a digit. -/
theorem exists_toString_eq_cons (n : Int) : ∃ c cs, (toString n).toList = c :: cs ∧
    isSpace c = false ∧ c ≠ '[' ∧ c ≠ '\x7b' ∧ c ≠ '\x22' ∧ c ≠ ']' := by
  have hne : (toString n).toList ≠ [] := by
    rw [toList_toString_int]
    exact List.append_ne_nil_of_right_ne_nil _ Nat.toDigits_ne_nil
  obtain ⟨c, cs, hcs⟩ := List.exists_cons_of_ne_nil hne
  refine ⟨c, cs, hcs, ?_⟩
  have hall : ∀ c ∈ ['-', '0', '1', '2', '3', '4', '5', '6', '7', '8', '9'],
      isSpace c = false ∧ c ≠ '[' ∧ c ≠ '\x7b' ∧ c ≠ '\x22' ∧ c ≠ ']' :=
    List.forall_iff_forall_mem.mp (by decide)
  refine hall c (List.mem_cons.mpr ?_)
  exact (mem_toString_int (hcs ▸ List.mem_cons_self)).imp_right Token.mem_of_isDigit

theorem readValue?_int (n : Int) (hrest : Numeral.Ends rest) :
    readValue? (fuel + 1) ((toString n).toList ++ rest) = some (.int n, rest) := by
  obtain ⟨c, cs, hcs, hspace, hlist, hobject, htext, -⟩ := exists_toString_eq_cons n
  have hread := readNumber?_int n hrest
  rw [hcs, List.cons_append] at hread ⊢
  rw [readValue?_of_first ⟨hspace, hlist, hobject, htext⟩, hread, Option.some_or]

theorem readValue?_text (s : String) (rest : List Char) :
    readValue? (fuel + 1) (writeText s ++ rest) = some (.text s, rest) := by
  rw [writeText_append]
  change (readText? _).bind _ = _
  rw [readText?_flatMap_escape]
  rfl

/-! ### Items and fields -/

theorem readValue?_space (fuel : Nat) (cs : List Char) :
    readValue? fuel (' ' :: cs) = readValue? fuel cs := by
  cases fuel <;> rfl

theorem readItems?_space (fuel : Nat) (cs : List Char) :
    readItems? fuel (' ' :: cs) = readItems? fuel cs := by
  cases fuel with
  | zero => rfl
  | succ fuel => rw [readItems?, readItems?, readValue?_space]

theorem readFields?_space (fuel : Nat) (cs : List Char) :
    readFields? fuel (' ' :: cs) = readFields? fuel cs := by
  cases fuel <;> rfl

variable {cs : List Char} {x : Value}

theorem readItems?_of_close (h : readValue? fuel cs = some (x, ']' :: rest)) :
    readItems? (fuel + 1) cs = some ([x], rest) := by
  rw [readItems?, h]
  rfl

theorem readItems?_of_comma {xs : List Value} (h : readValue? fuel cs = some (x, ',' :: rest))
    (hitems : readItems? fuel rest = some (xs, rest')) :
    readItems? (fuel + 1) cs = some (x :: xs, rest') := by
  rw [readItems?, h]
  change (readItems? fuel rest).bind _ = _
  rw [hitems]
  rfl

/-- After its name, a field is read like the value. -/
theorem readFields?_name (k : String) (fuel : Nat) (cs : List Char) :
    readFields? (fuel + 1) (writeText k ++ ':' :: cs) = (do
      let (x, rest) ← readValue? fuel cs
      match skipSpace rest with
      | ',' :: rest => do
        let (fields, rest) ← readFields? fuel rest
        return ((k, x) :: fields, rest)
      | '\x7d' :: rest => return ([(k, x)], rest)
      | _ => none) := by
  rw [writeText_append]
  change (readText? _).bind _ = _
  rw [readText?_flatMap_escape]
  rfl

theorem readFields?_of_close {k : String} (h : readValue? fuel cs = some (x, '\x7d' :: rest)) :
    readFields? (fuel + 1) (writeText k ++ ':' :: cs) = some ([(k, x)], rest) := by
  rw [readFields?_name, h]
  rfl

theorem readFields?_of_comma {k : String} {fields : List (String × Value)}
    (h : readValue? fuel cs = some (x, ',' :: rest))
    (hfields : readFields? fuel rest = some (fields, rest')) :
    readFields? (fuel + 1) (writeText k ++ ':' :: cs) = some ((k, x) :: fields, rest') := by
  rw [readFields?_name, h]
  change (readFields? fuel rest).bind _ = _
  rw [hfields]
  rfl

/-- The items are read after the bracket unless the list is empty. -/
theorem readValue?_list {c : Char} {items : List Value} (hspace : isSpace c = false) (hc : c ≠ ']')
    (h : readItems? fuel (c :: cs) = some (items, rest)) :
    readValue? (fuel + 1) ('[' :: c :: cs) = some (.list items, rest) := by
  have hskip : skipSpace (c :: cs) = c :: cs := List.dropWhile_cons_of_neg (by simp [hspace])
  have hopen : skipSpace ('[' :: c :: cs) = '[' :: c :: cs := rfl
  rw [readValue?, hopen]
  simp only [hskip]
  split
  · rename_i heq
    exact absurd (List.cons.inj heq).1 hc
  · rw [h]
    rfl

/-- The fields are read after the brace, from the first name on. -/
theorem readValue?_object {fields : List (String × Value)}
    (h : readFields? fuel ('\x22' :: cs) = some (fields, rest)) :
    readValue? (fuel + 1) ('\x7b' :: '\x22' :: cs) = some (.object fields, rest) := by
  change (readFields? fuel ('\x22' :: cs)).bind _ = _
  rw [h]
  rfl

/-- A value is read back in whatever follows that does not continue a number. -/
def ReadsBack (x : Value) : Prop :=
  ∀ {rest fuel}, Numeral.Ends rest → (write x).length ≤ fuel →
    readValue? fuel (write x ++ rest) = some (x, rest)

theorem ends_comma (rest : List Char) : Numeral.Ends (',' :: rest) :=
  (Token.stops_cons (.inl rfl) rest).ends

theorem readItems?_writeItems {items : List Value} (hne : items ≠ [])
    (hitems : ∀ x ∈ items, ReadsBack x) (hfuel : (writeItems items).length < fuel) :
    readItems? fuel (writeItems items ++ ']' :: rest) = some (items, rest) := by
  induction items generalizing fuel with
  | nil => exact absurd rfl hne
  | cons x xs ih =>
    rw [List.forall_mem_cons] at hitems
    obtain ⟨fuel, rfl⟩ := Nat.exists_eq_add_one_of_ne_zero (Nat.ne_zero_of_lt hfuel)
    cases xs with
    | nil =>
      have hends := (Token.stops_cons (.inr (.inl rfl)) rest).ends
      exact readItems?_of_close (hitems.1 hends (Nat.le_of_lt_succ hfuel))
    | cons y ys =>
      rw [writeItems, List.length_append, List.length_cons, List.length_cons] at hfuel
      have hlength : (writeItems (y :: ys)).length < fuel := by omega
      have hrest := ih (List.cons_ne_nil y ys) hitems.2 hlength
      rw [← readItems?_space] at hrest
      rw [writeItems, List.append_assoc]
      exact readItems?_of_comma (hitems.1 (ends_comma _) (by omega)) hrest

theorem readFields?_writeFields {fields : List (String × Value)} (hne : fields ≠ [])
    (hfields : ∀ f ∈ fields, ReadsBack f.2) (hfuel : (writeFields fields).length < fuel) :
    readFields? fuel (writeFields fields ++ '\x7d' :: rest) = some (fields, rest) := by
  induction fields generalizing fuel with
  | nil => exact absurd rfl hne
  | cons field fields ih =>
    obtain ⟨k, x⟩ := field
    rw [List.forall_mem_cons] at hfields
    obtain ⟨fuel, rfl⟩ := Nat.exists_eq_add_one_of_ne_zero (Nat.ne_zero_of_lt hfuel)
    cases fields with
    | nil =>
      rw [writeFields, List.length_append, List.length_cons, List.length_cons] at hfuel
      have hends := (Token.stops_cons (.inr (.inr rfl)) rest).ends
      have hvalue := hfields.1 hends (show (write x).length ≤ fuel by omega)
      rw [← readValue?_space] at hvalue
      rw [writeFields, List.append_assoc]
      exact readFields?_of_close hvalue
    | cons f fields =>
      rw [writeFields, List.length_append, List.length_cons, List.length_cons, List.length_append,
        List.length_cons, List.length_cons] at hfuel
      have hlength : (writeFields (f :: fields)).length < fuel := by omega
      have hrest := ih (List.cons_ne_nil f fields) hfields.2 hlength
      have hvalue := hfields.1 (ends_comma (' ' :: (writeFields (f :: fields) ++ '\x7d' :: rest)))
        (show (write x).length ≤ fuel by omega)
      rw [← readFields?_space] at hrest
      rw [← readValue?_space] at hvalue
      rw [writeFields, List.append_assoc, List.cons_append, List.cons_append, List.append_assoc]
      exact readFields?_of_comma hvalue hrest

end Json

namespace Value

open Json

/-! ### Values -/

/-- An integer. -/
def IsInteger (x : Value) : Prop := ∃ n, x = int n

/-- Data without tuples and doubles. -/
def IsExact (x : Value) : Prop := x.IsData IsInteger fun _ => True

variable {x y : Value} {fuel : Nat} {rest : List Char}

/-- A written value begins neither with a space nor with a bracket that closes a list. -/
theorem IsExact.exists_write_eq_cons (hx : x.IsExact) :
    ∃ (c : Char) (cs : List Char), Json.write x = c :: cs ∧ isSpace c = false ∧ c ≠ ']' := by
  cases hx with
  | number h =>
    obtain ⟨n, rfl⟩ := h
    obtain ⟨c, cs, hcs, hspace, -, -, -, hclose⟩ := exists_toString_eq_cons n
    exact ⟨c, cs, hcs, hspace, hclose⟩
  | bool b => cases b with
    | true => exact ⟨'t', _, rfl, by decide, by decide⟩
    | false => exact ⟨'f', _, rfl, by decide, by decide⟩
  | null => exact ⟨'n', _, rfl, by decide, by decide⟩
  | text s => exact ⟨'\x22', _, rfl, by decide, by decide⟩
  | list => exact ⟨'[', _, rfl, by decide, by decide⟩
  | object => exact ⟨'\x7b', _, rfl, by decide, by decide⟩

theorem exists_writeItems_eq_cons (hx : x.IsExact) (items : List Value) :
    ∃ (c : Char) (cs : List Char), writeItems (x :: items) = c :: cs ∧ isSpace c = false ∧
      c ≠ ']' := by
  obtain ⟨c, cs, hcs, hc⟩ := hx.exists_write_eq_cons
  cases items with
  | nil => exact ⟨c, cs, hcs, hc⟩
  | cons => exact ⟨c, _, by rw [writeItems, hcs, List.cons_append], hc⟩

/-- A written value is read back, and the reader stops behind it. -/
theorem IsExact.readsBack (hx : x.IsExact) : ReadsBack x := by
  induction hx with
  | null =>
    intro rest fuel _ hfuel
    obtain ⟨fuel, rfl⟩ := Nat.exists_eq_add_of_le' (hfuel : 4 ≤ fuel)
    rfl
  | bool b =>
    intro rest fuel _ hfuel
    cases b with
    | true =>
      obtain ⟨fuel, rfl⟩ := Nat.exists_eq_add_of_le' (hfuel : 4 ≤ fuel)
      rfl
    | false =>
      obtain ⟨fuel, rfl⟩ := Nat.exists_eq_add_of_le' (hfuel : 5 ≤ fuel)
      rfl
  | text s =>
    intro rest fuel _ hfuel
    obtain ⟨fuel, rfl⟩ := Nat.exists_eq_add_one_of_ne_zero
      (Nat.ne_zero_of_lt ((Nat.succ_pos _).trans_le hfuel))
    exact readValue?_text s rest
  | number h =>
    intro rest fuel hrest hfuel
    obtain ⟨n, rfl⟩ := h
    obtain ⟨c, cs, hcs, -⟩ := exists_toString_eq_cons n
    have hpos : 0 < fuel := by
      rw [Json.write, hcs] at hfuel
      exact (Nat.succ_pos _).trans_le hfuel
    obtain ⟨fuel, rfl⟩ := Nat.exists_eq_add_one_of_ne_zero hpos.ne'
    exact readValue?_int n hrest
  | @list items hitems ih =>
    intro rest fuel _ hfuel
    rw [Json.write, List.length_append, List.length_cons, List.length_singleton] at hfuel
    obtain ⟨fuel, rfl⟩ := Nat.exists_eq_add_one_of_ne_zero (n := fuel) (by omega)
    cases items with
    | nil => rfl
    | cons x xs =>
      have hread : readItems? fuel (writeItems (x :: xs) ++ ']' :: rest) = some (x :: xs, rest) :=
        readItems?_writeItems (List.cons_ne_nil x xs) ih (Nat.lt_of_succ_lt_succ hfuel)
      obtain ⟨c, cs, hcs, hspace, hclose⟩ :=
        exists_writeItems_eq_cons (hitems x List.mem_cons_self) xs
      rw [Json.write, List.append_assoc, List.singleton_append]
      rw [hcs, List.cons_append] at hread ⊢
      exact readValue?_list hspace hclose hread
  | @object fields _ hfields ih =>
    intro rest fuel _ hfuel
    rw [Json.write, List.length_append, List.length_cons, List.length_singleton] at hfuel
    obtain ⟨fuel, rfl⟩ := Nat.exists_eq_add_one_of_ne_zero (n := fuel) (by omega)
    cases fields with
    | nil => rfl
    | cons f fields =>
      have hread : readFields? fuel (writeFields (f :: fields) ++ '\x7d' :: rest) =
          some (f :: fields, rest) :=
        readFields?_writeFields (List.cons_ne_nil f fields) ih (Nat.lt_of_succ_lt_succ hfuel)
      obtain ⟨cs, hcs⟩ : ∃ cs, writeFields (f :: fields) = '\x22' :: cs := by
        cases fields <;> exact ⟨_, rfl⟩
      rw [Json.write, List.append_assoc, List.singleton_append]
      rw [hcs, List.cons_append] at hread ⊢
      exact readValue?_object hread

/-- A line is read as the data for which it was written. -/
theorem IsExact.parse?_render (hx : x.IsExact) : Json.parse? (Json.render x) = some x := by
  have hread : readValue? (2 * (Json.write x).length + 1) (Json.write x ++ []) = some (x, []) :=
    hx.readsBack (fun _ hc => nomatch hc) (by omega)
  rw [List.append_nil] at hread
  rw [Json.parse?, Json.render, String.toList_ofList]
  simp only [hread]
  rfl

/-- Different data have different lines. -/
theorem IsExact.render_inj (hx : x.IsExact) (hy : y.IsExact)
    (h : Json.render x = Json.render y) : x = y := by
  have hread := hx.parse?_render
  rw [h, hy.parse?_render] at hread
  exact (Option.some.inj hread).symm

end Value

/-! ### Lines -/

namespace Json

/-- A text without control characters, line breaks among them. -/
def IsLine (cs : List Char) : Prop := ∀ c ∈ cs, 0x20 ≤ c.toNat

theorem isLine_append {cs ds : List Char} : IsLine (cs ++ ds) ↔ IsLine cs ∧ IsLine ds :=
  List.forall_mem_append

theorem isLine_cons {c : Char} {cs : List Char} : IsLine (c :: cs) ↔ 0x20 ≤ c.toNat ∧ IsLine cs :=
  List.forall_mem_cons

theorem isLine_nil : IsLine [] := fun _ hc => absurd hc List.not_mem_nil

theorem IsLine.not_mem {c : Char} {cs : List Char} (h : IsLine cs) (hc : c.toNat < 0x20) :
    c ∉ cs := fun hmem => absurd (h c hmem) (not_le.mpr hc)

theorem isLine_hexadecimal {n : Nat} (hn : n < 0x20) : IsLine (Text.hexadecimal 4 n) := by
  interval_cases n <;> exact List.forall_iff_forall_mem.mp (by decide)

/-- Controls are written without controls. -/
theorem isLine_escape (c : Char) : IsLine (escape c) := by
  have hletter : ∀ d ∈ [Text.backslash, Text.doubleQuote, 'n', 'r', 't', 'f', 'b', 'u'],
      0x20 ≤ d.toNat := List.forall_iff_forall_mem.mp (by decide)
  simp only [List.forall_mem_cons] at hletter
  obtain ⟨hbackslash, hquote, hn, hr, ht, hf, hb, hu, -⟩ := hletter
  rw [escape]
  split_ifs with hsyntax _ _ _ _ _ hsmall
  · refine isLine_cons.mpr ⟨hbackslash, isLine_cons.mpr ⟨?_, isLine_nil⟩⟩
    rcases hsyntax with rfl | rfl
    · exact hquote
    · exact hbackslash
  · exact isLine_cons.mpr ⟨hbackslash, isLine_cons.mpr ⟨hn, isLine_nil⟩⟩
  · exact isLine_cons.mpr ⟨hbackslash, isLine_cons.mpr ⟨hr, isLine_nil⟩⟩
  · exact isLine_cons.mpr ⟨hbackslash, isLine_cons.mpr ⟨ht, isLine_nil⟩⟩
  · exact isLine_cons.mpr ⟨hbackslash, isLine_cons.mpr ⟨hf, isLine_nil⟩⟩
  · exact isLine_cons.mpr ⟨hbackslash, isLine_cons.mpr ⟨hb, isLine_nil⟩⟩
  · exact isLine_cons.mpr ⟨hbackslash, isLine_cons.mpr ⟨hu, isLine_hexadecimal hsmall⟩⟩
  · exact isLine_cons.mpr ⟨not_lt.mp hsmall, isLine_nil⟩

theorem isLine_writeText (s : String) : IsLine (writeText s) := by
  rw [writeText, isLine_append, isLine_cons]
  refine ⟨⟨by decide, fun d hd => ?_⟩, isLine_cons.mpr ⟨by decide, isLine_nil⟩⟩
  obtain ⟨c, -, hd⟩ := List.mem_flatMap.mp hd
  exact isLine_escape c d hd

theorem isLine_writeItems {items : List Value} (h : ∀ x ∈ items, IsLine (write x)) :
    IsLine (writeItems items) := by
  induction items with
  | nil => exact isLine_nil
  | cons x xs ih =>
    rw [List.forall_mem_cons] at h
    cases xs with
    | nil => exact h.1
    | cons y ys =>
      rw [writeItems, isLine_append, isLine_cons, isLine_cons]
      exact ⟨h.1, by decide, by decide, ih h.2⟩

theorem isLine_writeFields {fields : List (String × Value)}
    (h : ∀ f ∈ fields, IsLine (write f.2)) : IsLine (writeFields fields) := by
  induction fields with
  | nil => exact isLine_nil
  | cons field fields ih =>
    obtain ⟨k, x⟩ := field
    rw [List.forall_mem_cons] at h
    cases fields with
    | nil =>
      rw [writeFields, isLine_append, isLine_cons, isLine_cons]
      exact ⟨isLine_writeText k, by decide, by decide, h.1⟩
    | cons f fields =>
      rw [writeFields, isLine_append, isLine_cons, isLine_cons, isLine_append, isLine_cons,
        isLine_cons]
      exact ⟨isLine_writeText k, by decide, by decide, h.1, by decide, by decide, ih h.2⟩

end Json

/-- Data are written on one line. -/
theorem Value.IsExact.isLine_write {x : Value} (hx : x.IsExact) : Json.IsLine (Json.write x) := by
  induction hx with
  | null => exact List.forall_iff_forall_mem.mp (by decide)
  | bool b => cases b <;> exact List.forall_iff_forall_mem.mp (by decide)
  | text s => exact Json.isLine_writeText s
  | number h =>
    obtain ⟨n, rfl⟩ := h
    intro c hc
    rcases mem_toString_int hc with rfl | hdigit
    · decide
    · rw [Char.isDigit, Bool.and_eq_true, decide_eq_true_eq] at hdigit
      exact le_trans (by decide) (show 48 ≤ c.toNat from hdigit.1)
  | list _ ih =>
    rw [Json.write, Json.isLine_append, Json.isLine_cons]
    exact ⟨⟨by decide, Json.isLine_writeItems ih⟩,
      Json.isLine_cons.mpr ⟨by decide, Json.isLine_nil⟩⟩
  | object _ _ ih =>
    rw [Json.write, Json.isLine_append, Json.isLine_cons]
    exact ⟨⟨by decide, Json.isLine_writeFields ih⟩,
      Json.isLine_cons.mpr ⟨by decide, Json.isLine_nil⟩⟩

end Determinize
