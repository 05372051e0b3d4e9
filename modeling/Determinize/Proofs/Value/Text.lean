import Determinize.Proofs.Number.Text
import Determinize.Proofs.Text.Quoted
import Determinize.Proofs.Value.Equality
import Determinize.Value.Text

/-!
# Values can be read

The first character of the text of a value tells what kind of value it is. Then the text leaves no
choice where it ends and which value it is: a number ends before a comma or a bracket, a quoted text
ends at its quote, and a tuple, a list or an object at the bracket that closes it, its members
leaving no choice in their turn. So different values of the same type have different texts.

This needs doubles with values that doubles can have (`Value.Representable`): the text of a double
is only as long as it takes to tell it from other doubles.

## Main definitions

* `Value.Representable` — the doubles in a value have representable values.
* `Value.lead`, `Value.leadOf?` — what the first character tells.
* `Value.Readable` — a text leaves no choice.

## Main results

* `Value.readable_quoted` — the texts of values leave no choice.
* `Value.eq_of_quoted_eq`, `Value.eq_of_display_eq` — different values have different texts.
-/

namespace Determinize.Value

/-! ### Representable values -/

mutual

/-- The doubles in a value have representable values. -/
def Representable : Value → Prop
  | real x => x.Representable
  | tuple items => RepresentableItems items
  | list items => RepresentableItems items
  | object fields => RepresentableFields fields
  | null | bool _ | int _ | text _ => True

/-- The doubles in a list of values have representable values. -/
def RepresentableItems : List Value → Prop
  | [] => True
  | x :: xs => Representable x ∧ RepresentableItems xs

/-- The doubles in the values of fields have representable values. -/
def RepresentableFields : List (String × Value) → Prop
  | [] => True
  | (_, x) :: fields => Representable x ∧ RepresentableFields fields

end

theorem representableItems_iff {xs : List Value} :
    RepresentableItems xs ↔ ∀ x ∈ xs, x.Representable := by
  induction xs with
  | nil => exact ⟨fun _ _ hx => absurd hx List.not_mem_nil, fun _ => trivial⟩
  | cons x xs ih => rw [RepresentableItems, List.forall_mem_cons, ih]

theorem representableFields_iff {fields : List (String × Value)} :
    RepresentableFields fields ↔ ∀ f ∈ fields, f.2.Representable := by
  induction fields with
  | nil => exact ⟨fun _ _ hf => absurd hf List.not_mem_nil, fun _ => trivial⟩
  | cons field fields ih => rw [RepresentableFields, List.forall_mem_cons, ih]

mutual

/-- Whether the doubles in a value have representable values. -/
def decRepresentable : (x : Value) → Decidable x.Representable
  | real x => inferInstanceAs (Decidable x.Representable)
  | tuple items => decRepresentableItems items
  | list items => decRepresentableItems items
  | object fields => decRepresentableFields fields
  | null | bool _ | int _ | text _ => isTrue trivial

/-- Whether the doubles in a list of values have representable values. -/
def decRepresentableItems : (xs : List Value) → Decidable (RepresentableItems xs)
  | [] => isTrue trivial
  | x :: xs => @instDecidableAnd _ _ (decRepresentable x) (decRepresentableItems xs)

/-- Whether the doubles in the values of fields have representable values. -/
def decRepresentableFields : (fields : List (String × Value)) →
    Decidable (RepresentableFields fields)
  | [] => isTrue trivial
  | (_, x) :: fields => @instDecidableAnd _ _ (decRepresentable x) (decRepresentableFields fields)

end

instance : DecidablePred Representable := decRepresentable

/-! ### Texts in parts -/

/-- Texts with a comma and a blank between them. -/
def separated (texts : List (List Char)) : List Char := [',', ' '].intercalate texts

/-- What follows the items of a tuple. -/
def tupleEnd (items : List Value) : List Char :=
  match items with
  | [_] => [',', ')']
  | _ => [')']

/-- The text of a field. -/
def fieldText (field : String × Value) : List Char :=
  (Text.quoted field.1).toList ++ ':' :: ' ' :: field.2.quoted.toList

theorem quotedItems_eq_map (xs : List Value) : quotedItems xs = xs.map quoted := by
  induction xs with
  | nil => rfl
  | cons x xs ih => rw [quotedItems, ih, List.map_cons]

theorem map_toList_quotedFields (fields : List (String × Value)) :
    (quotedFields fields).map String.toList = fields.map fieldText := by
  induction fields with
  | nil => rfl
  | cons field fields ih =>
    rw [quotedFields, List.map_cons, ih, List.map_cons, String.toList_append,
      String.toList_append, List.append_assoc]
    rfl

theorem toList_intercalate_quotedItems (xs : List Value) :
    (", ".intercalate (quotedItems xs)).toList = separated (xs.map (·.quoted.toList)) := by
  rw [String.toList_intercalate, quotedItems_eq_map, List.map_map]
  rfl

theorem toList_quoted_tuple (items : List Value) :
    (tuple items).quoted.toList =
      '(' :: (separated (items.map (·.quoted.toList)) ++ tupleEnd items) := by
  match items with
  | [] => rfl
  | [x] =>
    simp only [quoted, String.toList_append]
    simp [separated, tupleEnd]
  | x :: y :: items =>
    simp only [quoted, String.toList_append, toList_intercalate_quotedItems]
    rfl

theorem toList_quoted_list (items : List Value) :
    (list items).quoted.toList = '[' :: (separated (items.map (·.quoted.toList)) ++ [']']) := by
  simp only [quoted, String.toList_append, toList_intercalate_quotedItems]
  rfl

theorem toList_quoted_object (fields : List (String × Value)) :
    (object fields).quoted.toList = '\x7b' :: (separated (fields.map fieldText) ++ ['\x7d']) := by
  simp only [quoted, String.toList_append, String.toList_intercalate, map_toList_quotedFields]
  rfl

/-! ### The first character -/

/-- What the first character of the text of a value tells about the value. -/
inductive Lead
  | null
  | bool
  | number
  | text
  | tuple
  | list
  | object
  deriving DecidableEq

/-- What the first character of a text tells, if a value can begin with it. -/
def leadOf? (c : Char) : Option Lead :=
  if c = 'N' then some .null
  else if c = 'T' ∨ c = 'F' then some .bool
  else if c = '-' ∨ c.isDigit = true ∨ c = 'i' then some .number
  else if c = Text.singleQuote ∨ c = Text.doubleQuote then some .text
  else if c = '(' then some .tuple
  else if c = '[' then some .list
  else if c = '\x7b' then some .object
  else none

/-- What the first character of the text of a value should tell. -/
def lead : Value → Lead
  | null => .null
  | bool _ => .bool
  | int _ | real _ => .number
  | text _ => .text
  | tuple _ => .tuple
  | list _ => .list
  | object _ => .object

theorem leadOf?_eq_number {c : Char} (h : c = '-' ∨ c.isDigit = true ∨ c = 'i') :
    leadOf? c = some .number := by
  have hne (d : Char) (hd : ¬ (d = '-' ∨ d.isDigit = true ∨ d = 'i')) : c ≠ d := by
    rintro rfl
    exact hd h
  rw [leadOf?, if_neg (hne 'N' (by decide)),
    if_neg (not_or.mpr ⟨hne 'T' (by decide), hne 'F' (by decide)⟩), if_pos h]

theorem exists_head?_of_readsAs {cs : List Char} {negative : Bool} {n : Option Numeral}
    (h : ReadsAs cs negative n) : ∃ c ∈ cs.head?, leadOf? c = some .number := by
  obtain ⟨body, rfl, ⟨c, hc, hfirst⟩, -⟩ := h
  cases negative with
  | true => exact ⟨'-', rfl, rfl⟩
  | false => exact ⟨c, hc, leadOf?_eq_number (.inr hfirst)⟩

theorem exists_head?_quotedText (s : String) :
    ∃ c ∈ (Text.quoted s).toList.head?, leadOf? c = some .text := by
  refine ⟨Text.quoteFor s.toList, by simp [Text.quoted, Text.quoteChars], ?_⟩
  rcases Text.isQuote_quoteFor s.toList with h | h <;> rw [h] <;> rfl

/-- The first character of the text of a value tells what kind of value it is. -/
theorem exists_head?_quoted (x : Value) (hx : x.Representable) :
    ∃ c ∈ x.quoted.toList.head?, leadOf? c = some x.lead := by
  cases x with
  | null => exact ⟨'N', rfl, rfl⟩
  | bool b => cases b <;> exact ⟨_, rfl, rfl⟩
  | int n => exact exists_head?_of_readsAs (readsAs_int n)
  | real x =>
    obtain ⟨n, hn, -⟩ := Double.exists_readsAs hx
    exact exists_head?_of_readsAs hn
  | text s => exact exists_head?_quotedText s
  | tuple items =>
    rw [toList_quoted_tuple]
    exact ⟨_, rfl, rfl⟩
  | list items =>
    rw [toList_quoted_list]
    exact ⟨_, rfl, rfl⟩
  | object fields =>
    rw [toList_quoted_object]
    exact ⟨_, rfl, rfl⟩

/-! ### What follows the text of a value -/

/-- A text stops the text of a value: nothing follows, or a comma or a closing bracket. -/
def Stops (rest : List Char) : Prop :=
  ∀ c ∈ rest.head?, c = ',' ∨ c = ')' ∨ c = ']' ∨ c = '\x7d'

theorem Stops.ends {rest : List Char} (h : Stops rest) : Numeral.Ends rest := by
  intro c hc
  rcases h c hc with rfl | rfl | rfl | rfl <;> decide

/-! ### Unique readability -/

/-- A text leaves no choice where it ends and of which thing it is the text. -/
def Readable {α : Type} (text : α → List Char) (x y : α) : Prop :=
  ∀ rest rest', Stops rest → Stops rest' → text x ++ rest = text y ++ rest' → x = y ∧ rest = rest'

theorem Readable.symm {α : Type} {text : α → List Char} {x y : α} (h : Readable text x y) :
    Readable text y x := fun rest rest' hrest hrest' heq =>
  (h rest' rest hrest' hrest heq.symm).imp Eq.symm Eq.symm

/-- A first text, and the others after a comma and a blank. -/
theorem separated_cons_append (t : List Char) (ts : List (List Char)) (rest : List Char) :
    separated (t :: ts) ++ rest =
      t ++ if ts.isEmpty then rest else ',' :: ' ' :: (separated ts ++ rest) := by
  cases ts with
  | nil => simp [separated]
  | cons u ts => simp [separated, List.intercalate_cons_cons]

theorem mem_separated {texts : List (List Char)} {c : Char} (hc : c ∈ separated texts) :
    c = ',' ∨ c = ' ' ∨ ∃ t ∈ texts, c ∈ t := by
  induction texts with
  | nil => cases hc
  | cons t texts ih =>
    rw [← List.append_nil (separated _), separated_cons_append, List.mem_append] at hc
    rcases hc with hc | hc
    · exact .inr (.inr ⟨t, List.mem_cons_self, hc⟩)
    · split at hc
      · cases hc
      · rw [List.append_nil, List.mem_cons, List.mem_cons] at hc
        rcases hc with hc | hc | hc
        · exact .inl hc
        · exact .inr (.inl hc)
        · exact (ih hc).imp_right fun h => h.imp_right fun ⟨u, hu, hcu⟩ =>
            ⟨u, List.mem_cons_of_mem t hu, hcu⟩

/-- A character closes a tuple, a list or an object. -/
def Closes (c : Char) : Prop := c = ')' ∨ c = ']' ∨ c = '\x7d'

theorem Closes.leadOf? {c : Char} (h : Closes c) : leadOf? c = none := by
  rcases h with rfl | rfl | rfl <;> decide

theorem Closes.ne_comma {c : Char} (h : Closes c) : c ≠ ',' := by
  rcases h with rfl | rfl | rfl <;> decide

/-- A text begins like the text of a value. -/
def Leads (cs : List Char) : Prop := ∃ c ∈ cs.head?, (leadOf? c).isSome

/-- What begins like the text of a value does not begin with a closing character. -/
theorem Leads.append_ne {cs rest rest' : List Char} {close : Char} (h : Leads cs)
    (hclose : Closes close) : cs ++ rest ≠ close :: rest' := by
  obtain ⟨c, hc, hlead⟩ := h
  obtain ⟨tail, rfl⟩ := List.head?_eq_some_iff.mp hc
  intro heq
  rw [(List.cons.inj heq).1, hclose.leadOf?] at hlead
  cases hlead

theorem leads_quoted {x : Value} (hx : x.Representable) : Leads x.quoted.toList := by
  obtain ⟨c, hc, hlead⟩ := exists_head?_quoted x hx
  exact ⟨c, hc, by rw [hlead, Option.isSome_some]⟩

theorem leads_fieldText (field : String × Value) : Leads (fieldText field) := by
  obtain ⟨c, hc, hlead⟩ := exists_head?_quotedText field.1
  refine ⟨c, ?_, by rw [hlead, Option.isSome_some]⟩
  obtain ⟨tail, htail⟩ := List.head?_eq_some_iff.mp hc
  rw [fieldText, htail]
  rfl

section Separated

variable {α : Type} {text : α → List Char} {close : Char} {xs ys : List α} {rest rest' : List Char}

theorem stops_separated (hclose : Closes close) (ts : List (List Char)) (rest : List Char) : Stops
    (if ts.isEmpty then close :: rest else ',' :: ' ' :: (separated ts ++ close :: rest)) := by
  intro c hc
  split at hc
  · obtain rfl := Option.some.inj hc
    exact .inr hclose
  · obtain rfl := Option.some.inj hc
    exact .inl rfl

/-- Separated texts leave no choice up to the character that closes them. -/
theorem separated_append_inj (hclose : Closes close) (hxs : ∀ x ∈ xs, Leads (text x))
    (hys : ∀ y ∈ ys, Leads (text y)) (hread : ∀ x ∈ xs, ∀ y ∈ ys, Readable text x y)
    (h : separated (xs.map text) ++ close :: rest = separated (ys.map text) ++ close :: rest') :
    xs = ys ∧ rest = rest' := by
  induction xs generalizing ys with
  | nil =>
    cases ys with
    | nil => exact ⟨rfl, (List.cons.inj h).2⟩
    | cons y ys =>
      rw [List.map_cons, separated_cons_append] at h
      exact absurd h.symm ((hys y List.mem_cons_self).append_ne hclose)
  | cons x xs ih =>
    cases ys with
    | nil =>
      rw [List.map_cons, separated_cons_append] at h
      exact absurd h ((hxs x List.mem_cons_self).append_ne hclose)
    | cons y ys =>
      rw [List.map_cons, List.map_cons, separated_cons_append, separated_cons_append] at h
      obtain ⟨rfl, htail⟩ := hread x List.mem_cons_self y List.mem_cons_self _ _
        (stops_separated hclose _ _) (stops_separated hclose _ _) h
      cases xs with
      | nil =>
        cases ys with
        | nil => exact ⟨rfl, (List.cons.inj htail).2⟩
        | cons => exact absurd (List.cons.inj htail).1 hclose.ne_comma
      | cons x' xs =>
        cases ys with
        | nil => exact absurd (List.cons.inj htail).1.symm hclose.ne_comma
        | cons y' ys =>
          obtain ⟨hsame, hrest⟩ := ih (fun x hx => hxs x (List.mem_cons_of_mem _ hx))
            (fun y hy => hys y (List.mem_cons_of_mem _ hy))
            (fun x hx y hy => hread x (List.mem_cons_of_mem _ hx) y (List.mem_cons_of_mem _ hy))
            (List.cons.inj (List.cons.inj htail).2).2
          exact ⟨hsame ▸ rfl, hrest⟩

/-- A single item with a comma after it is not the text of other than one item. -/
theorem single_append_ne {x : α} (hclose : Closes close) (hread : ∀ y ∈ ys, Readable text x y)
    (hx : Leads (text x)) (hys : ys.length ≠ 1) :
    text x ++ ',' :: close :: rest ≠ separated (ys.map text) ++ close :: rest' := by
  intro h
  match ys with
  | [] => exact hx.append_ne hclose h
  | [_] => exact hys rfl
  | y :: y' :: ys =>
    rw [List.map_cons, separated_cons_append] at h
    have hcomma : Stops (',' :: close :: rest) := fun c hc => .inl (Option.some.inj hc).symm
    obtain ⟨-, htail⟩ := hread y List.mem_cons_self _ _ hcomma (stops_separated hclose _ _) h
    have hblank : close = ' ' := (List.cons.inj (List.cons.inj htail).2).1
    rw [hblank] at hclose
    rcases hclose with h | h | h <;> cases h

end Separated

/-! ### Items and fields -/

theorem toList_quoted_tuple_singleton (x : Value) (rest : List Char) :
    (tuple [x]).quoted.toList ++ rest = '(' :: (x.quoted.toList ++ ',' :: ')' :: rest) := by
  simp [toList_quoted_tuple, separated, tupleEnd]

theorem toList_quoted_tuple_of_ne {items : List Value} (h : items.length ≠ 1) (rest : List Char) :
    (tuple items).quoted.toList ++ rest =
      '(' :: (separated (items.map (·.quoted.toList)) ++ ')' :: rest) := by
  have hend : tupleEnd items = [')'] := by
    match items with
    | [] => rfl
    | [_] => exact absurd rfl h
    | _ :: _ :: _ => rfl
  rw [toList_quoted_tuple, hend, List.cons_append, List.append_assoc, List.singleton_append]

/-- The items of tuples leave no choice up to the end of the tuple. -/
theorem tuple_append_inj {xs ys : List Value} {rest rest' : List Char}
    (hxs : ∀ x ∈ xs, x.Representable) (hys : ∀ y ∈ ys, y.Representable)
    (hread : ∀ x ∈ xs, ∀ y ∈ ys, Readable (·.quoted.toList) x y)
    (h : (tuple xs).quoted.toList ++ rest = (tuple ys).quoted.toList ++ rest') :
    xs = ys ∧ rest = rest' := by
  have hclose : Closes ')' := .inl rfl
  have hcomma (rest : List Char) : Stops (',' :: ')' :: rest) := fun c hc =>
    .inl (Option.some.inj hc).symm
  rcases eq_or_ne xs.length 1 with hx | hx <;> rcases eq_or_ne ys.length 1 with hy | hy
  · obtain ⟨x, rfl⟩ := List.length_eq_one_iff.mp hx
    obtain ⟨y, rfl⟩ := List.length_eq_one_iff.mp hy
    rw [toList_quoted_tuple_singleton, toList_quoted_tuple_singleton] at h
    obtain ⟨rfl, hrest⟩ := hread x List.mem_cons_self y List.mem_cons_self _ _ (hcomma _)
      (hcomma _) (List.cons.inj h).2
    exact ⟨rfl, (List.cons.inj (List.cons.inj hrest).2).2⟩
  · obtain ⟨x, rfl⟩ := List.length_eq_one_iff.mp hx
    rw [toList_quoted_tuple_singleton, toList_quoted_tuple_of_ne hy] at h
    exact absurd (List.cons.inj h).2 (single_append_ne hclose
      (hread x List.mem_cons_self) (leads_quoted (hxs x List.mem_cons_self)) hy)
  · obtain ⟨y, rfl⟩ := List.length_eq_one_iff.mp hy
    rw [toList_quoted_tuple_singleton, toList_quoted_tuple_of_ne hx] at h
    exact absurd (List.cons.inj h).2.symm (single_append_ne hclose
      (fun x hmem => (hread x hmem y List.mem_cons_self).symm)
      (leads_quoted (hys y List.mem_cons_self)) hx)
  · rw [toList_quoted_tuple_of_ne hx, toList_quoted_tuple_of_ne hy] at h
    exact separated_append_inj hclose (fun x hmem => leads_quoted (hxs x hmem))
      (fun y hmem => leads_quoted (hys y hmem)) hread (List.cons.inj h).2

/-- A field leaves no choice where it ends and which field it is. -/
theorem readable_fieldText {f g : String × Value} (hread : Readable (·.quoted.toList) f.2 g.2) :
    Readable fieldText f g := by
  intro rest rest' hrest hrest' h
  rw [fieldText, fieldText, List.append_assoc, List.append_assoc] at h
  obtain ⟨hkey, hvalue⟩ := Text.quoted_append_inj h
  obtain ⟨hsame, hrest⟩ := hread rest rest' hrest hrest'
    (List.cons.inj (List.cons.inj hvalue).2).2
  exact ⟨Prod.ext hkey hsame, hrest⟩

/-! ### Numbers and texts -/

theorem readable_int_int (a b : Int) : Readable (·.quoted.toList) (int a) (int b) := by
  intro rest rest' hrest hrest' h
  obtain ⟨hnegative, hdigits, hsame⟩ := (readsAs_int a).unique (readsAs_int b) hrest.ends
    hrest'.ends h
  have habs : a.natAbs = b.natAbs := congrArg Numeral.digits (Option.some.inj hdigits)
  have hsign : a < 0 ↔ b < 0 := decide_eq_decide.mp hnegative
  exact ⟨congrArg int (by omega), hsame⟩

theorem readable_real_real {a b : Double} (ha : a.Representable) (hb : b.Representable) :
    Readable (·.quoted.toList) (real a) (real b) := by
  intro rest rest' hrest hrest' h
  obtain ⟨rfl, hsame⟩ := Double.text_append_inj ha hb hrest.ends hrest'.ends h
  exact ⟨rfl, hsame⟩

/-- The text of an integer has neither a point nor an exponent, and that of a double has one. -/
theorem int_quoted_append_ne {a : Int} {b : Double} (hb : b.Representable) {rest rest' : List Char}
    (hrest : Stops rest) (hrest' : Stops rest') :
    (int a).quoted.toList ++ rest ≠ (real b).quoted.toList ++ rest' := by
  intro h
  obtain ⟨n, hn, hsize⟩ := Double.exists_readsAs hb
  obtain ⟨-, rfl, -⟩ := (readsAs_int a).unique hn hrest.ends hrest'.ends h
  cases hb : b.size? with
  | none =>
    rw [hb] at hsize
    cases hsize
  | some r =>
    rw [hb, Option.rel_some_some] at hsize
    exact Bool.noConfusion hsize.1

theorem readable_text_text (s t : String) : Readable (·.quoted.toList) (text s) (text t) := by
  intro rest rest' _ _ h
  obtain ⟨rfl, hsame⟩ := Text.quoted_append_inj h
  exact ⟨rfl, hsame⟩

/-- The text of a value leaves no choice where it ends and which value it is. -/
theorem readable_quoted (x y : Value) (hx : x.Representable) (hy : y.Representable) :
    Readable (·.quoted.toList) x y := by
  induction x using memberInduction generalizing y with
  | step x ih =>
    intro rest rest' hrest hrest' h
    dsimp only at h
    have hlead : x.lead = y.lead := by
      obtain ⟨c, hc, hxc⟩ := exists_head?_quoted x hx
      obtain ⟨d, hd, hyd⟩ := exists_head?_quoted y hy
      obtain ⟨cs, hcs⟩ := List.head?_eq_some_iff.mp hc
      obtain ⟨ds, hds⟩ := List.head?_eq_some_iff.mp hd
      rw [hcs, hds] at h
      rw [(List.cons.inj h).1, hyd] at hxc
      exact (Option.some.inj hxc).symm
    cases x <;> cases y <;> simp only [lead, reduceCtorEq] at hlead
    case null.null => exact ⟨rfl, List.append_cancel_left h⟩
    case bool.bool a b =>
      cases a <;> cases b
      · exact ⟨rfl, List.append_cancel_left h⟩
      · cases h
      · cases h
      · exact ⟨rfl, List.append_cancel_left h⟩
    case int.int => exact readable_int_int _ _ rest rest' hrest hrest' h
    case int.real => exact absurd h (int_quoted_append_ne hy hrest hrest')
    case real.int => exact absurd h.symm (int_quoted_append_ne hx hrest' hrest)
    case real.real => exact readable_real_real hx hy rest rest' hrest hrest' h
    case text.text => exact readable_text_text _ _ rest rest' hrest hrest' h
    case tuple.tuple items items' =>
      rw [Representable, representableItems_iff] at hx hy
      obtain ⟨rfl, hsame⟩ := tuple_append_inj hx hy
        (fun x hmem y hmem' => ih x hmem y (hx x hmem) (hy y hmem')) h
      exact ⟨rfl, hsame⟩
    case list.list items items' =>
      rw [toList_quoted_list, toList_quoted_list, List.cons_append, List.cons_append,
        List.append_assoc, List.append_assoc] at h
      rw [Representable, representableItems_iff] at hx hy
      obtain ⟨rfl, hsame⟩ := separated_append_inj (.inr (.inl rfl))
        (fun x hmem => leads_quoted (hx x hmem)) (fun y hmem => leads_quoted (hy y hmem))
        (fun x hmem y hmem' => ih x hmem y (hx x hmem) (hy y hmem')) (List.cons.inj h).2
      exact ⟨rfl, hsame⟩
    case object.object fields fields' =>
      rw [toList_quoted_object, toList_quoted_object, List.cons_append, List.cons_append,
        List.append_assoc, List.append_assoc] at h
      rw [Representable, representableFields_iff] at hx hy
      obtain ⟨rfl, hsame⟩ := separated_append_inj (.inr (.inr rfl))
        (fun f _ => leads_fieldText f) (fun f _ => leads_fieldText f)
        (fun f hmem g hmem' => readable_fieldText
          (ih f.2 (List.mem_map_of_mem hmem) g.2 (hx f hmem) (hy g hmem'))) (List.cons.inj h).2
      exact ⟨rfl, hsame⟩

/-- Values with the same text between quotes are the same. -/
theorem eq_of_quoted_eq {x y : Value} (hx : x.Representable) (hy : y.Representable)
    (h : x.quoted = y.quoted) : x = y := by
  have hstops : Stops [] := fun _ hc => nomatch hc
  exact (readable_quoted x y hx hy [] [] hstops hstops (by dsimp only; rw [h])).1

/-- Values of the same type with the same text are the same. -/
theorem eq_of_display_eq {x y : Value} (hx : x.Representable) (hy : y.Representable)
    (htype : x.typeName = y.typeName) (h : x.display = y.display) : x = y := by
  cases x with
  | text s =>
    cases y <;> simp only [typeName, String.reduceEq] at htype
    exact congrArg text h
  | _ =>
    cases y <;> simp only [typeName, String.reduceEq] at htype
    all_goals exact eq_of_quoted_eq hx hy h

end Determinize.Value
