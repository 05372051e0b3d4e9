import Determinize.Text.Quoted
import Mathlib.Algebra.Order.Ring.Nat
import Mathlib.Data.List.Basic
import Mathlib.Tactic.SplitIfs

/-!
# Quoted texts can be read

Between quotes, every character is written so that it can be read back without looking further: what
begins with a backslash says by its next character how long it is. The closing quote is the first
one that is not part of a character. So a quoted text leaves no choice where it ends and which text
it is.

## Main definitions

* `Text.unescape` — the character that is written at the start of a text, and the rest.

## Main results

* `Text.unescape_escape` — characters are read back.
* `Text.quoted_append_inj` — quoted texts leave no choice.
-/

namespace Determinize.Text

/-! ### Hexadecimal numbers -/

/-- The value of a hexadecimal digit. -/
def hexDigit (c : Char) : Nat :=
  if c.isDigit then c.toNat - '0'.toNat else c.toNat - 'a'.toNat + 10

/-- The number with the given hexadecimal digits. -/
def ofHexadecimal (digits : List Char) : Nat :=
  digits.foldl (fun n c => 16 * n + hexDigit c) 0

theorem hexDigit_digitChar {n : Nat} (h : n < 16) : hexDigit n.digitChar = n := by
  revert n
  decide

theorem ofHexadecimal_append_singleton (digits : List Char) (c : Char) :
    ofHexadecimal (digits ++ [c]) = 16 * ofHexadecimal digits + hexDigit c :=
  List.foldl_append ..

theorem ofHexadecimal_toDigits (n : Nat) : ofHexadecimal (Nat.toDigits 16 n) = n := by
  induction n using Nat.strongRecOn with
  | ind n ih =>
    rcases Nat.lt_or_ge n 16 with hlt | hge
    · rw [Nat.toDigits_of_lt_base hlt]
      exact (Nat.zero_add _).trans (hexDigit_digitChar hlt)
    · rw [Nat.toDigits_of_base_le (by decide) hge, ofHexadecimal_append_singleton,
        ih (n / 16) (by omega), hexDigit_digitChar (by omega)]
      omega

theorem ofHexadecimal_hexadecimal (width n : Nat) : ofHexadecimal (hexadecimal width n) = n := by
  have hzeros (k : Nat) : (List.replicate k '0').foldl (fun n c => 16 * n + hexDigit c) 0 = 0 := by
    induction k with
    | zero => rfl
    | succ k ih => exact ih
  rw [hexadecimal, ofHexadecimal, List.foldl_append, hzeros]
  exact ofHexadecimal_toDigits n

theorem length_hexadecimal {width n : Nat} (hpos : 0 < width) (h : n < 16 ^ width) :
    (hexadecimal width n).length = width := by
  have hlength := (Nat.length_toDigits_le_iff (by decide) hpos).mpr h
  rw [hexadecimal, List.length_append, List.length_replicate]
  omega

/-! ### Escaped characters -/

/-- The character whose number has the given number of hexadecimal digits, and the rest. -/
def readHexadecimal (width : Nat) (cs : List Char) : Option (Char × List Char) :=
  some (Char.ofNat (ofHexadecimal (cs.take width)), cs.drop width)

/-- The character that is written after a backslash, and the rest. -/
def readEscaped : List Char → Option (Char × List Char)
  | [] => none
  | 'n' :: cs => some ('\n', cs)
  | 'r' :: cs => some ('\r', cs)
  | 't' :: cs => some ('\t', cs)
  | 'x' :: cs => readHexadecimal 2 cs
  | 'u' :: cs => readHexadecimal 4 cs
  | 'U' :: cs => readHexadecimal 8 cs
  | c :: cs => some (c, cs)

/-- The character that is written at the start of a text, and the rest. -/
def unescape : List Char → Option (Char × List Char)
  | [] => none
  | c :: cs => if c = backslash then readEscaped cs else some (c, cs)

theorem readHexadecimal_hexadecimal {width : Nat} {c : Char} (hpos : 0 < width)
    (h : c.toNat < 16 ^ width) (rest : List Char) :
    readHexadecimal width (hexadecimal width c.toNat ++ rest) = some (c, rest) := by
  have hlength := length_hexadecimal hpos h
  rw [readHexadecimal, List.take_left' hlength, List.drop_left' hlength, ofHexadecimal_hexadecimal,
    Char.ofNat_toNat]

/-- A quote is one of the two that enclose texts. -/
def IsQuote (quote : Char) : Prop := quote = singleQuote ∨ quote = doubleQuote

theorem isQuote_quoteFor (cs : List Char) : IsQuote (quoteFor cs) := by
  rw [quoteFor]
  split
  · exact .inr rfl
  · exact .inl rfl

/-- An escaped character is read back, whatever follows. -/
theorem unescape_escape {quote : Char} (hquote : IsQuote quote) (c : Char) (rest : List Char) :
    unescape (escape quote c ++ rest) = some (c, rest) := by
  rw [escape]
  split_ifs with hescaped hline hreturn htab hprintable hbyte hshort
  · rcases hescaped with rfl | rfl
    · rcases hquote with rfl | rfl <;> rfl
    · rfl
  · rw [hline]
    rfl
  · rw [hreturn]
    rfl
  · rw [htab]
    rfl
  · exact if_neg fun h => hescaped (.inr h)
  · exact readHexadecimal_hexadecimal (by decide) (by omega) rest
  · exact readHexadecimal_hexadecimal (by decide) (by omega) rest
  · exact readHexadecimal_hexadecimal (by decide) c.val.toNat_lt rest

/-- An escaped character does not begin with the quote. -/
theorem exists_escape_eq_cons {quote : Char} (hquote : IsQuote quote) (c : Char) :
    ∃ d ds, escape quote c = d :: ds ∧ d ≠ quote := by
  have hbackslash : backslash ≠ quote := by rcases hquote with rfl | rfl <;> decide
  rw [escape]
  split_ifs with hescaped
  · exact ⟨_, _, rfl, hbackslash⟩
  · exact ⟨_, _, rfl, hbackslash⟩
  · exact ⟨_, _, rfl, hbackslash⟩
  · exact ⟨_, _, rfl, hbackslash⟩
  · exact ⟨_, _, rfl, fun h => hescaped (.inl h)⟩
  all_goals exact ⟨_, _, rfl, hbackslash⟩

/-! ### Quoted texts -/

/-- The characters between quotes and what follows them are determined. -/
theorem flatMap_escape_inj {quote : Char} (hquote : IsQuote quote) {cs cs' rest rest' : List Char}
    (h : cs.flatMap (escape quote) ++ quote :: rest =
      cs'.flatMap (escape quote) ++ quote :: rest') :
    cs = cs' ∧ rest = rest' := by
  induction cs generalizing cs' with
  | nil =>
    cases cs' with
    | nil => exact ⟨rfl, (List.cons.inj h).2⟩
    | cons c' cs' =>
      obtain ⟨d, ds, hd, hne⟩ := exists_escape_eq_cons hquote c'
      rw [List.flatMap_cons, hd] at h
      exact absurd (List.cons.inj h).1.symm hne
  | cons c cs ih =>
    cases cs' with
    | nil =>
      obtain ⟨d, ds, hd, hne⟩ := exists_escape_eq_cons hquote c
      rw [List.flatMap_cons, hd] at h
      exact absurd (List.cons.inj h).1 hne
    | cons c' cs' =>
      rw [List.flatMap_cons, List.flatMap_cons, List.append_assoc, List.append_assoc] at h
      have hread := congrArg unescape h
      rw [unescape_escape hquote, unescape_escape hquote] at hread
      injection hread with hread
      injection hread with hc hcs
      obtain ⟨rfl, hrest⟩ := ih hcs
      exact ⟨hc ▸ rfl, hrest⟩

/-- A quoted text leaves no choice where it ends and which text it is. -/
theorem quoted_append_inj {s t : String} {rest rest' : List Char}
    (h : (quoted s).toList ++ rest = (quoted t).toList ++ rest') : s = t ∧ rest = rest' := by
  simp only [quoted, String.toList_ofList, quoteChars, List.cons_append, List.append_assoc,
    List.nil_append] at h
  injection h with hquote h
  rw [← hquote] at h
  obtain ⟨hst, hrest⟩ := flatMap_escape_inj (isQuote_quoteFor _) h
  exact ⟨String.toList_inj.mp hst, hrest⟩

end Determinize.Text
