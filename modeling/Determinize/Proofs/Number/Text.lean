import Determinize.Number.Numeral
import Determinize.Proofs.Number.Shortest

/-!
# Texts of numbers can be read

The text of an integer has digits, the text of a double has digits with a point or an exponent, or
is `inf`, and a sign can stand before these. The reader of numerals stops where such a text ends,
whatever follows that does not continue a numeral, and finds the number: a double from whose digits
the double is nearest. So the text of a number leaves no choice where it ends and which number it
is.

## Main definitions

* `Numeral.Ends` — what does not continue a numeral.
* `IsNumeral` — digits with a point or an exponent, and their value.
* `ReadsAs` — a text with a sign, and what it reads as.

## Main results

* `isNumeral_render` — the layout of the digits of a double keeps their value.
* `ReadsAs.unique` — texts that are read leave no choice.
* `readsAs_int`, `Double.exists_readsAs`, `Double.text_append_inj` — texts of numbers are read.
-/

namespace Determinize

namespace Numeral

variable {digits fraction rest : List Char}

/-! ### Parts of a numeral -/

theorem asciiDigit?_of_isDigit {c : Char} (h : c.isDigit = true) :
    asciiDigit? c = some (c.toNat - '0'.toNat) := by
  simp only [Char.isDigit, Bool.and_eq_true, decide_eq_true_eq] at h
  exact if_pos h

theorem takeDigits_append (hdigits : ∀ c ∈ digits, c.isDigit = true)
    (hrest : ∀ c ∈ rest.head?, asciiDigit? c = none) :
    takeDigits (digits ++ rest) = (digits.map fun c => c.toNat - '0'.toNat, rest) := by
  induction digits with
  | nil =>
    cases rest with
    | nil => rfl
    | cons c rest => simp only [List.nil_append, takeDigits, hrest c rfl, List.map_nil]
  | cons c digits ih =>
    rw [List.forall_mem_cons] at hdigits
    simp only [List.cons_append, takeDigits, asciiDigit?_of_isDigit hdigits.1, ih hdigits.2,
      List.map_cons]

theorem ofDigits_map (digits : List Char) :
    ofDigits (digits.map fun c => c.toNat - '0'.toNat) = Nat.ofDigitChars 10 digits 0 := by
  rw [ofDigits, List.foldl_map, Nat.ofDigitChars_eq_foldl]

/-- The fraction with the given digits, after a point unless there are none. -/
def fractionText (digits : List Char) : List Char :=
  if digits.isEmpty then [] else '.' :: digits

theorem takeFraction_append (hdigits : ∀ c ∈ digits, c.isDigit = true)
    (hrest : ∀ c ∈ rest.head?, asciiDigit? c = none ∧ c ≠ '.') :
    takeFraction (fractionText digits ++ rest) =
      (digits.map fun c => c.toNat - '0'.toNat, rest) := by
  cases digits with
  | nil =>
    cases rest with
    | nil => rfl
    | cons c rest =>
      have hpoint : c ≠ '.' := (hrest c rfl).2
      simp only [fractionText, List.isEmpty_nil, if_true, List.nil_append, List.map_nil]
      rw [takeFraction]
      intro cs h
      injection h with h
      exact absurd h hpoint
  | cons c digits =>
    have htake := takeDigits_append hdigits fun c hc => (hrest c hc).1
    simp only [List.cons_append, List.map_cons] at htake
    simp only [fractionText, List.isEmpty_cons, Bool.false_eq_true, if_false, List.cons_append,
      takeFraction, htake, List.map_cons]

/-- The digits of an exponent, with the zeros before them. -/
def exponentDigits (style : NumeralStyle) (e : Int) : List Char :=
  List.replicate (style.exponentWidth - (Nat.toDigits 10 e.natAbs).length) '0' ++
    Nat.toDigits 10 e.natAbs

theorem toList_renderExponent (style : NumeralStyle) (e : Int) :
    (style.renderExponent e).toList =
      'e' :: (if e < 0 then '-' else '+') :: exponentDigits style e := by
  have hdigits : (toString e.natAbs).toList = Nat.toDigits 10 e.natAbs := Nat.toList_repr
  rw [NumeralStyle.renderExponent, exponentDigits]
  simp only [String.toList_append, hdigits, ← String.length_toList, String.toList_ofList]
  split <;> rfl

theorem isDigit_toDigits (n : Nat) : ∀ c ∈ Nat.toDigits 10 n, c.isDigit = true :=
  fun _ => Nat.isDigit_of_mem_toDigits (by norm_num) le_rfl

theorem isDigit_replicate (n : Nat) : ∀ c ∈ List.replicate n '0', c.isDigit = true :=
  fun _ hc => List.eq_of_mem_replicate hc ▸ rfl

/-- The exponent with the given value, if there is one. -/
def exponentText (style : NumeralStyle) : Option Int → List Char
  | none => []
  | some e => (style.renderExponent e).toList

theorem takeExponent_append (style : NumeralStyle) (e : Option Int)
    (hrest : ∀ c ∈ rest.head?, asciiDigit? c = none ∧ c ≠ 'e' ∧ c ≠ 'E') :
    takeExponent (exponentText style e ++ rest) = (e, rest) := by
  cases e with
  | none =>
    cases rest with
    | nil => rfl
    | cons c rest =>
      have hc : ¬ (c = 'e' ∨ c = 'E') := not_or.mpr (hrest c rfl).2
      simp only [exponentText, List.nil_append, takeExponent, if_neg hc]
  | some e =>
    have htake : takeDigits (exponentDigits style e ++ rest) = _ :=
      takeDigits_append
        (List.forall_mem_append.mpr ⟨isDigit_replicate _, isDigit_toDigits _⟩)
        fun c hc => (hrest c hc).1
    have hvalue : ofDigits ((exponentDigits style e).map fun c => c.toNat - '0'.toNat) =
        e.natAbs := by
      rw [ofDigits_map, exponentDigits, Nat.ofDigitChars_append, Nat.ofDigitChars_replicate_zero,
        Nat.mul_zero, Nat.ofDigitChars_ten_toDigits]
    have hne : exponentDigits style e ≠ [] :=
      List.append_ne_nil_of_right_ne_nil _ Nat.toDigits_ne_nil
    obtain ⟨d, ds, hds⟩ := List.exists_cons_of_ne_nil fun h => hne (List.map_eq_nil_iff.mp h)
    have hsign (cs : List Char) :
        takeSign ((if e < 0 then '-' else '+') :: cs) = (decide (e < 0), cs) := by
      by_cases hneg : e < 0
      · rw [if_pos hneg, decide_eq_true hneg]
        rfl
      · rw [if_neg hneg, decide_eq_false hneg]
        rfl
    rw [hds] at htake hvalue
    rw [exponentText, toList_renderExponent]
    simp only [List.cons_append, takeExponent, true_or, if_true, hsign, htake, hvalue,
      decide_eq_true_eq]
    congr 2
    omega

/-! ### Numerals -/

/-- What follows a numeral does not continue it. -/
def Ends (rest : List Char) : Prop :=
  ∀ c ∈ rest.head?, asciiDigit? c = none ∧ c ≠ '.' ∧ c ≠ 'e' ∧ c ≠ 'E'

/-- A numeral is read from its parts. -/
theorem readUnsigned?_append (style : NumeralStyle) {whole : List Char} (e : Option Int)
    (hne : whole ≠ []) (hwhole : ∀ c ∈ whole, c.isDigit = true)
    (hfraction : ∀ c ∈ fraction, c.isDigit = true) (hrest : Ends rest) :
    readUnsigned? (whole ++ (fractionText fraction ++ (exponentText style e ++ rest))) =
      some (⟨false, Nat.ofDigitChars 10 (whole ++ fraction) 0, e.getD 0 - fraction.length,
        fraction.isEmpty && e.isNone⟩, rest) := by
  have hexponent : takeExponent (exponentText style e ++ rest) = (e, rest) :=
    takeExponent_append style e fun c hc => ⟨(hrest c hc).1, (hrest c hc).2.2⟩
  have hfollows : ∀ c ∈ (exponentText style e ++ rest).head?, asciiDigit? c = none ∧ c ≠ '.' := by
    cases e with
    | none => exact fun c hc => ⟨(hrest c hc).1, (hrest c hc).2.1⟩
    | some e =>
      rw [exponentText, toList_renderExponent]
      intro c hc
      injection hc with hc
      rw [← hc]
      decide
  have hfractionTaken := takeFraction_append hfraction hfollows
  have hfollowsWhole : ∀ c ∈ (fractionText fraction ++ (exponentText style e ++ rest)).head?,
      asciiDigit? c = none := by
    cases fraction with
    | nil => exact fun c hc => (hfollows c hc).1
    | cons d fraction =>
      intro c hc
      injection hc with hc
      rw [← hc]
      decide
  have hwholeTaken := takeDigits_append hwhole hfollowsWhole
  obtain ⟨d, ds, hds⟩ := List.exists_cons_of_ne_nil fun h => hne (List.map_eq_nil_iff.mp h)
  rw [readUnsigned?, hwholeTaken, hds]
  simp only [hfractionTaken, hexponent, ← hds, ← List.map_append, ofDigits_map, List.length_map,
    List.isEmpty_map]

end Numeral

open Numeral

/-- A text consists of digits with a point or an exponent, and has the value `x`. The point stands
after the first `i` digits. -/
def IsNumeral (style : NumeralStyle) (cs : List Char) (x : Rat) : Prop :=
  ∃ (digits : List Char) (i : Nat) (e : Option Int),
    cs = digits.take i ++ (fractionText (digits.drop i) ++ exponentText style e) ∧
      digits.take i ≠ [] ∧ (∀ c ∈ digits, c.isDigit = true) ∧ (i < digits.length ∨ e.isSome) ∧
      (Nat.ofDigitChars 10 digits 0 : Rat) *
        (10 : Rat) ^ (e.getD 0 - (digits.length - i : Nat)) = x

/-- A numeral reads as its value. -/
theorem IsNumeral.exists_readUnsigned? {style : NumeralStyle} {cs : List Char} {x : Rat}
    (h : IsNumeral style cs x) :
    ∃ n, n.whole = false ∧ (n.digits : Rat) * (10 : Rat) ^ n.exponent = x ∧
      ∀ rest, Ends rest → readUnsigned? (cs ++ rest) = some (n, rest) := by
  obtain ⟨digits, i, e, rfl, hne, hdigits, hparts, hvalue⟩ := h
  refine ⟨⟨false, Nat.ofDigitChars 10 (digits.take i ++ digits.drop i) 0,
    e.getD 0 - (digits.drop i).length, (digits.drop i).isEmpty && e.isNone⟩, ?_, ?_,
    fun rest hrest => ?_⟩
  · rcases hparts with hi | he
    · simp [hi]
    · rw [Option.isNone_eq_false_iff.mpr he, Bool.and_false]
  · rw [List.take_append_drop, List.length_drop]
    exact hvalue
  · rw [List.append_assoc, List.append_assoc]
    exact readUnsigned?_append style e hne (fun c hc => hdigits c (List.mem_of_mem_take hc))
      (fun c hc => hdigits c (List.mem_of_mem_drop hc)) hrest

section Layout

variable {digits : List Char} {m : Nat} {k : Int} (hdigits : ∀ c ∈ digits, c.isDigit = true)
  (hne : digits ≠ []) (hvalue : Nat.ofDigitChars 10 digits 0 = m)

include hdigits hne hvalue

/-- The zeros of a whole number are written out, and a fraction is added. -/
theorem isNumeral_whole (n : Nat) : IsNumeral doubleStyle
    (digits ++ List.replicate n '0' ++ ['.', '0']) (m * (10 : Rat) ^ (n : Int)) := by
  have hwhole : (digits ++ List.replicate n '0').length = digits.length + n := by simp
  refine ⟨digits ++ List.replicate n '0' ++ ['0'], digits.length + n, none, ?_, ?_, ?_, ?_, ?_⟩
  · rw [List.take_left' hwhole, List.drop_left' hwhole]
    simp [fractionText, exponentText]
  · rw [List.take_left' hwhole]
    exact List.append_ne_nil_of_left_ne_nil hne _
  · exact List.forall_mem_append.mpr
      ⟨List.forall_mem_append.mpr ⟨hdigits, isDigit_replicate _⟩,
        List.forall_mem_singleton.mpr rfl⟩
  · simp
  · have hshift : Nat.ofDigitChars 10 (digits ++ List.replicate n '0' ++ ['0']) 0 =
        m * 10 ^ n * 10 := by
      rw [Nat.ofDigitChars_append, Nat.ofDigitChars_append, Nat.ofDigitChars_replicate_zero,
        hvalue, mul_comm m, mul_comm _ 10]
      rfl
    have hone : (none.getD 0 -
        ((digits ++ List.replicate n '0' ++ ['0']).length - (digits.length + n) : Nat) : Int) =
          -1 := by
      simp
    rw [hshift, hone]
    push_cast
    rw [zpow_neg_one, mul_inv_cancel_right₀ (by norm_num), zpow_natCast]

/-- The point stands between the digits. -/
theorem isNumeral_point {i : Nat} (hi : 0 < i) (hlength : i < digits.length)
    (hk : k + digits.length = i) : IsNumeral doubleStyle
    (digits.take i ++ '.' :: digits.drop i) (m * (10 : Rat) ^ k) := by
  refine ⟨digits, i, none, ?_, ?_, hdigits, .inl hlength, ?_⟩
  · simp [fractionText, exponentText, hlength]
  · simp only [ne_eq, List.take_eq_nil_iff, hne, or_false]
    omega
  · rw [hvalue, Option.getD_none]
    congr 2
    omega

/-- Zeros stand before the digits. -/
theorem isNumeral_small {n : Nat} (hk : k + digits.length = -n) : IsNumeral doubleStyle
    ('0' :: '.' :: (List.replicate n '0' ++ digits)) (m * (10 : Rat) ^ k) := by
  refine ⟨'0' :: (List.replicate n '0' ++ digits), 1, none, ?_, ?_, ?_, ?_, ?_⟩
  · simp [fractionText, exponentText, hne]
  · simp
  · exact List.forall_mem_cons.mpr ⟨rfl, List.forall_mem_append.mpr ⟨isDigit_replicate _, hdigits⟩⟩
  · simp [List.length_pos_of_ne_nil hne]
  · have hzeros : Nat.ofDigitChars 10 ('0' :: (List.replicate n '0' ++ digits)) 0 = m := by
      rw [Nat.ofDigitChars_cons, Nat.ofDigitChars_append, Nat.ofDigitChars_replicate_zero]
      exact hvalue
    rw [hzeros, Option.getD_none]
    congr 2
    simp
    omega

/-- One digit stands before the point, and an exponent follows. -/
theorem isNumeral_exponent (style : NumeralStyle) (k : Int) : IsNumeral style
    (digits.take 1 ++ (fractionText (digits.drop 1) ++
      exponentText style (some (k + digits.length - 1)))) (m * (10 : Rat) ^ k) := by
  refine ⟨digits, 1, some (k + digits.length - 1), rfl, by simp [hne], hdigits, .inr rfl, ?_⟩
  have hpos := List.length_pos_of_ne_nil hne
  rw [hvalue, Option.getD_some]
  congr 2
  omega

end Layout

/-- What is written for `m · 10 ^ k` is a numeral with this value. -/
theorem isNumeral_render (m : Nat) (k : Int) :
    IsNumeral doubleStyle (doubleStyle.render m k).toList (m * (10 : Rat) ^ k) := by
  have hdigits := isDigit_toDigits m
  have hvalue : Nat.ofDigitChars 10 (Nat.toDigits 10 m) 0 = m := Nat.ofDigitChars_ten_toDigits
  have hne : Nat.toDigits 10 m ≠ [] := Nat.toDigits_ne_nil
  rw [NumeralStyle.render]
  generalize Nat.toDigits 10 m = digits at *
  dsimp only
  split
  · split
    · rename_i hk
      obtain ⟨n, rfl⟩ := Int.eq_ofNat_of_zero_le hk
      simpa [doubleStyle] using isNumeral_whole hdigits hne hvalue n
    · split
      · rename_i hk he
        obtain ⟨i, hi⟩ := Int.eq_ofNat_of_zero_le (by omega : 0 ≤ k + digits.length)
        have hpoint := isNumeral_point hdigits hne hvalue (by omega) (by omega) hi
        simpa [hi] using hpoint
      · rename_i hk he
        obtain ⟨n, hn⟩ := Int.eq_ofNat_of_zero_le (by omega : 0 ≤ -(k + digits.length))
        have hsmall := isNumeral_small hdigits hne hvalue (by omega : k + digits.length = -n)
        have hzeros : (-(k + digits.length - 1) - 1).toNat = n := by omega
        rw [hzeros]
        simpa using hsmall
  · have hexponent := isNumeral_exponent hdigits hne hvalue doubleStyle k
    simp only [String.toList_append, String.toList_ofList, List.append_assoc]
    rw [fractionText] at hexponent
    split at hexponent <;> simp_all [exponentText]

/-! ### Signs -/

/-- A text is a sign, if any, and what follows begins with a digit and reads as a numeral; or it is
`inf`, which does not. -/
def ReadsAs (cs : List Char) (negative : Bool) (n : Option Numeral) : Prop :=
  ∃ body, cs = (if negative then ['-'] else []) ++ body ∧
    (∃ c ∈ body.head?, c.isDigit = true ∨ c = 'i') ∧ (n = none → body = ['i', 'n', 'f']) ∧
    ∀ rest, Ends rest → readUnsigned? (body ++ rest) = n.map (·, rest)

/-- A text that is read leaves no choice where it ends and what it reads as. -/
theorem ReadsAs.unique {cs cs' rest rest' : List Char} {negative negative' : Bool}
    {n n' : Option Numeral} (h : ReadsAs cs negative n) (h' : ReadsAs cs' negative' n')
    (hrest : Ends rest) (hrest' : Ends rest') (heq : cs ++ rest = cs' ++ rest') :
    negative = negative' ∧ n = n' ∧ rest = rest' := by
  have hne {c : Char} (hc : c.isDigit = true ∨ c = 'i') : c ≠ '-' := by
    rintro rfl
    revert hc
    decide
  obtain ⟨body, rfl, ⟨c, hc, hfirst⟩, hinf, hread⟩ := h
  obtain ⟨body', rfl, ⟨c', hc', hfirst'⟩, hinf', hread'⟩ := h'
  obtain ⟨body, rfl⟩ : ∃ cs, body = c :: cs := List.head?_eq_some_iff.mp hc
  obtain ⟨body', rfl⟩ : ∃ cs, body' = c' :: cs := List.head?_eq_some_iff.mp hc'
  have hsign : negative = negative' ∧ c :: body ++ rest = c' :: body' ++ rest' := by
    cases negative <;> cases negative'
    · exact ⟨rfl, heq⟩
    · exact absurd (List.cons.inj heq).1 (hne hfirst)
    · exact absurd (List.cons.inj heq).1.symm (hne hfirst')
    · exact ⟨rfl, (List.cons.inj heq).2⟩
  refine ⟨hsign.1, ?_⟩
  replace heq := hsign.2
  have hsame : n.map (·, rest) = n'.map (·, rest') := by
    rw [← hread rest hrest, ← hread' rest' hrest', heq]
  cases n with
  | none =>
    cases n' with
    | none =>
      rw [hinf rfl, hinf' rfl] at heq
      exact ⟨rfl, List.append_cancel_left heq⟩
    | some n' => cases hsame
  | some n =>
    cases n' with
    | none => cases hsame
    | some n' =>
      injection hsame with hsame
      injection hsame with hn hr
      exact ⟨hn ▸ rfl, hr⟩

/-- The digits of a number read as the number. -/
theorem readUnsigned?_toDigits (n : Nat) {rest : List Char} (hrest : Ends rest) :
    readUnsigned? (Nat.toDigits 10 n ++ rest) = some (⟨false, n, 0, true⟩, rest) := by
  have hnone : ∀ c ∈ ([] : List Char), c.isDigit = true := fun _ hc => absurd hc List.not_mem_nil
  have hread := readUnsigned?_append doubleStyle none Nat.toDigits_ne_nil (isDigit_toDigits n)
    hnone hrest
  rwa [List.append_nil, Nat.ofDigitChars_ten_toDigits] at hread

theorem exists_isDigit_head? {cs : List Char} (hne : cs ≠ [])
    (hdigits : ∀ c ∈ cs, c.isDigit = true) : ∃ c ∈ cs.head?, c.isDigit = true ∨ c = 'i' := by
  obtain ⟨c, cs, rfl⟩ := List.exists_cons_of_ne_nil hne
  exact ⟨c, rfl, .inl (hdigits c List.mem_cons_self)⟩

theorem toList_toString_int (n : Int) :
    (toString n).toList = (if decide (n < 0) then ['-'] else []) ++ Nat.toDigits 10 n.natAbs := by
  cases n with
  | ofNat n => exact Nat.toList_repr
  | negSucc n =>
    rw [decide_eq_true (Int.negSucc_lt_zero n), if_pos rfl]
    change ("-" ++ Nat.repr (n + 1)).toList = _
    rw [String.toList_append, Nat.toList_repr]
    rfl

theorem mem_toString_int {n : Int} {c : Char} (hc : c ∈ (toString n).toList) :
    c = '-' ∨ c.isDigit = true := by
  rw [toList_toString_int, List.mem_append] at hc
  rcases hc with hc | hc
  · split at hc
    · exact .inl (List.mem_singleton.mp hc)
    · cases hc
  · exact .inr (isDigit_toDigits _ c hc)

theorem readsAs_int (n : Int) :
    ReadsAs (toString n).toList (decide (n < 0)) (some ⟨false, n.natAbs, 0, true⟩) :=
  ⟨Nat.toDigits 10 n.natAbs, toList_toString_int n, exists_isDigit_head? Nat.toDigits_ne_nil
    (isDigit_toDigits _), (fun h => nomatch h), fun _ => readUnsigned?_toDigits _⟩

theorem IsNumeral.exists_isDigit_head? {style : NumeralStyle} {cs : List Char} {x : Rat}
    (h : IsNumeral style cs x) : ∃ c ∈ cs.head?, c.isDigit = true ∨ c = 'i' := by
  obtain ⟨digits, i, e, rfl, hne, hdigits, -⟩ := h
  rw [List.head?_append_of_ne_nil _ hne]
  exact Determinize.exists_isDigit_head? hne fun c hc => hdigits c (List.mem_of_mem_take hc)

namespace Double

/-- Whether a double has a minus sign. -/
def isNegative : Double → Bool
  | finite x => decide (x < 0)
  | negativeZero => true
  | infinite negative => negative
  | nan _ => false

/-- The size of a number, unless it is infinite. -/
def size? : Double → Option Rat
  | finite x => some x.abs
  | negativeZero => some 0
  | infinite _ | nan _ => none

variable {x y : Double}

/-- A number is determined by its sign and its size. -/
theorem eq_of_size?_eq (hx : x.isNumber = true) (hy : y.isNumber = true)
    (hnegative : x.isNegative = y.isNegative) (hsize : x.size? = y.size?) : x = y := by
  cases x with
  | nan tag => cases hx
  | finite x =>
    cases y with
    | finite y =>
      have hsign : x < 0 ↔ y < 0 := decide_eq_decide.mp hnegative
      have habs : x.abs = y.abs := Option.some.inj hsize
      congr 1
      rcases lt_or_ge x 0 with hx | hx
      · rw [Rat.abs_of_nonpos hx.le, Rat.abs_of_nonpos (hsign.mp hx).le] at habs
        exact neg_inj.mp habs
      · rwa [Rat.abs_of_nonneg hx,
          Rat.abs_of_nonneg (not_lt.mp fun h => not_lt.mpr hx (hsign.mpr h))] at habs
    | negativeZero =>
      have hx : x < 0 := of_decide_eq_true hnegative
      have : x = 0 := Rat.abs_eq_zero_iff.mp (Option.some.inj hsize)
      exact absurd this hx.ne
    | infinite negative => cases hsize
    | nan tag => cases hy
  | negativeZero =>
    cases y with
    | finite y =>
      have hy : y < 0 := of_decide_eq_true hnegative.symm
      have : y = 0 := Rat.abs_eq_zero_iff.mp (Option.some.inj hsize).symm
      exact absurd this hy.ne
    | negativeZero => rfl
    | infinite negative => cases hsize
    | nan tag => cases hy
  | infinite negative =>
    cases y with
    | finite y => cases hsize
    | negativeZero => cases hsize
    | infinite negative' => exact congrArg infinite hnegative
    | nan tag => cases hy

theorem isNumeral_zero : IsNumeral doubleStyle ['0', '.', '0'] 0 :=
  ⟨['0', '0'], 1, none, rfl, List.cons_ne_nil _ _, isDigit_replicate 2, .inl Nat.one_lt_two, by
    change ((0 : Nat) : Rat) * _ = 0
    rw [Nat.cast_zero, zero_mul]⟩

/-- The text of a double reads as a numeral from which the size of the double is nearest. -/
theorem exists_readsAs (hx : x.Representable) :
    ∃ n, ReadsAs x.text.toList x.isNegative n ∧
      Option.Rel (fun n r => n.whole = false ∧
        nearest ((n.digits : Rat) * (10 : Rat) ^ n.exponent) = finite r) n x.size? := by
  have hnumeral {cs body : List Char} {r v : Rat}
      (hcs : cs = (if x.isNegative then ['-'] else []) ++ body)
      (hbody : IsNumeral doubleStyle body v) (hv : nearest v = finite r) (hr : x.size? = some r) :
      ∃ n, ReadsAs cs x.isNegative n ∧ Option.Rel (fun n r => n.whole = false ∧
        nearest ((n.digits : Rat) * (10 : Rat) ^ n.exponent) = finite r) n x.size? := by
    obtain ⟨n, hwhole, hvalue, hread⟩ := hbody.exists_readUnsigned?
    refine ⟨some n, ⟨body, hcs, hbody.exists_isDigit_head?, (fun h => nomatch h), hread⟩, ?_⟩
    rw [hr]
    exact .some ⟨hwhole, hvalue ▸ hv⟩
  cases x with
  | finite x =>
    by_cases hzero : x = 0
    · subst hzero
      exact hnumeral rfl isNumeral_zero (representable_zero false) rfl
    · have hpos : 0 < x.abs :=
        lt_of_le_of_ne Rat.abs_nonneg fun h => hzero (Rat.abs_eq_zero_iff.mp h.symm)
      refine hnumeral ?_ (isNumeral_render _ _) (nearest_shortestDigits hpos (hx.abs hzero)) rfl
      rw [text, textIn, if_neg hzero, String.toList_append]
      by_cases hneg : x < 0 <;> simp [isNegative, hneg]
  | negativeZero => exact hnumeral rfl isNumeral_zero (representable_zero false) rfl
  | infinite negative =>
    refine ⟨none, ⟨['i', 'n', 'f'], ?_, ⟨'i', rfl, .inr rfl⟩, fun _ => rfl, fun _ _ => rfl⟩, .none⟩
    cases negative <;> rfl
  | nan tag => exact hx.elim

/-- The text of a double leaves no choice where it ends and which double it is. -/
theorem text_append_inj {rest rest' : List Char} (hx : x.Representable) (hy : y.Representable)
    (hrest : Ends rest) (hrest' : Ends rest') (h : x.text.toList ++ rest = y.text.toList ++ rest') :
    x = y ∧ rest = rest' := by
  obtain ⟨n, hn, hsize⟩ := exists_readsAs hx
  obtain ⟨n', hn', hsize'⟩ := exists_readsAs hy
  obtain ⟨hnegative, rfl, hrest⟩ := hn.unique hn' hrest hrest' h
  refine ⟨eq_of_size?_eq hx.isNumber hy.isNumber hnegative ?_, hrest⟩
  generalize x.size? = r at *
  generalize y.size? = r' at *
  cases hsize with
  | none =>
    cases hsize'
    rfl
  | some h =>
    cases hsize' with
    | some h' =>
      have : finite _ = finite _ := h.2.symm.trans h'.2
      injection this with this
      rw [this]

end Double

end Determinize
