import Determinize.Proofs.Config.Data
import Determinize.Proofs.Number.Whole
import Mathlib.Tactic.IntervalCases

/-!
# The tokens of written data

Data that are written as JSON are a document, and the tokens of the document are those of the data:
a word for a truth value or `null`, a quoted text, a numeral with or without a sign before it, and
punctuation. A word or a numeral ends where the comma or the bracket after it stands. A quoted text
ends at its quote, since quotes inside of it are escaped, and what is escaped is read back.

## Main definitions

* `Token.Lexes` — a text has some tokens.
* `Value.tokens` — the tokens of a value.

## Main results

* `Token.readChars?_flatMap_escape` — escaped characters are read back.
* `Value.IsLoaded.lexes_write` — the tokens of written data.
-/

namespace Determinize

namespace Token

variable {c : Char} {cs rest : List Char} {token : Option Token} {ts : List Token}

/-- A text has these tokens. Every bound on their number that is not less than the length of the
text will do. -/
def Lexes (cs : List Char) (ts : List Token) : Prop :=
  ∀ fuel, cs.length ≤ fuel → ofCharsWithin? fuel cs = some ts

theorem lexes_nil : Lexes [] [] := fun fuel _ => by cases fuel <;> rfl

theorem Lexes.cons (h : Lexes rest ts) (hnext : next? c cs = some (token, rest))
    (hlength : rest.length ≤ cs.length) : Lexes (c :: cs) (token.toList ++ ts) := by
  intro fuel hfuel
  cases fuel with
  | zero => cases hfuel
  | succ fuel =>
    rw [List.length_cons, Nat.succ_le_succ_iff] at hfuel
    rw [ofCharsWithin?, hnext]
    change (ofCharsWithin? fuel rest).bind _ = _
    rw [h fuel (hlength.trans hfuel)]
    rfl

theorem next?_punctuation (hc : c ∈ punctuations) (cs : List Char) :
    next? c cs = some (some (.punctuation c), cs) := by
  simp only [punctuations, List.mem_cons, List.not_mem_nil, or_false] at hc
  rcases hc with rfl | rfl | rfl | rfl | rfl | rfl | rfl | rfl | rfl | rfl | rfl | rfl <;> rfl

theorem next?_word (hstart : isWordStart c = true) (hparts : ∀ d ∈ cs, isWordPart d = true)
    (hrest : ∀ d ∈ rest.head?, isWordPart d = false) :
    next? c (cs ++ rest) = some (some (.word (String.ofList (c :: cs))), rest) := by
  have hne {d : Char} (hd : isWordStart d = false) : c ≠ d := by
    rintro rfl
    rw [hd] at hstart
    cases hstart
  have hspace : Json.isSpace c = false := by
    simp [Json.isSpace, hne (d := ' ') rfl, hne (d := '\n') rfl, hne (d := '\r') rfl,
      hne (d := '\t') rfl]
  have htake : (cs ++ rest).takeWhile isWordPart = cs := by
    rw [List.takeWhile_append_of_pos hparts]
    cases rest with
    | nil => simp
    | cons d rest => simp [hrest d rfl]
  have hdrop : (cs ++ rest).dropWhile isWordPart = rest := by
    rw [List.dropWhile_append_of_pos hparts]
    cases rest with
    | nil => simp
    | cons d rest => simp [hrest d rfl]
  unfold next?
  rw [hspace, if_neg Bool.false_ne_true, if_neg (hne rfl), if_neg (hne rfl),
    if_neg (not_or.mpr ⟨hne rfl, hne rfl⟩), if_pos hstart, htake, hdrop]

theorem mem_of_isDigit (hc : c.isDigit = true) :
    c ∈ ['0', '1', '2', '3', '4', '5', '6', '7', '8', '9'] := by
  simp only [Char.isDigit, Bool.and_eq_true, decide_eq_true_eq] at hc
  have hrange : 48 ≤ c.toNat ∧ c.toNat ≤ 57 := hc
  rw [← Char.ofNat_toNat c]
  generalize c.toNat = n at hrange
  obtain ⟨hlow, hhigh⟩ := hrange
  interval_cases n <;> decide

theorem next?_number {n : Numeral} (hc : c.isDigit = true)
    (h : Numeral.readUnsigned? (c :: cs) = some (n, rest)) :
    next? c cs = some (some (.number n), rest) := by
  have hskip : ∀ d ∈ ['0', '1', '2', '3', '4', '5', '6', '7', '8', '9'],
      Json.isSpace d = false ∧ d ≠ '#' ∧ d ≠ '/' ∧ d ≠ Text.singleQuote ∧ d ≠ Text.doubleQuote ∧
        isWordStart d = false ∧ punctuations.contains d = false :=
    List.forall_iff_forall_mem.mp (by decide)
  obtain ⟨hspace, hhash, hslash, hsingle, hdouble, hword, hpunctuation⟩ :=
    hskip c (mem_of_isDigit hc)
  unfold next?
  rw [hspace, if_neg Bool.false_ne_true, if_neg hhash, if_neg hslash,
    if_neg (not_or.mpr ⟨hsingle, hdouble⟩), hword, if_neg Bool.false_ne_true, hpunctuation,
    if_neg Bool.false_ne_true, h]
  rfl

/-! ### Quoted texts -/

theorem takeHex4?_hexadecimal {n : Nat} (hn : n < 0x20) (rest : List Char) :
    Json.takeHex4? (Text.hexadecimal 4 n ++ rest) = some (n, rest) := by
  interval_cases n <;> rfl

theorem takeNumbered?_hexadecimal {n : Nat} (hn : n < 0x20) (rest : List Char) :
    Json.takeNumbered? (Text.hexadecimal 4 n ++ rest) = some (Char.ofNat n, rest) := by
  rw [Json.takeNumbered?, takeHex4?_hexadecimal hn]
  change (if _ then _ else if _ then _ else _) = _
  rw [if_neg (by omega), if_neg (by omega)]
  rfl

/-- A character is written as itself, or after a backslash in a way that is read back. -/
theorem escape_cases (c : Char) :
    Json.escape c = [c] ∧ c ≠ Text.backslash ∧ c ≠ Text.doubleQuote ∨
      ∃ ds, Json.escape c = Text.backslash :: ds ∧
        ∀ rest, takeEscaped? (ds ++ rest) = some (c, rest) := by
  rw [Json.escape]
  split_ifs with hquote hn hr ht hf hb hsmall
  · refine .inr ⟨[c], rfl, fun rest => ?_⟩
    rcases hquote with rfl | rfl <;> rfl
  · exact .inr ⟨['n'], rfl, fun rest => hn ▸ rfl⟩
  · exact .inr ⟨['r'], rfl, fun rest => hr ▸ rfl⟩
  · exact .inr ⟨['t'], rfl, fun rest => ht ▸ rfl⟩
  · exact .inr ⟨['f'], rfl, fun rest => hf ▸ rfl⟩
  · exact .inr ⟨['b'], rfl, fun rest => hb ▸ rfl⟩
  · refine .inr ⟨'u' :: Text.hexadecimal 4 c.toNat, rfl, fun rest => ?_⟩
    have hread := takeNumbered?_hexadecimal hsmall rest
    rwa [Char.ofNat_toNat] at hread
  · exact .inl ⟨rfl, fun h => hquote (.inr h), fun h => hquote (.inl h)⟩

/-- A character that is written is read back. -/
theorem readChars?_escape {fuel : Nat} {more rest rest' : List Char}
    (h : readChars? Text.doubleQuote fuel rest = some (more, rest')) (c : Char) :
    readChars? Text.doubleQuote (fuel + 1) (Json.escape c ++ rest) = some (c :: more, rest') := by
  rcases escape_cases c with ⟨hescape, hbackslash, hquote⟩ | ⟨ds, hescape, hread⟩
  · rw [hescape, List.singleton_append, readChars?, if_neg hquote, if_neg hbackslash]
    change (readChars? Text.doubleQuote fuel rest).bind _ = _
    rw [h]
    rfl
  · rw [hescape, List.cons_append, readChars?, if_neg (by decide), if_pos rfl, hread]
    change (readChars? Text.doubleQuote fuel rest).bind _ = _
    rw [h]
    rfl

/-- A text between double quotes is read back. -/
theorem readChars?_flatMap_escape (cs rest : List Char) {fuel : Nat} (hfuel : cs.length < fuel) :
    readChars? Text.doubleQuote fuel (cs.flatMap Json.escape ++ Text.doubleQuote :: rest) =
      some (cs, rest) := by
  induction cs generalizing fuel with
  | nil =>
    obtain ⟨fuel, rfl⟩ := Nat.exists_eq_add_one_of_ne_zero hfuel.ne'
    exact if_pos rfl
  | cons c cs ih =>
    obtain ⟨fuel, rfl⟩ := Nat.exists_eq_add_one_of_ne_zero (Nat.ne_zero_of_lt hfuel)
    rw [List.flatMap_cons, List.append_assoc]
    exact readChars?_escape (ih (Nat.lt_of_succ_lt_succ hfuel)) c

theorem length_le_flatMap_escape (cs : List Char) :
    cs.length ≤ (cs.flatMap Json.escape).length := by
  induction cs with
  | nil => exact le_rfl
  | cons c cs ih =>
    have hne : 1 ≤ (Json.escape c).length := by
      rcases escape_cases c with ⟨hescape, -⟩ | ⟨ds, hescape, -⟩ <;> simp [hescape]
    rw [List.flatMap_cons, List.length_append, List.length_cons]
    omega

theorem next?_text (s : String) (rest : List Char) :
    next? Text.doubleQuote (s.toList.flatMap Json.escape ++ Text.doubleQuote :: rest) =
      some (some (.text s), rest) := by
  have hlength : s.toList.length <
      (s.toList.flatMap Json.escape ++ Text.doubleQuote :: rest).length + 1 := by
    have := length_le_flatMap_escape s.toList
    rw [List.length_append]
    omega
  have hread := readChars?_flatMap_escape s.toList rest hlength
  unfold next?
  rw [if_neg (by decide), if_neg (by decide), if_neg (by decide), if_pos (.inr rfl), hread]
  exact congrArg (fun t => some (some (Token.text t), rest)) String.ofList_toList

/-! ### Written data -/

/-- A text that ends the word or the numeral before it. -/
def Stops (rest : List Char) : Prop := ∀ c ∈ rest.head?, c = ',' ∨ c = ']' ∨ c = '\x7d'

theorem Stops.isWordPart (h : Stops rest) : ∀ d ∈ rest.head?, isWordPart d = false := by
  intro d hd
  rcases h d hd with rfl | rfl | rfl <;> rfl

theorem Stops.ends (h : Stops rest) : Numeral.Ends rest := by
  intro d hd
  rcases h d hd with rfl | rfl | rfl <;> decide

theorem stops_cons (hc : c = ',' ∨ c = ']' ∨ c = '\x7d') (rest : List Char) :
    Stops (c :: rest) := by
  intro d hd
  obtain rfl := Option.some.inj hd
  exact hc

theorem Lexes.punctuation (h : Lexes rest ts) (hc : c ∈ punctuations) :
    Lexes (c :: rest) (.punctuation c :: ts) :=
  h.cons (next?_punctuation hc rest) le_rfl

theorem Lexes.space (h : Lexes rest ts) : Lexes (' ' :: rest) ts := by
  have hnext : next? ' ' rest = some (none, rest) := rfl
  exact h.cons hnext le_rfl

theorem Lexes.word (h : Lexes rest ts) (hrest : Stops rest) (hstart : isWordStart c = true)
    (hparts : ∀ d ∈ cs, isWordPart d = true) :
    Lexes (c :: cs ++ rest) (.word (String.ofList (c :: cs)) :: ts) :=
  h.cons (next?_word hstart hparts hrest.isWordPart) (by simp)

theorem Lexes.text (h : Lexes rest ts) (s : String) :
    Lexes (Json.writeText s ++ rest) (.text s :: ts) := by
  rw [Json.writeText, List.append_assoc, List.singleton_append, List.cons_append]
  exact h.cons (next?_text s rest) (by simp; omega)

end Token

namespace Value

/-! ### The tokens of data -/

/-- Whether a number is written with a minus sign. -/
def hasMinus (x : Value) : Bool := (Json.write x).head? = some '-'

/-- The numeral of a number, without a sign. -/
def numeral (x : Value) : Numeral :=
  (Numeral.readUnsigned? ((Json.write x).dropWhile (· = '-'))).elim ⟨false, 0, 0, true⟩ (·.1)

/-- The tokens of a number. -/
def numberTokens (x : Value) : List Token :=
  (if x.hasMinus then [.punctuation '-'] else []) ++ [.number x.numeral]

mutual

/-- The tokens of a value that is written. -/
def tokens : Value → List Token
  | null => [.word "null"]
  | bool b => [.word (if b then "true" else "false")]
  | int n => numberTokens (int n)
  | real x => numberTokens (real x)
  | text s => [.text s]
  | tuple items | list items => .punctuation '[' :: (itemTokens items ++ [.punctuation ']'])
  | object fields => .punctuation '\x7b' :: (fieldTokens fields ++ [.punctuation '\x7d'])

/-- The tokens of the items of a list. -/
def itemTokens : List Value → List Token
  | [] => []
  | [x] => tokens x
  | x :: y :: xs => tokens x ++ .punctuation ',' :: itemTokens (y :: xs)

/-- The tokens of the fields of an object. -/
def fieldTokens : List (String × Value) → List Token
  | [] => []
  | [(k, x)] => .text k :: .punctuation ':' :: tokens x
  | (k, x) :: f :: fields =>
    .text k :: .punctuation ':' :: (tokens x ++ .punctuation ',' :: fieldTokens (f :: fields))

end

/-! ### Written data have these tokens -/

open Token (Lexes stops_cons)

variable {x : Value} {rest : List Char} {ts : List Token}

/-- What a number is read as can be read off its text. -/
theorem exists_of_readsAs {negative : Bool} {n : Numeral}
    (h : ReadsAs (Json.write x) negative (some n)) :
    x.hasMinus = negative ∧ x.numeral = n ∧ ∃ c cs, c.isDigit = true ∧
      Json.write x = (if negative then ['-'] else []) ++ c :: cs ∧
      ∀ rest, Numeral.Ends rest → Numeral.readUnsigned? (c :: cs ++ rest) = some (n, rest) := by
  obtain ⟨body, hwrite, ⟨c, hc, hfirst⟩, -, hread⟩ := h
  obtain ⟨cs, rfl⟩ : ∃ cs, body = c :: cs := List.head?_eq_some_iff.mp hc
  have hdigit : c.isDigit = true := by
    rcases hfirst with hdigit | rfl
    · exact hdigit
    · cases hread [] (by simp [Numeral.Ends])
  have hne : c ≠ '-' := by
    rintro rfl
    cases hdigit
  have hwhole : Numeral.readUnsigned? (c :: cs) = some (n, []) := by
    have := hread [] (by simp [Numeral.Ends])
    rwa [List.append_nil] at this
  refine ⟨?_, ?_, c, cs, hdigit, hwrite, hread⟩
  · rw [hasMinus, hwrite]
    cases negative <;> simp [hne]
  · rw [numeral, hwrite]
    cases negative <;> simp [hne, hwhole]

theorem lexes_number {negative : Bool} {n : Numeral}
    (hread : ReadsAs (Json.write x) negative (some n)) (hrest : Token.Stops rest)
    (h : Lexes rest ts) :
    Lexes (Json.write x ++ rest) (x.numberTokens ++ ts) := by
  obtain ⟨hminus, hnumeral, c, cs, hdigit, hwrite, hread⟩ := exists_of_readsAs hread
  have hnumber : Lexes (c :: cs ++ rest) (.number n :: ts) :=
    h.cons (Token.next?_number hdigit (hread rest hrest.ends)) (by simp)
  rw [numberTokens, hminus, hnumeral, hwrite]
  cases negative with
  | false => exact hnumber
  | true => exact hnumber.punctuation (by decide)

theorem lexes_writeItems {items : List Value}
    (hitems : ∀ x ∈ items, ∀ {rest ts}, Token.Stops rest → Lexes rest ts →
      Lexes (Json.write x ++ rest) (x.tokens ++ ts))
    (hrest : Token.Stops rest) (h : Lexes rest ts) :
    Lexes (Json.writeItems items ++ rest) (itemTokens items ++ ts) := by
  induction items with
  | nil => exact h
  | cons x xs ih =>
    rw [List.forall_mem_cons] at hitems
    cases xs with
    | nil => exact hitems.1 hrest h
    | cons y ys =>
      have hcomma := ((ih hitems.2).space).punctuation (c := ',') (by decide)
      rw [Json.writeItems, itemTokens, List.append_assoc, List.append_assoc]
      exact hitems.1 (stops_cons (.inl rfl) _) hcomma

theorem lexes_writeFields {fields : List (String × Value)}
    (hfields : ∀ f ∈ fields, ∀ {rest ts}, Token.Stops rest → Lexes rest ts →
      Lexes (Json.write f.2 ++ rest) (f.2.tokens ++ ts))
    (hrest : Token.Stops rest) (h : Lexes rest ts) :
    Lexes (Json.writeFields fields ++ rest) (fieldTokens fields ++ ts) := by
  have hkey {k : String} {cs : List Char} {us : List Token} (hcs : Lexes cs us) :
      Lexes (Json.writeText k ++ ':' :: ' ' :: cs) (.text k :: .punctuation ':' :: us) :=
    (hcs.space.punctuation (by decide)).text k
  induction fields with
  | nil => exact h
  | cons field fields ih =>
    obtain ⟨k, x⟩ := field
    rw [List.forall_mem_cons] at hfields
    cases fields with
    | nil =>
      rw [Json.writeFields, List.append_assoc]
      exact hkey (hfields.1 hrest h)
    | cons f fields =>
      have hcomma := ((ih hfields.2).space).punctuation (c := ',') (by decide)
      have hvalue := hkey (k := k) (hfields.1 (stops_cons (.inl rfl) _) hcomma)
      rw [Json.writeFields, fieldTokens, List.append_assoc]
      simpa only [List.cons_append, List.append_assoc] using hvalue

/-- Loaded data that are written have their tokens. -/
theorem IsLoaded.lexes_write (hx : x.IsLoaded) (hrest : Token.Stops rest) (h : Lexes rest ts) :
    Lexes (Json.write x ++ rest) (x.tokens ++ ts) := by
  induction hx generalizing rest ts with
  | null => exact h.word hrest rfl (List.all_eq_true.mp rfl)
  | bool b => cases b <;> exact h.word hrest rfl (List.all_eq_true.mp rfl)
  | text s => exact h.text s
  | number hx =>
    obtain ⟨r, hr, rfl⟩ := hx
    obtain ⟨n, hread, -⟩ := exists_readsAs_ofWholeDouble hr
    have hnumber := lexes_number hread hrest h
    rcases IsRead.cases ⟨r, hr, rfl⟩ with ⟨_, heq⟩ | ⟨_, heq⟩
    · rw [heq] at hnumber ⊢
      exact hnumber
    · rw [heq] at hnumber ⊢
      exact hnumber
  | list _ ih =>
    have hclose := h.punctuation (c := ']') (by decide)
    have hitems := lexes_writeItems ih (stops_cons (.inr (.inl rfl)) rest) hclose
    have hopen := hitems.punctuation (c := '[') (by decide)
    simpa only [Json.write, tokens, List.cons_append, List.append_assoc, List.nil_append]
      using hopen
  | object _ _ ih =>
    have hclose := h.punctuation (c := '\x7d') (by decide)
    have hfields := lexes_writeFields ih (stops_cons (.inr (.inr rfl)) rest) hclose
    have hopen := hfields.punctuation (c := '\x7b') (by decide)
    simpa only [Json.write, tokens, List.cons_append, List.append_assoc, List.nil_append]
      using hopen

end Value

end Determinize
