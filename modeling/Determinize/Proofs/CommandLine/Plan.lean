import Determinize.CommandLine.Plan
import Mathlib.Data.List.Forall2

/-!
# Plans for command lines

A command line in which every argument is spelled in one of the usual ways has the plan that one
expects: an operand takes a word, and an option the value after the equals sign or the next word. The
arguments can come in any order.

A command that selects another one, or that takes all words that are left, takes everything from its
first word on. It does so even if these words look like options, as long as they are none of its own.

## Main definitions

* `IsPlain`, `IsForeign` — words that are no options of a command.
* `IsSpelling`, `Spells` — how the words of a command line spell its arguments.

## Main results

* `Signature.plan?_command`, `Signature.plan?_rest` — everything is taken.
* `Signature.plan?_of_spells` — spelled arguments are taken one after the other.
-/

namespace Determinize.CommandLine

variable {s : Signature} {a b : Argument} {name text : String}

/-! ### Words -/

/-- A text that does not begin with a hyphen. -/
def IsPlain (text : String) : Prop := text.toList.head? ≠ some '-'

instance (text : String) : Decidable (IsPlain text) := inferInstanceAs (Decidable (_ ≠ _))

/-- A text that looks like an option and is not even the beginning of one of the command. -/
structure IsForeign (s : Signature) (text : String) : Prop where
  hyphens : ['-', '-'] <+: text.toList
  ne_separatorText : text ≠ separatorText
  unspelled : ∀ entry ∈ s.spellings, ¬ (splitAtEquals text).1.toList <+: entry.1.toList

/-- A spelling of an option of the command. -/
structure IsSpelling (s : Signature) (name : String) (a : Argument) : Prop where
  lookup : s.spellings.lookup name = some a
  hyphen : name.toList.head? = some '-'
  ne_separatorText : name ≠ separatorText

theorem IsPlain.ne_separatorText (h : IsPlain text) : text ≠ separatorText := by
  rintro rfl
  exact h rfl

/-! ### Spellings -/

theorem forall_ne_of_not_mem (h : '=' ∉ name.toList) :
    ∀ c ∈ name.toList, decide (c ≠ '=') = true :=
  fun _ hc => decide_eq_true fun heq => h (heq ▸ hc)

theorem toList_attached (name value : String) :
    (name ++ "=" ++ value).toList = name.toList ++ '=' :: value.toList := by
  simp [String.toList_append]

theorem attached_ne_separatorText (name value : String) : name ++ "=" ++ value ≠ separatorText := by
  intro heq
  have hmem : '=' ∈ (name ++ "=" ++ value).toList := by simp
  rw [heq] at hmem
  revert hmem
  decide

theorem splitAtEquals_append (h : '=' ∉ name.toList) (value : String) :
    splitAtEquals (name ++ "=" ++ value) = (name, some value) := by
  simp only [splitAtEquals, toList_attached]
  rw [List.takeWhile_append_of_pos (forall_ne_of_not_mem h),
    List.dropWhile_append_of_pos (forall_ne_of_not_mem h)]
  simp

theorem splitAtEquals_self (h : '=' ∉ name.toList) : splitAtEquals name = (name, none) := by
  have hall := forall_ne_of_not_mem h
  have hfirst : name.toList.takeWhile (· ≠ '=') = name.toList := by
    rw [← List.append_nil name.toList, List.takeWhile_append_of_pos hall, List.takeWhile_nil]
  have hrest : name.toList.dropWhile (· ≠ '=') = [] := by
    rw [← List.append_nil name.toList, List.dropWhile_append_of_pos hall, List.dropWhile_nil]
  simp only [splitAtEquals, hfirst, hrest, String.ofList_toList]
  rfl

theorem mem_spellings_of_lookup (h : s.spellings.lookup name = some a) :
    (name, a) ∈ s.spellings := by
  obtain ⟨before, after, heq, -⟩ := List.lookup_eq_some_iff.mp h
  exact heq ▸ List.mem_append_right before List.mem_cons_self

theorem lookup_eq_none_of_forall_ne (h : ∀ entry ∈ s.spellings, entry.1 ≠ name) :
    s.spellings.lookup name = none :=
  Option.eq_none_iff_forall_ne_some.mpr fun _ ha => h _ (mem_spellings_of_lookup ha) rfl

theorem IsSpelling.isOption (h : IsSpelling s name a) : a.isOption = true := by
  obtain ⟨a', -, hname⟩ := List.mem_flatMap.mp (mem_spellings_of_lookup h.lookup)
  obtain ⟨spelling, hspelling, heq⟩ := List.mem_map.mp hname
  cases heq
  rw [Argument.isOption, List.isEmpty_eq_false_iff.mpr (List.ne_nil_of_mem hspelling)]
  rfl

/-- With a value after an equals sign, too, a foreign option is foreign. -/
theorem IsForeign.attached (h : IsForeign s name) (hname : '=' ∉ name.toList) (value : String) :
    IsForeign s (name ++ "=" ++ value) where
  hyphens := by
    rw [toList_attached]
    exact h.hyphens.trans (List.prefix_append _ _)
  ne_separatorText := attached_ne_separatorText name value
  unspelled := by
    rw [splitAtEquals_append hname]
    have hunspelled := h.unspelled
    rwa [splitAtEquals_self hname] at hunspelled

/-! ### Classification -/

namespace Word

theorem ofText?_of_isPlain (h : IsPlain text) : ofText? s text = .ok (.plain text) := if_pos h

theorem ofText?_spelling (h : IsSpelling s name a) :
    ofText? s name = .ok (.option name a name none) := by
  rw [ofText?, if_neg (not_not.mpr h.hyphen), h.lookup]

/-- An option with a value after an equals sign, if no option is spelled with such a sign. -/
theorem ofText?_attached (hs : ∀ entry ∈ s.spellings, '=' ∉ entry.1.toList)
    (h : IsSpelling s name a) (value : String) :
    ofText? s (name ++ "=" ++ value) =
      .ok (.option (name ++ "=" ++ value) a name (some value)) := by
  have hmem : '=' ∈ (name ++ "=" ++ value).toList := by
    rw [toList_attached]
    exact List.mem_append_right _ List.mem_cons_self
  have hhyphen : (name ++ "=" ++ value).toList.head? = some '-' := by
    rw [toList_attached, List.head?_append, h.hyphen]
    rfl
  have hne : name ++ "=" ++ value ≠ "-" := by
    intro heq
    rw [heq] at hmem
    revert hmem
    decide
  have hlookup : s.spellings.lookup (name ++ "=" ++ value) = none :=
    lookup_eq_none_of_forall_ne fun entry hentry heq => hs entry hentry (heq ▸ hmem)
  rw [ofText?, if_neg (not_not.mpr hhyphen), hlookup]
  simp only [if_neg hne, splitAtEquals_append (hs _ (mem_spellings_of_lookup h.lookup)), h.lookup]

/-- What is no option of the command is a word of its own. -/
theorem ofText?_foreign (h : IsForeign s text) :
    ∃ w, ofText? s text = .ok w ∧ w.text = text ∧ w ≠ .separator := by
  obtain ⟨cs, hcs⟩ := h.hyphens
  have hstart : (splitAtEquals text).1.toList <+: text.toList := by
    simp only [splitAtEquals, String.toList_ofList]
    exact List.takeWhile_prefix _
  have hlookup : s.spellings.lookup text = none :=
    lookup_eq_none_of_forall_ne fun entry hentry heq =>
      h.unspelled entry hentry (by rw [heq]; exact hstart)
  have hlookup' : s.spellings.lookup (splitAtEquals text).1 = none :=
    lookup_eq_none_of_forall_ne fun entry hentry heq =>
      h.unspelled entry hentry (heq.symm ▸ List.prefix_rfl)
  have hcandidates : s.candidates text = [] := by
    simp only [Signature.candidates, ← hcs, List.cons_append, List.nil_append]
    rw [List.map_eq_nil_iff, List.filter_eq_nil_iff]
    exact fun entry hentry h' => h.unspelled entry hentry (String.startsWith_string_iff.mp h')
  have hne : text ≠ "-" := by
    rintro rfl
    cases hcs
  rw [ofText?, if_neg (by rw [← hcs]; simp), hlookup]
  simp only [if_neg hne, hlookup', hcandidates]
  split
  · exact ⟨_, rfl, rfl, nofun⟩
  · exact ⟨_, rfl, rfl, nofun⟩

theorem ofTexts?_cons {word : Word} {texts : List String} {words : List Word}
    (hne : text ≠ separatorText) (h : ofText? s text = .ok word)
    (hs : ofTexts? s texts = .ok words) : ofTexts? s (text :: texts) = .ok (word :: words) := by
  rw [ofTexts?, if_neg hne, h, hs]
  rfl

/-- Texts that are no options of the command are words of their own. -/
theorem exists_ofTexts? {texts : List String} (h : ∀ t ∈ texts, IsPlain t ∨ IsForeign s t) :
    ∃ words, ofTexts? s texts = .ok words ∧ words.map Word.text = texts ∧ .separator ∉ words := by
  induction texts with
  | nil => exact ⟨[], rfl, rfl, List.not_mem_nil⟩
  | cons t texts ih =>
    rw [List.forall_mem_cons] at h
    obtain ⟨words, hwords, htexts, hseparator⟩ := ih h.2
    have hword : ∃ w, ofText? s t = .ok w ∧ w.text = t ∧ w ≠ .separator := by
      rcases h.1 with ht | ht
      · exact ⟨_, ofText?_of_isPlain ht, rfl, nofun⟩
      · exact ofText?_foreign ht
    have hne : t ≠ separatorText := h.1.elim IsPlain.ne_separatorText IsForeign.ne_separatorText
    obtain ⟨w, hw, hwt, hws⟩ := hword
    refine ⟨w :: words, ofTexts?_cons hne hw hwords, by rw [List.map_cons, hwt, htexts], ?_⟩
    rw [List.mem_cons, not_or]
    exact ⟨hws.symm, hseparator⟩

end Word

/-! ### Operands that take everything -/

theorem separators_eq_zero {words : List Word} (h : .separator ∉ words) : separators words = 0 := by
  cases words with
  | nil => rfl
  | cons w words =>
    cases w with
    | separator => exact absurd List.mem_cons_self h
    | plain | unknown | option => rfl

/-- The greatest number comes first. -/
theorem exists_downFrom_eq_cons {most least : Nat} (h : least ≤ most) :
    ∃ rest, downFrom most least = most :: rest := by
  obtain ⟨k, rfl⟩ := Nat.exists_eq_add_of_le h
  rw [downFrom, show least + k + 1 - least = k + 1 by omega, List.range_succ, List.map_append,
    List.reverse_append]
  exact ⟨_, by rw [Nat.add_comm least k]; rfl⟩

theorem counts?_singleton {words : List Word} {n : Nat} {rest : List Nat}
    (h : takeable a.arity words = n :: rest) : counts? [a] words = some [n] := by
  rw [counts?, h]
  rfl

theorem aroundPlain?_cons {words : List Word} (h : .separator ∉ words) :
    aroundPlain? (.plain text :: words) = some (1, 0) := by
  change some (0 + 1, separators words) = _
  rw [separators_eq_zero h]

/-- An operand that selects a command takes everything. -/
theorem assignable_command {words : List Word} (ha : a.arity = .command)
    (h : .separator ∉ words) :
    assignable [a] (.plain text :: words) = [words.length + 1] := by
  obtain ⟨rest, hrest⟩ := exists_downFrom_eq_cons (Nat.le_add_left 1 words.length)
  have htakeable : takeable a.arity (.plain text :: words) = (words.length + 1) :: rest := by
    simp only [takeable, ha, aroundPlain?_cons h, List.length_cons, hrest]
  change (([1].findSome? fun n => counts? ([a].take n) (.plain text :: words)).getD []) = _
  simp only [List.findSome?_cons, List.take_succ_cons, List.take_zero, counts?_singleton htakeable]
  rfl

/-- An operand that takes a word, and one that takes everything after it. -/
theorem assignable_rest {words : List Word} (ha : a.arity = .optional) (hb : b.arity = .rest)
    (h : .separator ∉ words) :
    assignable [a, b] (.plain text :: words) = [1, words.length] := by
  obtain ⟨rest, hrest⟩ := exists_downFrom_eq_cons (Nat.zero_le words.length)
  have htakeable : takeable b.arity words = words.length :: rest := by
    simp only [takeable, hb, hrest]
  have hb' : counts? [b] words = some [words.length] := counts?_singleton htakeable
  have ha' : takeable a.arity (.plain text :: words) = [1, 0] := by
    simp only [takeable, ha, aroundPlain?_cons h]
    rfl
  have hcounts : counts? [a, b] (.plain text :: words) = some [1, words.length] := by
    rw [counts?, ha']
    simp only [List.findSome?_cons, List.drop_succ_cons, List.drop_zero, hb', Option.map_some]
  change (([2, 1].findSome? fun n => counts? ([a, b].take n) (.plain text :: words)).getD []) = _
  simp only [List.findSome?_cons, List.take_succ_cons, List.take_zero, hcounts]
  rfl

/-- Operands that take everything take it at once, whether there are options after them or not. -/
theorem planFrom_of_total {pending : List Argument} {words : List Word}
    (hcounts : (assignable pending (.plain text :: words)).length = pending.length)
    (htotal : total (assignable pending (.plain text :: words)) = words.length + 1) :
    s.planFrom pending (.plain text :: words) =
      takeSteps pending (assignable pending (.plain text :: words)) (.plain text :: words) := by
  have hnil : s.planFrom [] [] = [] := by rw [Signature.planFrom]; rfl
  rw [Signature.planFrom]
  · split
    · rw [dif_pos (by omega)]
      dsimp only
      rw [hcounts, htotal, List.drop_length, List.drop_of_length_le (by simp), hnil,
        List.append_nil]
    · rw [lastSteps, htotal, List.drop_of_length_le (by simp)]
      exact List.append_nil _
  · simp
  · simp

namespace Signature

/-- The operands of a command are all arguments that are no options. -/
theorem plan?_eq_ok {texts : List String} {words : List Word}
    (h : Word.ofTexts? s texts = .ok words) :
    s.plan? texts = .ok (s.planFrom (s.arguments.filter fun a => !a.isOption) words) := by
  rw [plan?, h]
  rfl

/-- A command with an operand that selects another one takes everything for it. -/
theorem plan?_command {texts : List String}
    (hs : s.arguments.filter (fun a => !a.isOption) = [a]) (ha : a.arity = .command)
    (htext : IsPlain text) (h : ∀ t ∈ texts, IsPlain t ∨ IsForeign s t) :
    s.plan? (text :: texts) = .ok [.take a (text :: texts)] := by
  obtain ⟨words, hwords, rfl, hseparator⟩ := Word.exists_ofTexts? h
  have hcounts : assignable [a] (.plain text :: words) = _ := assignable_command ha hseparator
  rw [plan?_eq_ok (Word.ofTexts?_cons htext.ne_separatorText (Word.ofText?_of_isPlain htext) hwords),
    hs, planFrom_of_total (by rw [hcounts]; rfl) (by rw [hcounts]; rfl), hcounts]
  simp [takeSteps, Word.text]

/-- A command with an operand for a word and one for everything after it. -/
theorem plan?_rest {texts : List String}
    (hs : s.arguments.filter (fun a => !a.isOption) = [a, b]) (ha : a.arity = .optional)
    (hb : b.arity = .rest) (htext : IsPlain text) (h : ∀ t ∈ texts, IsPlain t ∨ IsForeign s t) :
    s.plan? (text :: texts) = .ok [.take a [text], .take b texts] := by
  obtain ⟨words, hwords, rfl, hseparator⟩ := Word.exists_ofTexts? h
  have hcounts : assignable [a, b] (.plain text :: words) = _ := assignable_rest ha hb hseparator
  have htotal : total [1, words.length] = words.length + 1 := by
    simp only [total, List.foldr]
    omega
  rw [plan?_eq_ok (Word.ofTexts?_cons htext.ne_separatorText (Word.ofText?_of_isPlain htext) hwords),
    hs, planFrom_of_total (by rw [hcounts]; rfl) (by rw [hcounts, htotal]), hcounts]
  simp [takeSteps, Word.text]

end Signature

/-! ### Spelled arguments -/

/-- The words by which an argument is given a value: an operand by the value itself, and an option
by one of its spellings with the value after an equals sign or in the next word. -/
inductive Spells (s : Signature) : Argument → String → List String → Prop
  | operand {a : Argument} {value : String} (ha : a.isOption = false) (h : IsPlain value) :
      Spells s a value [value]
  | attached {a : Argument} {name : String} (ha : IsSpelling s name a) (value : String) :
      Spells s a value [name ++ "=" ++ value]
  | apart {a : Argument} {name value : String} (ha : IsSpelling s name a) (h : IsPlain value) :
      Spells s a value [name, value]

/-- The words of a command line by which an argument is given a value. -/
inductive Word.Spell : Argument → String → List Word → Prop
  | operand {a : Argument} (ha : a.isOption = false) (value : String) : Spell a value [.plain value]
  | attached {a : Argument} (ha : a.isOption = true) (text name value : String) :
      Spell a value [.option text a name (some value)]
  | apart {a : Argument} (ha : a.isOption = true) (text name value : String) :
      Spell a value [.option text a name none, .plain value]

variable {given : List (Argument × String)}

/-- The texts that spell arguments are the texts of words that do. -/
theorem exists_ofTexts?_of_spells (hs : ∀ entry ∈ s.spellings, '=' ∉ entry.1.toList)
    {texts : List (List String)} (h : List.Forall₂ (fun g ts => Spells s g.1 g.2 ts) given texts) :
    ∃ words, Word.ofTexts? s texts.flatten = .ok words.flatten ∧
      List.Forall₂ (fun g ws => Word.Spell g.1 g.2 ws) given words := by
  induction h with
  | nil => exact ⟨[], rfl, .nil⟩
  | @cons g ts given texts hg _ ih =>
    obtain ⟨a, value⟩ := g
    obtain ⟨words, hwords, hspell⟩ := ih
    cases hg with
    | operand ha hvalue =>
      exact ⟨[.plain value] :: words, Word.ofTexts?_cons hvalue.ne_separatorText
        (Word.ofText?_of_isPlain hvalue) hwords, .cons (.operand ha value) hspell⟩
    | attached ha =>
      exact ⟨[_] :: words, Word.ofTexts?_cons (attached_ne_separatorText _ _)
        (Word.ofText?_attached hs ha value) hwords,
        .cons (.attached ha.isOption _ _ value) hspell⟩
    | apart ha hvalue =>
      exact ⟨[_, _] :: words, Word.ofTexts?_cons ha.ne_separatorText (Word.ofText?_spelling ha)
        (Word.ofTexts?_cons hvalue.ne_separatorText (Word.ofText?_of_isPlain hvalue) hwords),
        .cons (.apart ha.isOption _ _ value) hspell⟩

/-- The words of options alone begin with an option. -/
theorem eq_nil_or_isOption_of_spell {words : List (List Word)}
    (h : List.Forall₂ (fun g ws => Word.Spell g.1 g.2 ws) given words)
    (hoptions : ∀ g ∈ given, g.1.isOption = true) :
    words.flatten = [] ∨ ∃ w ws, words.flatten = w :: ws ∧ w.isOption = true := by
  cases h with
  | nil => exact .inl rfl
  | cons hg =>
    cases hg with
    | operand ha => exact absurd (hoptions _ List.mem_cons_self) (Bool.eq_false_iff.mp ha)
    | attached | apart => exact .inr ⟨_, _, rfl, rfl⟩

/-- The last operand takes a word if nothing or an option follows. -/
theorem planFrom_operand {words : List Word} (ha : a.arity = .one)
    (h : words = [] ∨ ∃ w ws, words = w :: ws ∧ w.isOption = true) :
    s.planFrom [a] (.plain text :: words) = .take a [text] :: s.planFrom [] words := by
  have hseparators : separators words = 0 := by
    rcases h with rfl | ⟨w, ws, rfl, hw⟩
    · rfl
    · cases w with
      | separator | plain => cases hw
      | unknown | option => rfl
  have haround : aroundPlain? (.plain text :: words) = some (1, 0) := by
    change some (0 + 1, separators words) = _
    rw [hseparators]
  have htakeable : takeable a.arity (.plain text :: words) = [1] := by
    simp only [takeable, ha, haround]
    rfl
  have hcounts : assignable [a] (.plain text :: words) = [1] := by
    change (([1].findSome? fun n => counts? ([a].take n) (.plain text :: words)).getD []) = _
    simp only [List.findSome?_cons, List.take_succ_cons, List.take_zero,
      counts?_singleton htakeable]
    rfl
  rcases h with rfl | ⟨w, ws, rfl, hw⟩
  · rw [planFrom_of_total (by rw [hcounts]; rfl) (by rw [hcounts]; rfl), hcounts,
      Signature.planFrom]
    rfl
  · rw [Signature.planFrom]
    · rw [if_pos (by simp [hw]), dif_pos (by rw [hcounts]; decide)]
      dsimp only
      rw [hcounts]
      rfl
    · simp
    · simp

theorem planFrom_attached {pending : List Argument} {words : List Word} (ha : a.arity = .one)
    (value : String) :
    s.planFrom pending (.option text a name (some value) :: words) =
      .take a [value] :: s.planFrom pending words := by
  rw [Signature.planFrom, if_neg (by rw [ha]; decide)]

theorem planFrom_apart {pending : List Argument} {words : List Word} (ha : a.arity = .one)
    (value : String) :
    s.planFrom pending (.option text a name none :: .plain value :: words) =
      .take a [value] :: s.planFrom pending words := by
  rw [Signature.planFrom, if_neg (by rw [ha]; decide)]
  · rfl
  · rfl

/-- Spelled arguments take their values one after the other, if there is one operand at most. -/
theorem planFrom_of_spell {pending : List Argument} {words : List (List Word)}
    (h : List.Forall₂ (fun g ws => Word.Spell g.1 g.2 ws) given words)
    (harity : ∀ g ∈ given, g.1.arity = .one)
    (hpending : (given.map (·.1)).filter (fun a => !a.isOption) = pending)
    (hone : pending.length ≤ 1) :
    s.planFrom pending words.flatten = given.map fun g => .take g.1 [g.2] := by
  induction h generalizing pending with
  | nil =>
    cases hpending
    rw [List.flatten_nil, Signature.planFrom]
    rfl
  | @cons g ws given words hg hrest ih =>
    obtain ⟨a, value⟩ := g
    rw [List.forall_mem_cons] at harity
    rw [List.map_cons, List.filter_cons] at hpending
    cases hg with
    | operand ha =>
      -- The operands that follow are none, so options follow, or nothing.
      rw [ha, Bool.not_false, if_pos rfl] at hpending
      subst hpending
      have hnone : (given.map (·.1)).filter (fun a => !a.isOption) = [] := by
        rw [List.length_cons] at hone
        exact List.eq_nil_of_length_eq_zero (by omega)
      have hoptions : ∀ g ∈ given, g.1.isOption = true := by
        simpa [List.filter_eq_nil_iff] using hnone
      rw [hnone, List.flatten_cons, List.cons_append, List.nil_append,
        planFrom_operand harity.1 (eq_nil_or_isOption_of_spell hrest hoptions),
        ih harity.2 hnone (Nat.zero_le 1), List.map_cons]
    | attached ha =>
      rw [ha, if_neg (by decide)] at hpending
      rw [List.flatten_cons, List.cons_append, List.nil_append, planFrom_attached harity.1,
        ih harity.2 hpending hone, List.map_cons]
    | apart ha =>
      rw [ha, if_neg (by decide)] at hpending
      rw [List.flatten_cons, List.cons_append, List.cons_append, List.nil_append,
        planFrom_apart harity.1, ih harity.2 hpending hone, List.map_cons]

/-- A command line that spells values for arguments assigns them these values, in whichever order
they come, if the only operand of the command is among the arguments. -/
theorem Signature.plan?_of_spells {texts : List (List String)}
    (hs : ∀ entry ∈ s.spellings, '=' ∉ entry.1.toList)
    (h : List.Forall₂ (fun g ts => Spells s g.1 g.2 ts) given texts)
    (harity : ∀ g ∈ given, g.1.arity = .one)
    (hoperands : (given.map (·.1)).filter (fun a => !a.isOption) =
      s.arguments.filter fun a => !a.isOption)
    (hone : (s.arguments.filter fun a => !a.isOption).length ≤ 1) :
    s.plan? texts.flatten = .ok (given.map fun g => .take g.1 [g.2]) := by
  obtain ⟨words, hwords, hspell⟩ := exists_ofTexts?_of_spells hs h
  rw [plan?_eq_ok hwords, planFrom_of_spell hspell harity hoperands hone]

end Determinize.CommandLine
