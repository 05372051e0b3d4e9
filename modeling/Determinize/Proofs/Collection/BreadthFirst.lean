import Determinize.Proofs.Collection.Search
import Mathlib.Data.List.Induction
import Mathlib.Data.List.Lex
import Mathlib.Data.Prod.Lex

/-!
# Breadth-first searches meet the nodes in the order of their least words

Let the successors of a node be given by letters, each with a rank, in ascending order of the ranks.
A word leads from the root of a search to a node. Words are compared by length first, and words of
one length letter by letter.

A breadth-first search meets the nodes in the order of the least words that lead to them. The words
by which it meets nodes are ascending: the words of the waiting nodes go on from nodes that were
expanded before, in the same order. And they are least: in the end every word over the letters has
been passed, that is, a word that is not greater has led to an equal node.

## Main definitions

* `wordKey` — what words are compared by.
* `Search.Ascending` — the words by which a search has met its nodes.

## Main results

* `Search.Ascending.expand`, `Search.Ascending.run` — steps and runs.
* `Search.Ascending.exists_le` — all words have been passed at the end of a run.
-/

namespace Determinize

/-! ### The order of words -/

section Words

variable {α : Type} {rank : α → Nat} {u v : List α} {a b : α}

/-- The length and the ranks of the letters of a word. -/
def wordKey (rank : α → Nat) (word : List α) : Nat ×ₗ List Nat :=
  toLex (word.length, word.map rank)

theorem wordKey_lt_iff : wordKey rank u < wordKey rank v ↔
    u.length < v.length ∨ u.length = v.length ∧ u.map rank < v.map rank :=
  Prod.Lex.toLex_lt_toLex

theorem map_append_lt_map_append (hlength : u.length = v.length)
    (h : u.map rank < v.map rank) : (u ++ [a]).map rank < (v ++ [b]).map rank := by
  induction u generalizing v with
  | nil =>
    rw [List.eq_nil_of_length_eq_zero hlength.symm] at h
    exact absurd h (lt_irrefl _)
  | cons c u ih =>
    cases v with
    | nil => simp at hlength
    | cons d v =>
      simp only [List.length_cons, Nat.add_right_cancel_iff] at hlength
      rcases List.cons_lt_cons_iff.mp h with hcd | ⟨hcd, h⟩
      · exact List.cons_lt_cons_iff.mpr (Or.inl hcd)
      · exact List.cons_lt_cons_iff.mpr (Or.inr ⟨hcd, ih hlength h⟩)

/-- Words that go on from a smaller word are smaller, whatever the letter is. -/
theorem wordKey_append_lt_of_lt (h : wordKey rank u < wordKey rank v) :
    wordKey rank (u ++ [a]) < wordKey rank (v ++ [b]) := by
  rw [wordKey_lt_iff] at h ⊢
  rw [List.length_append, List.length_append]
  exact h.imp (Nat.add_lt_add_right · 1) fun ⟨hlength, hlt⟩ =>
    ⟨congrArg (· + 1) hlength, map_append_lt_map_append hlength hlt⟩

/-- Words that go on from one word are compared by the last letter. -/
theorem wordKey_append_lt_of_rank_lt (h : rank a < rank b) :
    wordKey rank (u ++ [a]) < wordKey rank (u ++ [b]) := by
  refine wordKey_lt_iff.mpr (Or.inr ⟨by simp, ?_⟩)
  induction u with
  | nil => exact List.cons_lt_cons_iff.mpr (Or.inl h)
  | cons c u ih => exact List.cons_lt_cons_iff.mpr (Or.inr ⟨rfl, ih⟩)

theorem wordKey_append_le (h : wordKey rank u ≤ wordKey rank v) :
    wordKey rank (u ++ [a]) ≤ wordKey rank (v ++ [a]) := by
  rcases h.lt_or_eq with h | h
  · exact (wordKey_append_lt_of_lt h).le
  · obtain ⟨hlength, hranks⟩ := Prod.mk.inj (toLex.injective h)
    simp only [wordKey, List.length_append, List.map_append, hlength, hranks, le_refl]

end Words

/-! ### New successors -/

section Fresh

variable {σ α : Type} [BEq σ] [EquivBEq σ] {rank : α → Nat} {letters : List α}

/-- A set made from the values of letters keeps the values of some of them, of equal ones the value
of the least letter. -/
theorem OrderedSet.exists_toList_ofList_map (f : α → σ)
    (hletters : letters.Pairwise fun a b => rank a < rank b) :
    ∃ kept : List α, kept.Sublist letters ∧ (ofList (letters.map f)).toList = kept.map f ∧
      ∀ a ∈ letters, ∃ b ∈ kept, rank b ≤ rank a ∧ (f b == f a) = true := by
  induction letters using List.reverseRecOn with
  | nil => exact ⟨[], .slnil, rfl, fun _ ha => absurd ha List.not_mem_nil⟩
  | append_singleton letters a ih =>
    obtain ⟨hletters, -, hlast⟩ := List.pairwise_append.mp hletters
    obtain ⟨kept, hsub, hkept, hcover⟩ := ih hletters
    have hofList : ofList ((letters ++ [a]).map f) = (ofList (letters.map f)).insert (f a) := by
      simp [ofList, insertAll]
    rw [hofList, toList_insert]
    split
    · rename_i hold
      refine ⟨kept, hsub.trans (List.sublist_append_left ..), hkept, fun b hb => ?_⟩
      rcases List.mem_append.mp hb with hb | hb
      · exact hcover b hb
      · obtain rfl := List.mem_singleton.mp hb
        obtain ⟨x, hx, hxb⟩ := contains_iff.mp hold
        rw [hkept] at hx
        obtain ⟨c, hc, rfl⟩ := List.mem_map.mp hx
        exact ⟨c, hc, (hlast c (hsub.subset hc) b List.mem_cons_self).le, hxb⟩
    · refine ⟨kept ++ [a], hsub.append (List.Sublist.refl _), by simp [hkept], fun b hb => ?_⟩
      rcases List.mem_append.mp hb with hb | hb
      · obtain ⟨c, hc, hcb⟩ := hcover b hb
        exact ⟨c, List.mem_append_left _ hc, hcb⟩
      · obtain rfl := List.mem_singleton.mp hb
        exact ⟨b, List.mem_append_right _ hb, le_refl _, BEq.rfl⟩

/-- The new successors of a node are met by the least letters that lead to them. -/
theorem Search.exists_fresh_map (s : Search σ) (f : α → σ)
    (hletters : letters.Pairwise fun a b => rank a < rank b) :
    ∃ kept : List α, kept.Sublist letters ∧ s.fresh (letters.map f) = kept.map f ∧
      ∀ a ∈ letters, s.discovered.contains (f a) = true ∨
        ∃ b ∈ kept, rank b ≤ rank a ∧ (f b == f a) = true := by
  obtain ⟨kept, hsub, hkept, hcover⟩ := OrderedSet.exists_toList_ofList_map f hletters
  refine ⟨kept.filter fun a => !s.discovered.contains (f a), List.filter_sublist.trans hsub, ?_,
    fun a ha => ?_⟩
  · rw [fresh, hkept, List.filter_map]
    rfl
  · obtain ⟨b, hb, hba, hequal⟩ := hcover a ha
    cases hold : s.discovered.contains (f a) with
    | true => exact Or.inl rfl
    | false =>
      rw [← OrderedSet.contains_congr _ hequal] at hold
      exact Or.inr ⟨b, List.mem_filter.mpr ⟨hb, by simp [hold]⟩, hba, hequal⟩

end Fresh

/-! ### Breadth-first searches -/

namespace Search

variable {σ α : Type} [BEq σ] {rank : α → Nat} {letters : List α} {step : σ → α → σ} {root : σ}
  {s : Search σ} {done pending : List (List α)}

/-- A search has met its nodes by the words `done ++ pending`, in this order; the nodes that the
words `done` lead to have been expanded. -/
structure Ascending (rank : α → Nat) (letters : List α) (step : σ → α → σ) (root : σ)
    (s : Search σ) (done pending : List (List α)) : Prop where
  discovered : s.discovered.toList = (done ++ pending).map fun w => w.foldl step root
  waiting : s.waiting = pending.map fun w => w.foldl step root
  ascending : (done ++ pending).Pairwise fun u v => wordKey rank u < wordKey rank v
  letter_mem : ∀ w ∈ done ++ pending, ∀ a ∈ w, a ∈ letters
  /-- The words go on from nodes that were expanded. -/
  parent : ∀ w ∈ done ++ pending, w = [] ∨ ∃ u ∈ done, ∃ a, w = u ++ [a]
  nil_mem : [] ∈ done ++ pending
  /-- The words that go on from an expanded node have been passed. -/
  passed : ∀ u ∈ done, ∀ a ∈ letters, ∃ v ∈ done ++ pending,
    wordKey rank v ≤ wordKey rank (u ++ [a]) ∧
      (v.foldl step root == (u ++ [a]).foldl step root) = true

theorem ascending_start (rank : α → Nat) (letters : List α) (step : σ → α → σ) (root : σ) :
    Ascending rank letters step root (start .fifo [root]) [] [[]] where
  discovered := rfl
  waiting := rfl
  ascending := List.pairwise_singleton ..
  letter_mem w hw a ha := by
    rw [List.mem_singleton.mp hw] at ha
    exact absurd ha List.not_mem_nil
  parent w hw := Or.inl (List.mem_singleton.mp hw)
  nil_mem := List.mem_cons_self
  passed u hu := absurd hu List.not_mem_nil

/-- Words that go on from the next word come after all words by which nodes have been met. -/
theorem Ascending.lt_append {w : List α}
    (h : Ascending rank letters step root s done (w :: pending)) (a : α) :
    ∀ u ∈ done ++ w :: pending, wordKey rank u < wordKey rank (w ++ [a]) := by
  intro u hu
  rcases h.parent u hu with rfl | ⟨v, hv, b, rfl⟩
  · exact wordKey_lt_iff.mpr (Or.inl (by simp))
  · exact wordKey_append_lt_of_lt
      ((List.pairwise_append.mp h.ascending).2.2 v hv w List.mem_cons_self)

variable [EquivBEq σ]

/-- A step goes on from the next word by letters in ascending order. -/
theorem Ascending.expand {w : List α}
    (h : Ascending rank letters step root s done (w :: pending))
    (hletters : letters.Pairwise fun a b => rank a < rank b) :
    ∃ kept : List α, Ascending rank letters step root
      (s.expand .fifo fun x => letters.map (step x)) (done ++ [w])
      (pending ++ kept.map (w ++ [·])) := by
  obtain ⟨kept, hsub, hfresh, hcover⟩ := s.exists_fresh_map (step (w.foldl step root)) hletters
  have hwords : done ++ [w] ++ (pending ++ kept.map (w ++ [·])) =
      (done ++ w :: pending) ++ kept.map (w ++ [·]) := by simp
  have hold {v : List α} (hv : v ∈ done ++ w :: pending) :
      v ∈ done ++ [w] ++ (pending ++ kept.map (w ++ [·])) :=
    hwords ▸ List.mem_append_left _ hv
  have hmap : (kept.map (w ++ [·])).map (fun v => v.foldl step root) =
      kept.map (step (w.foldl step root)) := by simp
  refine ⟨kept, ?_⟩
  constructor
  case discovered =>
    rw [toList_discovered_expand h.waiting, hfresh, hwords, List.map_append, ← h.discovered, hmap]
  case waiting =>
    rw [expand_of_waiting_eq_cons h.waiting, hfresh, List.map_append, hmap]
    rfl
  case ascending =>
    rw [hwords, List.pairwise_append]
    refine ⟨h.ascending, ?_, fun u hu v hv => ?_⟩
    · rw [List.pairwise_map]
      exact (hletters.sublist hsub).imp wordKey_append_lt_of_rank_lt
    · obtain ⟨a, -, rfl⟩ := List.mem_map.mp hv
      exact h.lt_append a u hu
  case letter_mem =>
    intro v hv
    rw [hwords] at hv
    rcases List.mem_append.mp hv with hv | hv
    · exact h.letter_mem v hv
    · obtain ⟨a, ha, rfl⟩ := List.mem_map.mp hv
      rw [List.forall_mem_append]
      exact ⟨h.letter_mem w (by simp), List.forall_mem_singleton.mpr (hsub.subset ha)⟩
  case parent =>
    intro v hv
    rw [hwords] at hv
    rcases List.mem_append.mp hv with hv | hv
    · refine (h.parent v hv).imp_right fun ⟨u, hu, ha⟩ => ⟨u, List.mem_append_left _ hu, ha⟩
    · obtain ⟨a, -, rfl⟩ := List.mem_map.mp hv
      exact Or.inr ⟨w, by simp, a, rfl⟩
  case nil_mem => exact hold h.nil_mem
  case passed =>
    intro u hu a ha
    rcases List.mem_append.mp hu with hu | hu
    · obtain ⟨v, hv, hle, hequal⟩ := h.passed u hu a ha
      exact ⟨v, hold hv, hle, hequal⟩
    · obtain rfl := List.mem_singleton.mp hu
      rcases hcover a ha with hfound | ⟨b, hb, hba, hequal⟩
      · obtain ⟨x, hx, hxa⟩ := OrderedSet.contains_iff.mp hfound
        rw [h.discovered] at hx
        obtain ⟨v, hv, rfl⟩ := List.mem_map.mp hx
        exact ⟨v, hold hv, (h.lt_append a v hv).le, by simpa using hxa⟩
      · refine ⟨u ++ [b], hwords ▸ List.mem_append_right _ (List.mem_map.mpr ⟨b, hb, rfl⟩), ?_,
          by simpa using hequal⟩
        rcases hba.lt_or_eq with hlt | heq
        · exact (wordKey_append_lt_of_rank_lt hlt).le
        · simp [wordKey, heq]

/-- At the end of a run, all nodes have been met by ascending words. -/
theorem Ascending.run (h : Ascending rank letters step root s done pending)
    (hletters : letters.Pairwise fun a b => rank a < rank b) (bound : Nat) :
    ∃ done pending, Ascending rank letters step root
      (s.run .fifo (fun x => letters.map (step x)) bound) done pending := by
  induction bound generalizing s done pending with
  | zero => exact ⟨done, pending, h⟩
  | succ bound ih =>
    rw [Search.run]
    cases pending with
    | nil => simpa [h.waiting] using ⟨done, [], h⟩
    | cons w pending =>
      obtain ⟨kept, hstep⟩ := h.expand hletters
      simpa [h.waiting] using ih hstep

/-- Without waiting nodes, every word has been passed: a word that is not greater leads to an equal
node. -/
theorem Ascending.exists_le (h : Ascending rank letters step root s done [])
    (hstep : ∀ x y a, (x == y) = true → (step x a == step y a) = true) {word : List α}
    (hword : ∀ a ∈ word, a ∈ letters) :
    ∃ w ∈ done, wordKey rank w ≤ wordKey rank word ∧
      (w.foldl step root == word.foldl step root) = true := by
  have happend : done ++ [] = done := List.append_nil _
  induction word using List.reverseRecOn with
  | nil => exact ⟨[], happend ▸ h.nil_mem, le_refl _, BEq.rfl⟩
  | append_singleton word a ih =>
    rw [List.forall_mem_append] at hword
    obtain ⟨u, hu, hle, hequal⟩ := ih hword.1
    obtain ⟨w, hw, hle', hequal'⟩ := h.passed u hu a (hword.2 a List.mem_cons_self)
    refine ⟨w, happend ▸ hw, hle'.trans (wordKey_append_le hle), BEq.trans hequal' ?_⟩
    simpa using hstep _ _ a hequal

end Search

end Determinize
