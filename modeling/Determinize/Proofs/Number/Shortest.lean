import Determinize.Number.Shortest
import Determinize.Proofs.Number.Rounding

/-!
# The shortest numeral of a double reads back as it

The candidates for the numeral of a double are its neighbours on a decimal grid. With seventeen
digits, the nearer one differs from the double by less than what rounding undoes, so one is found on
this grid at the latest. What is found reads back, and the zeros at its end carry nothing.

## Main results

* `decimalExponent_eq_log` — the decimal exponent of a number.
* `Double.exists_numeralOfLength?_sixteen` — seventeen digits suffice.
* `Double.nearest_shortestDigits` — the shortest numeral reads back.
-/

namespace Determinize

variable {x : Rat}

/-! ### Decimal exponents -/

/-- A number has as many digits as its whole part. -/
theorem zpow_length_toDigits_floor (hx : 1 ≤ x) :
    (10 : Rat) ^ ((Nat.toDigits 10 x.floor.toNat).length - 1 : Int) ≤ x ∧
      x < (10 : Rat) ^ ((Nat.toDigits 10 x.floor.toNat).length : Int) := by
  obtain ⟨n, hn⟩ : ∃ n : Nat, x.floor = n :=
    ⟨x.floor.toNat, (Int.toNat_of_nonneg (Rat.le_floor_iff.mpr
      (by exact_mod_cast zero_le_one.trans hx))).symm⟩
  have hone : 1 ≤ n := by
    have : (1 : Int) ≤ x.floor := Rat.le_floor_iff.mpr (by exact_mod_cast hx)
    omega
  have hlow : (n : Rat) ≤ x := by exact_mod_cast hn ▸ Rat.floor_le x
  have hhigh : x < (n + 1 : Nat) := by exact_mod_cast hn ▸ Rat.lt_floor_add_one x
  rw [hn, Int.toNat_natCast]
  obtain ⟨l, hl⟩ : ∃ l, (Nat.toDigits 10 n).length = l + 1 :=
    Nat.exists_eq_add_one_of_ne_zero Nat.length_toDigits_pos.ne'
  have hdigits (k : Nat) : l + 1 ≤ k + 1 ↔ n < 10 ^ (k + 1) :=
    hl ▸ Nat.length_toDigits_le_iff (by norm_num) k.succ_pos
  have hupper : n + 1 ≤ 10 ^ (l + 1) := (hdigits l).mp le_rfl
  have hlower : 10 ^ l ≤ n := by
    cases l with
    | zero => simpa using hone
    | succ l => exact not_lt.mp fun h => by simpa using (hdigits l).mpr h
  rw [hl]
  constructor
  · calc (10 : Rat) ^ (((l + 1 : Nat) : Int) - 1) = ((10 ^ l : Nat) : Rat) := by
          rw [Nat.cast_add_one, add_sub_cancel_right, zpow_natCast, Nat.cast_pow, Nat.cast_ofNat]
      _ ≤ n := by exact_mod_cast hlower
      _ ≤ x := hlow
  · calc x < (n + 1 : Nat) := hhigh
      _ ≤ ((10 ^ (l + 1) : Nat) : Rat) := by exact_mod_cast hupper
      _ = (10 : Rat) ^ ((l + 1 : Nat) : Int) := by
          rw [zpow_natCast, Nat.cast_pow, Nat.cast_ofNat]

theorem decimalExponent_eq_log (hx : 0 < x) : decimalExponent x = Int.log 10 x := by
  symm
  rw [decimalExponent]
  split
  · rename_i hone
    obtain ⟨hlow, hhigh⟩ := zpow_length_toDigits_floor hone
    exact log_eq_of_le_of_lt (by norm_num) hlow (by rwa [sub_add_cancel])
  · rename_i hone
    obtain ⟨hlow, hhigh⟩ := zpow_length_toDigits_floor
      ((one_le_div hx).mpr (not_le.mp hone).le)
    generalize ((Nat.toDigits 10 (1 / x).floor.toNat).length : Int) = l at *
    have hle : x ≤ (10 : Rat) ^ (-l + 1) := by
      rw [neg_add_eq_sub, ← neg_sub, zpow_neg, ← one_div]
      exact (le_div_comm₀ (by positivity) hx).mp hlow
    have hlt : (10 : Rat) ^ (-l) < x := by
      rw [zpow_neg, ← one_div]
      exact (div_lt_comm₀ hx (by positivity)).mp hhigh
    dsimp only
    split
    · rename_i hguess
      refine log_eq_of_le_of_lt (by norm_num) hguess (hle.trans_lt ?_)
      exact zpow_lt_zpow_right₀ (by norm_num) (lt_add_one _)
    · rename_i hguess
      exact log_eq_of_le_of_lt (by norm_num) hlt.le (not_le.mp hguess)

/-! ### Reading back -/

namespace Double

/-- Numerals that have seventeen digits in common with a double read back as it. -/
theorem readsBack_of_near (hx : 0 < x) (h : (finite x).Representable) {k m : Int}
    (hk : 10 ^ 16 * (10 : Rat) ^ k ≤ x) (hm : |m * (10 : Rat) ^ k - x| ≤ (10 : Rat) ^ k / 2) :
    readsBack x k m = true := by
  have hstep : (0 : Rat) < (10 : Rat) ^ k := by positivity
  obtain ⟨hgrid, hlt⟩ := h.roundToGrid_abs hx.ne'
  rw [Rat.abs_of_nonneg hx.le] at hgrid hlt
  have hpos : 0 < m * (10 : Rat) ^ k := by linarith [abs_le.mp hm]
  have hround := roundToGrid_eq_of_near (y := m * (10 : Rat) ^ k) hx hgrid
    (by linarith)
  rw [readsBack, decide_eq_true_iff]
  exact nearest_eq_finite hx hlt hpos hround

/-- What is found reads back. -/
theorem readsBack_of_numeralOfLength? (hx : 0 < x) {n m : Nat} {k : Int}
    (h : numeralOfLength? x n = some (m, k)) : readsBack x k m = true := by
  have hlow : 0 ≤ (x / (10 : Rat) ^ (decimalExponent x - n)).floor :=
    Rat.le_floor_iff.mpr (by exact_mod_cast (div_pos hx (by positivity)).le)
  rw [numeralOfLength?] at h
  split at h <;> rename_i hreads hreads'
  · injection h with h
    injection h with hm hk
    rw [← hm, ← hk]
    split
    · rwa [Int.toNat_of_nonneg hlow]
    · rwa [Int.toNat_of_nonneg (by omega)]
  · injection h with h
    injection h with hm hk
    rwa [← hm, ← hk, Int.toNat_of_nonneg hlow]
  · injection h with h
    injection h with hm hk
    rwa [← hm, ← hk, Int.toNat_of_nonneg (by omega)]
  · cases h

/-- Seventeen digits suffice: one of the two neighbours on the decimal grid is near enough. -/
theorem exists_numeralOfLength?_sixteen (hx : 0 < x) (h : (finite x).Representable) :
    ∃ r, numeralOfLength? x 16 = some r := by
  have hlog : (10 : Rat) ^ decimalExponent x ≤ x := by
    rw [decimalExponent_eq_log hx]
    exact Int.zpow_log_le_self (by norm_num) hx
  have hstep : (0 : Rat) < (10 : Rat) ^ (decimalExponent x - (16 : Nat)) := by positivity
  have hdigits : 10 ^ 16 * (10 : Rat) ^ (decimalExponent x - (16 : Nat)) ≤ x := by
    rwa [← zpow_natCast, ← zpow_add₀ (by norm_num), add_sub_cancel]
  have hreads (m : Int) (hm : |m - x / (10 : Rat) ^ (decimalExponent x - (16 : Nat))| ≤ 1 / 2) :
      readsBack x (decimalExponent x - (16 : Nat)) m = true := by
    refine readsBack_of_near hx h hdigits ?_
    have hdistance := mul_le_mul_of_nonneg_right hm hstep.le
    rwa [← abs_of_pos hstep, ← abs_mul, abs_of_pos hstep, sub_mul, div_mul_cancel₀ _ hstep.ne',
      one_div_mul_eq_div] at hdistance
  have hlow := Rat.floor_le (x / (10 : Rat) ^ (decimalExponent x - (16 : Nat)))
  have hhigh := Rat.lt_floor_add_one (x / (10 : Rat) ^ (decimalExponent x - (16 : Nat)))
  push_cast at hhigh
  rw [numeralOfLength?]
  split
  · exact ⟨_, rfl⟩
  · exact ⟨_, rfl⟩
  · exact ⟨_, rfl⟩
  · rename_i hlowFails hhighFails
    rcases le_total (x / (10 : Rat) ^ (decimalExponent x - (16 : Nat)) -
      (x / (10 : Rat) ^ (decimalExponent x - (16 : Nat))).floor) (1 / 2) with hnear | hnear
    · rw [hreads _ (abs_le.mpr ⟨by linarith, by linarith⟩)] at hlowFails
      exact Bool.noConfusion hlowFails
    · rw [hreads _ (abs_le.mpr ⟨by push_cast; linarith, by push_cast; linarith⟩)] at hhighFails
      exact Bool.noConfusion hhighFails

theorem stripZeros_eq (fuel m : Nat) (k : Int) :
    ((stripZeros fuel m k).1 : Rat) * (10 : Rat) ^ (stripZeros fuel m k).2 =
      m * (10 : Rat) ^ k := by
  induction fuel generalizing m k with
  | zero => rfl
  | succ fuel ih =>
    rw [stripZeros]
    split
    · rename_i hzero
      rw [ih, add_comm k, zpow_add₀ (by norm_num), zpow_one, ← mul_assoc]
      congr 1
      exact_mod_cast Nat.div_mul_cancel (Nat.dvd_of_mod_eq_zero hzero.2)
    · rfl

/-- The shortest numeral is the first that is found, without the zeros at its end. -/
theorem exists_shortestDigits_eq (hx : 0 < x) (h : (finite x).Representable) :
    ∃ n m k, numeralOfLength? x n = some (m, k) ∧ (∀ l < n, numeralOfLength? x l = none) ∧
      shortestDigits x = stripZeros 18 m k := by
  obtain ⟨r, hr⟩ := exists_numeralOfLength?_sixteen hx h
  obtain ⟨⟨m, k⟩, hfound⟩ : ∃ r, (List.range 17).findSome? (numeralOfLength? x) = some r := by
    rw [← Option.isSome_iff_exists, List.findSome?_isSome_iff]
    exact ⟨16, List.mem_range.mpr (by norm_num), hr ▸ rfl⟩
  obtain ⟨before, n, after, hrange, hn, hbefore⟩ := List.findSome?_eq_some_iff.mp hfound
  have hpairwise : (before ++ n :: after).Pairwise (· < ·) := hrange ▸ List.pairwise_lt_range
  have hmem : n ∈ List.range 17 := hrange ▸ List.mem_append_right before List.mem_cons_self
  refine ⟨n, m, k, hn, fun l hl => hbefore l ?_, ?_⟩
  · have hl17 : l ∈ List.range 17 := List.mem_range.mpr (hl.trans (List.mem_range.mp hmem))
    rw [hrange] at hl17
    rcases List.mem_append.mp hl17 with hl' | hl'
    · exact hl'
    · rcases List.mem_cons.mp hl' with rfl | hl'
      · exact absurd hl (lt_irrefl l)
      · have hafter := (List.pairwise_cons.mp (List.pairwise_append.mp hpairwise).2.1).1 l hl'
        exact absurd hl hafter.not_gt
  · rw [shortestDigits, hfound]
    rfl

/-- The shortest numeral of a positive double reads back as it. -/
theorem nearest_shortestDigits (hx : 0 < x) (h : (finite x).Representable) :
    nearest ((shortestDigits x).1 * (10 : Rat) ^ (shortestDigits x).2) = finite x := by
  obtain ⟨n, m, k, hn, -, hdigits⟩ := exists_shortestDigits_eq hx h
  have hreads := readsBack_of_numeralOfLength? hx hn
  rw [readsBack, decide_eq_true_iff] at hreads
  rw [hdigits, stripZeros_eq]
  exact_mod_cast hreads

end Double

end Determinize
