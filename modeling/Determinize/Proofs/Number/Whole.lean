import Determinize.Config.Document
import Determinize.Json.Encode
import Determinize.Proofs.Number.Text

/-!
# Numbers of documents are read back

A numeral denotes the double that is nearest to it. What the reader of numerals decides by the
length of a numeral alone, rounding would decide in the same way: what is too short rounds to zero,
and what is too long to infinity.

The numbers of loaded data are doubles, and integers with the shortest digits of whole doubles,
zeros behind them up to the point. The text of either is a numeral from which the double is
nearest.

## Main results

* `Double.ofDecimal_eq_nearestOfSign` — what a numeral denotes.
* `Double.shortestDigits_nonneg` — the digits of a whole double end before the point.
* `Value.exists_readsAs_ofWholeDouble` — the numbers of loaded data are read back.
-/

namespace Determinize

variable {x : Rat}

/-! ### Numerals that are too short or too long -/

/-- The length of a numeral tells its size. -/
theorem zpow_length_toDigits {m : Nat} (hm : m ≠ 0) (e : Int) :
    (10 : Rat) ^ ((Nat.toDigits 10 m).length + e - 1) ≤ m * (10 : Rat) ^ e ∧
      m * (10 : Rat) ^ e < (10 : Rat) ^ ((Nat.toDigits 10 m).length + e) := by
  have hone : (1 : Rat) ≤ m := by exact_mod_cast Nat.one_le_iff_ne_zero.mpr hm
  obtain ⟨hlow, hhigh⟩ := zpow_length_toDigits_floor hone
  have hfloor : (m : Rat).floor = m := Rat.floor_intCast m
  rw [hfloor, Int.toNat_natCast] at hlow hhigh
  have hstep : (0 : Rat) < (10 : Rat) ^ e := by positivity
  constructor
  · rw [add_sub_right_comm, zpow_add₀ (by norm_num)]
    exact mul_le_mul_of_nonneg_right hlow hstep.le
  · rw [zpow_add₀ (by norm_num)]
    exact mul_lt_mul_of_pos_right hhigh hstep

/-- What is less than half of the finest step rounds to zero. -/
theorem roundToGrid_eq_zero (hx : 0 ≤ x) (hsmall : x < (2 : Rat) ^ (-1075 : Int)) :
    roundToGrid x = 0 := by
  have hstep : (2 : Rat) ^ (-1074 : Int) ≤ (2 : Rat) ^ gridExponent x :=
    zpow_le_zpow_right₀ one_le_two (by rw [gridExponent]; omega)
  have hhalf : (2 : Rat) ^ (-1075 : Int) = (2 : Rat) ^ (-1074 : Int) / 2 := by
    rw [(by norm_num : (-1075 : Int) = -1074 - 1), zpow_sub_one₀ two_ne_zero, div_eq_mul_inv]
  have hround := roundToGrid_eq (y := x) (n := 0) (by
    rw [Int.cast_zero, zero_mul, sub_zero, abs_of_nonneg hx]
    linarith)
  rw [hround, Int.cast_zero, zero_mul]

/-- Rounding takes at most half of a number away if the number is not less than the finest step. -/
theorem half_le_roundToGrid (hx : (2 : Rat) ^ (-1074 : Int) ≤ x) : x / 2 ≤ roundToGrid x := by
  have hpos : 0 < x := hx.trans_lt' (by positivity)
  have hstep : (0 : Rat) < (2 : Rat) ^ gridExponent x := by positivity
  have hle : (2 : Rat) ^ gridExponent x ≤ x := by
    rw [gridExponent]
    rcases max_cases (binaryExponent x - 52) (-1074) with ⟨hmax, -⟩ | ⟨hmax, -⟩
    · calc (2 : Rat) ^ max (binaryExponent x - 52) (-1074) ≤ (2 : Rat) ^ Int.log 2 x :=
            zpow_le_zpow_right₀ one_le_two (by rw [hmax, binaryExponent_eq_log hpos]; omega)
        _ ≤ x := Int.zpow_log_le_self one_lt_two hpos
    · rwa [hmax]
  have hnear := (abs_le.mp (abs_sub_roundHalfEven_le (x / (2 : Rat) ^ gridExponent x))).2
  have hround := mul_le_mul_of_nonneg_right hnear hstep.le
  rw [sub_mul, div_mul_cancel₀ _ hstep.ne'] at hround
  rw [roundToGrid]
  linarith

/-- What is more than any double rounds to what is too large for one. -/
theorem two_pow_le_roundToGrid (hx : (2 : Rat) ^ (1075 : Int) ≤ x) :
    (2 : Rat) ^ (1024 : Nat) ≤ roundToGrid x :=
  calc (2 : Rat) ^ (1024 : Nat) = (2 : Rat) ^ (1025 : Int) / 2 := by
        rw [← zpow_natCast, ← mul_div_cancel_right₀ ((2 : Rat) ^ _) two_ne_zero,
          ← zpow_add_one₀ two_ne_zero]
        rfl
    _ ≤ (2 : Rat) ^ (1075 : Int) / 2 := by
        gcongr <;> norm_num
    _ ≤ x / 2 := by gcongr
    _ ≤ roundToGrid x :=
        half_le_roundToGrid (hx.trans' (zpow_le_zpow_right₀ one_le_two (by norm_num)))

theorem two_pow_le_ten_pow : (2 : Rat) ^ (1075 : Int) ≤ (10 : Rat) ^ (400 : Int) :=
  calc (2 : Rat) ^ (1075 : Int) = ((2 : Rat) ^ 43) ^ 25 := by
        rw [← pow_mul]
        exact zpow_natCast 2 1075
    _ ≤ ((10 : Rat) ^ 16) ^ 25 := by
        gcongr
        norm_num
    _ = (10 : Rat) ^ (400 : Int) := by
        rw [← pow_mul]
        exact (zpow_natCast 10 400).symm

namespace Double

/-- What is rounded to a finite double is not much larger than the largest one. -/
theorem lt_of_nearest_eq_finite {y : Rat} (hy : 0 ≤ y) (h : nearest y = finite x) :
    y < (2 : Rat) ^ (1075 : Int) := by
  refine not_le.mp fun hle => ?_
  have hpos : 0 < y := hle.trans_lt' (by positivity)
  have hround := two_pow_le_roundToGrid hle
  have hne : roundToGrid y ≠ 0 := (hround.trans_lt' (by positivity)).ne'
  rw [nearest, Rat.abs_of_nonneg hy, nearestOfSign, if_neg hpos.ne'] at h
  simp only [if_neg hne, if_pos hround] at h
  cases h

/-- A numeral denotes the nearest double, however long it is. -/
theorem ofDecimal_eq_nearestOfSign (negative : Bool) (m : Nat) (e : Int) :
    ofDecimal negative m e = nearestOfSign negative (m * (10 : Rat) ^ e) := by
  by_cases hm : m = 0
  · rw [ofDecimal, nearestOfSign, hm]
    simp
  obtain ⟨hlow, hhigh⟩ := zpow_length_toDigits hm e
  have hpos : (0 : Rat) < m * (10 : Rat) ^ e := by positivity
  rw [ofDecimal]
  generalize (m : Rat) * (10 : Rat) ^ e = x at *
  generalize ((Nat.toDigits 10 m).length : Int) + e = size at *
  split
  · rename_i hsmall
    have hround : roundToGrid x = 0 := by
      refine roundToGrid_eq_zero hpos.le ?_
      calc x < (10 : Rat) ^ size := hhigh
        _ ≤ (10 : Rat) ^ (-400 : Int) := zpow_le_zpow_right₀ (by norm_num) (by omega)
        _ ≤ (2 : Rat) ^ (-1075 : Int) := by
          rw [zpow_neg, zpow_neg]
          exact inv_anti₀ (by positivity) two_pow_le_ten_pow
    rw [nearestOfSign, if_neg hpos.ne', if_pos hround]
  · split
    · rename_i hlarge
      have hround : (2 : Rat) ^ (1024 : Nat) ≤ roundToGrid x :=
        two_pow_le_roundToGrid (two_pow_le_ten_pow.trans
          ((zpow_le_zpow_right₀ (by norm_num) (by omega)).trans hlow))
      have hne : roundToGrid x ≠ 0 := (hround.trans_lt' (by positivity)).ne'
      rw [nearestOfSign, if_neg hpos.ne']
      simp only [if_neg hne, if_pos hround]
    · rfl

/-! ### The digits of a whole double -/

theorem le_stripZeros_snd (fuel m : Nat) (k : Int) : k ≤ (stripZeros fuel m k).2 := by
  induction fuel generalizing m k with
  | zero => exact le_rfl
  | succ fuel ih =>
    rw [stripZeros]
    split
    · exact (Int.le_add_one le_rfl).trans (ih _ _)
    · exact le_rfl

theorem snd_of_numeralOfLength? {n : Nat} {r : Nat × Int} (h : numeralOfLength? x n = some r) :
    r.2 = decimalExponent x - n := by
  rw [numeralOfLength?] at h
  split at h
  · exact (Option.some.inj h) ▸ rfl
  · exact (Option.some.inj h) ▸ rfl
  · exact (Option.some.inj h) ▸ rfl
  · cases h

/-- A whole double reads back from all of its digits. -/
theorem isSome_numeralOfLength?_of_den (h : (finite x).Representable) (hden : x.den = 1) {n : Nat}
    (hn : decimalExponent x = n) : (numeralOfLength? x n).isSome = true := by
  have hnum : (x.num : Rat) = x := Rat.den_eq_one_iff x |>.mp hden
  have hwhole : ((x.floor : Int) : Rat) = x := by
    rw [← hnum, Rat.floor_intCast]
  have hreads : readsBack x 0 x.floor = true := by
    rw [readsBack, decide_eq_true_iff, hwhole, zpow_zero, mul_one]
    exact h
  rw [numeralOfLength?, hn, sub_self, zpow_zero, div_one]
  simp only [hreads]
  split
  · rfl
  · rfl
  · rename_i hfails _
    cases hfails
  · rename_i hfails _
    cases hfails

/-- The digits of a whole double end before the point. -/
theorem shortestDigits_nonneg (hx : 0 < x) (h : (finite x).Representable) (hden : x.den = 1) :
    0 ≤ (shortestDigits x).2 := by
  have hone : 1 ≤ x := by
    have hnum : (x.num : Rat) = x := (Rat.den_eq_one_iff x).mp hden
    rw [← hnum]
    exact_mod_cast Rat.num_pos.mpr hx
  obtain ⟨e, he⟩ : ∃ e : Nat, decimalExponent x = e := by
    refine ⟨(decimalExponent x).toNat, (Int.toNat_of_nonneg ?_).symm⟩
    rw [decimalExponent_eq_log hx]
    exact (Int.zpow_le_iff_le_log (by norm_num) hx).mp (by simpa using hone)
  have hwhole := isSome_numeralOfLength?_of_den h hden he
  obtain ⟨n, m, k, hn, hbefore, hdigits⟩ := exists_shortestDigits_eq hx h
  have hle : n ≤ e := not_lt.mp fun hlt => by simp [hbefore e hlt] at hwhole
  have hk := snd_of_numeralOfLength? hn
  have hstrip := le_stripZeros_snd 18 m k
  rw [hdigits]
  omega

/-- The shortest digits of a whole double have zeros behind them. -/
theorem exists_shortestDigits_whole (hx : 0 < x) (h : (finite x).Representable)
    (hden : x.den = 1) : ∃ m e : Nat, shortestDigits x = (m, (e : Int)) ∧ m ≠ 0 ∧
      nearest (m * (10 : Rat) ^ (e : Int)) = finite x := by
  have hnearest := nearest_shortestDigits hx h
  have hnonneg := shortestDigits_nonneg hx h hden
  generalize shortestDigits x = digits at *
  obtain ⟨m, k⟩ := digits
  obtain ⟨e, rfl⟩ := Int.eq_ofNat_of_zero_le hnonneg
  refine ⟨m, e, rfl, ?_, hnearest⟩
  rintro rfl
  rw [Nat.cast_zero, zero_mul] at hnearest
  injection (representable_zero false).symm.trans hnearest with hzero
  exact hx.ne hzero

end Double

/-- The integer that stands for a whole double has at most 400 digits. -/
theorem Value.natAbs_lt_of_ofWholeDouble {r : Rat} (h : (Double.finite r).Representable) {n : Int}
    (hn : ofWholeDouble (.finite r) = .int n) : n.natAbs < 10 ^ 400 := by
  rw [ofWholeDouble, Double.toRat?] at hn
  dsimp only at hn
  split at hn
  · rw [← int.inj hn]
    positivity
  rename_i hzero
  have hpos : 0 < r.abs :=
    lt_of_le_of_ne Rat.abs_nonneg fun h => hzero (Rat.abs_eq_zero_iff.mp h.symm)
  split at hn
  · rename_i hden
    have hdenabs : r.abs.den = 1 := by
      rcases le_total 0 r with hr | hr
      · rwa [Rat.abs_of_nonneg hr]
      · rwa [Rat.abs_of_nonpos hr, Rat.den_neg_eq_den]
    obtain ⟨m, e, hdigits, -, hnearest⟩ :=
      Double.exists_shortestDigits_whole hpos (h.abs hzero) hdenabs
    rw [hdigits] at hn
    have habs : n.natAbs = m * 10 ^ e := by
      rw [← int.inj hn, Int.natAbs_mul, Int.natAbs_mul, Int.natAbs_natCast]
      have hsign : (if r < 0 then (-1 : Int) else 1).natAbs = 1 := by split <;> rfl
      rw [hsign, one_mul]
      exact congrArg (m * ·) (Int.natAbs_pow 10 e)
    have hlt := (Double.lt_of_nearest_eq_finite (by positivity) hnearest).trans_le
      two_pow_le_ten_pow
    rw [habs]
    exact_mod_cast hlt
  · cases hn

/-! ### Reading back -/

theorem negative_of_readUnsigned? {cs rest : List Char} {n : Numeral}
    (h : Numeral.readUnsigned? cs = some (n, rest)) : n.negative = false := by
  rw [Numeral.readUnsigned?] at h
  split at h
  · cases h
  · exact (Prod.mk.inj (Option.some.inj h)).1 ▸ rfl

theorem ReadsAs.negative_eq_false {cs : List Char} {negative : Bool} {n : Numeral}
    (h : ReadsAs cs negative (some n)) : n.negative = false := by
  obtain ⟨body, -, -, -, hread⟩ := h
  exact negative_of_readUnsigned? (hread [] (by simp [Numeral.Ends]))

/-- A numeral from which a double is nearest denotes the double. -/
theorem Numeral.toDouble_eq_finite {n : Numeral} (hnegative : n.negative = false)
    (h : Double.nearest (n.digits * (10 : Rat) ^ n.exponent) = .finite x) :
    n.toDouble = .finite x := by
  have hnonneg : (0 : Rat) ≤ n.digits * (10 : Rat) ^ n.exponent := by positivity
  rw [toDouble, hnegative, Double.ofDecimal_eq_nearestOfSign, ← h, Double.nearest,
    Rat.abs_of_nonneg hnonneg, decide_eq_false (not_lt.mpr hnonneg)]

/-- Digits with zeros behind them, and a sign. -/
theorem readsAs_mul_pow {m : Nat} (hm : m ≠ 0) (e : Nat) (negative : Prop) [Decidable negative] :
    ReadsAs (toString ((if negative then -1 else 1) * (m : Int) * Int.pow 10 e)).toList
      (decide negative) (some ⟨false, m * 10 ^ e, 0, true⟩) := by
  have hpos : 0 < m * 10 ^ e := Nat.mul_pos (Nat.pos_of_ne_zero hm) (by positivity)
  have hpow : (m : Int) * Int.pow 10 e = (m * 10 ^ e : Nat) := by
    push_cast
    rfl
  rw [mul_assoc, hpow]
  generalize m * 10 ^ e = n at *
  by_cases hnegative : negative
  · have hread := readsAs_int (-n)
    rw [decide_eq_true (by omega), Int.natAbs_neg, Int.natAbs_natCast] at hread
    rwa [if_pos hnegative, decide_eq_true hnegative, neg_one_mul]
  · have hread := readsAs_int n
    rw [decide_eq_false (by omega), Int.natAbs_natCast] at hread
    rwa [if_neg hnegative, decide_eq_false hnegative, one_mul]

/-- The text of a number of loaded data is a numeral that denotes the size of the number. -/
theorem Value.exists_readsAs_ofWholeDouble {r : Rat} (h : (Double.finite r).Representable) :
    ∃ n, ReadsAs (Json.write (ofWholeDouble (.finite r))) (decide (r < 0)) (some n) ∧
      n.toDouble = .finite r.abs := by
  rw [ofWholeDouble, Double.toRat?]
  dsimp only
  split
  · rename_i hzero
    subst hzero
    exact ⟨_, readsAs_int 0, rfl⟩
  rename_i hzero
  have hpos : 0 < r.abs :=
    lt_of_le_of_ne Rat.abs_nonneg fun h => hzero (Rat.abs_eq_zero_iff.mp h.symm)
  split
  · rename_i hden
    have hdenabs : r.abs.den = 1 := by
      rcases le_total 0 r with hr | hr
      · rwa [Rat.abs_of_nonneg hr]
      · rwa [Rat.abs_of_nonpos hr, Rat.den_neg_eq_den]
    obtain ⟨m, e, hdigits, hm, hnearest⟩ :=
      Double.exists_shortestDigits_whole hpos (h.abs hzero) hdenabs
    rw [hdigits]
    refine ⟨_, readsAs_mul_pow hm e (r < 0), Numeral.toDouble_eq_finite rfl ?_⟩
    rw [zpow_zero, mul_one, ← hnearest]
    push_cast
    rfl
  · obtain ⟨n, hread, hsize⟩ := Double.exists_readsAs h
    cases hsize with
    | @some n _ hn => exact ⟨n, hread, Numeral.toDouble_eq_finite hread.negative_eq_false hn.2⟩

end Determinize
