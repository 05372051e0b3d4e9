import Determinize.Number.Double
import Mathlib.Algebra.Order.Field.Power
import Mathlib.Data.Int.Log
import Mathlib.Data.Rat.Floor
import Mathlib.Tactic.Linarith
import Mathlib.Tactic.Positivity
import Mathlib.Tactic.Ring

/-!
# Rounding to doubles

Doubles lie on grids: between two powers of two, neighbouring doubles have the same distance, a
power of two itself, and above a power of two the steps are twice as long as below it. Rounding
moves a number to a neighbour on its grid, and leaves it there.

A double is stored by its exact value, and not every rational number is the value of a double. The
*representable* values are those that rounding leaves as they are; every numeral denotes one.

## Main definitions

* `Double.Representable`.

## Main results

* `binaryExponent_eq_log` — the exponent of a number.
* `roundToGrid_roundToGrid` — rounding twice is rounding once.
* `roundToGrid_eq_of_near` — a number on its grid is the nearest one to all numbers near it.
* `Double.representable_ofDecimal` — numerals denote representable values.
-/

namespace Determinize

variable {x y : Rat}

/-! ### Exponents -/

theorem log_eq_of_le_of_lt {b : Nat} (hb : 1 < b) {e : Int} (h : (b : Rat) ^ e ≤ x)
    (h' : x < (b : Rat) ^ (e + 1)) : Int.log b x = e := by
  have hb' : (0 : Rat) < b := by exact_mod_cast Nat.zero_lt_of_lt hb
  have hx : 0 < x := (zpow_pos hb' e).trans_le h
  have hlow := (Int.zpow_le_iff_le_log hb hx).mp h
  have hhigh := (Int.lt_zpow_iff_log_lt hb hx).mp h'
  omega

theorem binaryExponent_eq_log (hx : 0 < x) : binaryExponent x = Int.log 2 x := by
  have hnum : x.num.natAbs ≠ 0 := by
    have := Rat.num_pos.mpr hx
    omega
  have hquotient : x * x.den = x.num.natAbs := by
    rw [Rat.mul_den_eq_num, Nat.cast_natAbs, abs_of_pos (Rat.num_pos.mpr hx)]
  have hnumLow : (2 : Rat) ^ (Nat.log2 x.num.natAbs : Int) ≤ x.num.natAbs := by
    exact_mod_cast Nat.log2_self_le hnum
  have hnumHigh : (x.num.natAbs : Rat) < (2 : Rat) ^ ((Nat.log2 x.num.natAbs : Int) + 1) := by
    exact_mod_cast Nat.lt_log2_self
  have hdenLow : (2 : Rat) ^ (Nat.log2 x.den : Int) ≤ x.den := by
    exact_mod_cast Nat.log2_self_le x.den_pos.ne'
  have hdenHigh : (x.den : Rat) < (2 : Rat) ^ ((Nat.log2 x.den : Int) + 1) := by
    exact_mod_cast Nat.lt_log2_self
  simp only [binaryExponent]
  generalize (Nat.log2 x.num.natAbs : Int) = a at *
  generalize (Nat.log2 x.den : Int) = b at *
  have hlow : (2 : Rat) ^ (a - b - 1) ≤ x := by
    rw [sub_sub, zpow_sub₀ two_ne_zero, div_le_iff₀ (by positivity)]
    calc (2 : Rat) ^ a ≤ x * x.den := hquotient ▸ hnumLow
      _ ≤ x * 2 ^ (b + 1) := by gcongr
  have hhigh : x < (2 : Rat) ^ (a - b + 1) := by
    rw [sub_add_eq_add_sub, zpow_sub₀ two_ne_zero, lt_div_iff₀ (by positivity)]
    calc x * 2 ^ b ≤ x * x.den := by gcongr
      _ < 2 ^ (a + 1) := hquotient ▸ hnumHigh
  symm
  split
  · rename_i hguess
    exact log_eq_of_le_of_lt one_lt_two hlow (by rwa [sub_add_cancel])
  · rename_i hguess
    exact log_eq_of_le_of_lt one_lt_two (not_lt.mp hguess) hhigh

/-! ### Rounding -/

/-- A number is rounded to an integer that is less than a half away. -/
theorem roundHalfEven_eq {n : Int} (h : |x - n| < 1 / 2) : roundHalfEven x = n := by
  have hlow := Rat.floor_le x
  have hhigh := Rat.lt_floor_add_one x
  obtain ⟨h1, h2⟩ := abs_lt.mp h
  push_cast at hhigh
  rw [roundHalfEven]
  by_cases hn : n ≤ x.floor
  · obtain rfl : n = x.floor := by
      have : (x.floor : Rat) < (n + 1 : Int) := by push_cast; linarith
      have := Int.cast_lt.mp this
      omega
    rw [if_pos (by linarith)]
  · obtain rfl : n = x.floor + 1 := by
      have : (n : Rat) < (x.floor + 2 : Int) := by push_cast; linarith
      have := Int.cast_lt.mp this
      omega
    push_cast at h1 h2
    rw [if_neg (by linarith), if_pos (by linarith)]

theorem abs_sub_roundHalfEven_le (x : Rat) : |x - roundHalfEven x| ≤ 1 / 2 := by
  have hlow := Rat.floor_le x
  have hhigh := Rat.lt_floor_add_one x
  push_cast at hhigh
  rw [roundHalfEven]
  rw [abs_le]
  split_ifs <;> push_cast <;> constructor <;> linarith

theorem roundHalfEven_nonneg (hx : 0 ≤ x) : 0 ≤ roundHalfEven x := by
  have hnear := abs_le.mp (abs_sub_roundHalfEven_le x)
  have : ((-1 : Int) : Rat) < roundHalfEven x := by
    push_cast
    linarith
  have := Int.cast_lt.mp this
  omega

/-- A number is rounded to a multiple of its grid that is less than half a step away. -/
theorem roundToGrid_eq {n : Int}
    (h : |y - n * (2 : Rat) ^ gridExponent y| < (2 : Rat) ^ gridExponent y / 2) :
    roundToGrid y = n * (2 : Rat) ^ gridExponent y := by
  have hstep : (0 : Rat) < (2 : Rat) ^ gridExponent y := by positivity
  rw [roundToGrid, roundHalfEven_eq (n := n)]
  rw [← mul_lt_mul_iff_of_pos_right hstep, ← abs_of_pos hstep, ← abs_mul, abs_of_pos hstep, sub_mul,
    div_mul_cancel₀ _ hstep.ne']
  linarith

/-- A number on its grid is a number of at most 53 binary digits times the step of the grid. -/
theorem exists_significand (hx : 0 < x) (hgrid : roundToGrid x = x) :
    ∃ (n : Int) (k : Nat), x = n * (2 : Rat) ^ gridExponent x ∧
      binaryExponent x = gridExponent x + k ∧ k ≤ 52 ∧ 2 ^ k ≤ n ∧ n < 2 ^ (k + 1) := by
  have hstep : (0 : Rat) < (2 : Rat) ^ gridExponent x := by positivity
  obtain ⟨n, hn⟩ : ∃ n : Int, x = n * (2 : Rat) ^ gridExponent x := ⟨_, hgrid.symm⟩
  have hlog := binaryExponent_eq_log hx
  have hlow : (2 : Rat) ^ binaryExponent x ≤ x := hlog ▸ Int.zpow_log_le_self one_lt_two hx
  have hhigh : x < (2 : Rat) ^ (binaryExponent x + 1) :=
    hlog ▸ Int.lt_zpow_succ_log_self one_lt_two x
  have hpos : 0 < n := by
    rw [hn] at hx
    exact_mod_cast pos_of_mul_pos_left hx hstep.le
  have hexponent : gridExponent x ≤ binaryExponent x := by
    have hle : (2 : Rat) ^ gridExponent x ≤ x := by
      conv_rhs => rw [hn]
      exact le_mul_of_one_le_left hstep.le (by exact_mod_cast hpos)
    rw [hlog]
    exact (Int.zpow_le_iff_le_log one_lt_two hx).mp hle
  obtain ⟨k, hk⟩ : ∃ k : Nat, binaryExponent x = gridExponent x + k :=
    ⟨(binaryExponent x - gridExponent x).toNat, by omega⟩
  refine ⟨n, k, hn, hk, by rw [gridExponent] at hk; omega, ?_, ?_⟩
  · rw [hk, add_comm, zpow_add₀ two_ne_zero] at hlow
    have := (mul_le_mul_iff_of_pos_right hstep).mp (hlow.trans_eq hn)
    exact_mod_cast this
  · rw [hk, add_assoc, add_comm, zpow_add₀ two_ne_zero] at hhigh
    have := (mul_lt_mul_iff_of_pos_right hstep).mp (hn.symm.trans_lt hhigh)
    exact_mod_cast this

/-- The exponent of a multiple of a step, from the exponent of the factor. -/
theorem binaryExponent_mul_zpow {z : Rat} {e g : Int} (hle : (2 : Rat) ^ e ≤ z)
    (hlt : z < (2 : Rat) ^ (e + 1)) : binaryExponent (z * (2 : Rat) ^ g) = e + g := by
  have hstep : (0 : Rat) < (2 : Rat) ^ g := by positivity
  have hle' : (2 : Rat) ^ (e + g) ≤ z * (2 : Rat) ^ g := by
    rw [zpow_add₀ two_ne_zero]
    exact mul_le_mul_of_nonneg_right hle hstep.le
  have hlt' : z * (2 : Rat) ^ g < (2 : Rat) ^ (e + g + 1) := by
    rw [add_right_comm, zpow_add₀ two_ne_zero]
    exact mul_lt_mul_of_pos_right hlt hstep
  have hpos : 0 < z * (2 : Rat) ^ g := hle'.trans_lt' (by positivity)
  rw [binaryExponent_eq_log hpos, log_eq_of_le_of_lt one_lt_two hle' hlt']

/-- A number is rounded to a multiple of a step `c` times as long as that of its grid if it is less
than half a step of the grid away. -/
theorem roundToGrid_mul_zpow {z c : Rat} {g n n' : Int} (hn : (n' : Rat) = n * c)
    (hc : (2 : Rat) ^ g = c * (2 : Rat) ^ gridExponent (z * (2 : Rat) ^ g))
    (hclose : |z - n| * c < 1 / 2) : roundToGrid (z * (2 : Rat) ^ g) = n * (2 : Rat) ^ g := by
  generalize hy : z * (2 : Rat) ^ g = y at *
  have hstep : (0 : Rat) < (2 : Rat) ^ g := by positivity
  have hstep' : (0 : Rat) < (2 : Rat) ^ gridExponent y := by positivity
  have hx : n * (2 : Rat) ^ g = n' * (2 : Rat) ^ gridExponent y := by rw [hn, hc, mul_assoc]
  rw [hx]
  refine roundToGrid_eq ?_
  rw [← hx, ← hy, ← sub_mul, abs_mul, abs_of_pos hstep, hy, hc, ← mul_assoc]
  linarith [mul_lt_mul_of_pos_right hclose hstep']

/-- A number on its grid is the nearest one to the numbers that have sixteen digits in common with
it. -/
theorem roundToGrid_eq_of_near (hx : 0 < x) (hgrid : roundToGrid x = x)
    (hnear : |y - x| * (2 * 10 ^ 16) ≤ x) : roundToGrid y = x := by
  obtain ⟨n, k, hn, hexponent, hk, hlow, hhigh⟩ := exists_significand hx hgrid
  have hgridx : gridExponent x = max (binaryExponent x - 52) (-1074) := rfl
  have hgridy : gridExponent y = max (binaryExponent y - 52) (-1074) := rfl
  generalize gridExponent x = g at *
  have hstep : (0 : Rat) < (2 : Rat) ^ g := by positivity
  -- Distances are measured in steps of the grid of `x`.
  obtain ⟨z, rfl⟩ : ∃ z, y = z * (2 : Rat) ^ g := ⟨y / 2 ^ g, (div_mul_cancel₀ y hstep.ne').symm⟩
  have hzn : |z - n| * (2 * 10 ^ 16) ≤ n := by
    rw [hn, ← sub_mul, abs_mul, abs_of_pos hstep, mul_right_comm] at hnear
    exact (mul_le_mul_iff_of_pos_right hstep).mp hnear
  have hlow' : (2 : Rat) ^ k ≤ n := by exact_mod_cast hlow
  have hhigh' : (n : Rat) ≤ 2 ^ (k + 1) - 1 := by exact_mod_cast Int.le_sub_one_of_lt hhigh
  obtain ⟨hbelow, habove⟩ := abs_le.mp ((le_div_iff₀ (by norm_num)).mpr hzn)
  have hpow : (2 : Rat) ^ k ≤ 2 ^ 52 := pow_le_pow_right₀ one_le_two hk
  have hdouble : (2 : Rat) ^ (k + 1) = 2 * 2 ^ k := pow_succ' ..
  by_cases hbinade : (2 : Rat) ^ k ≤ z
  · -- `y` is in the binade of `x`, where the steps are the same.
    have hlt : z < (2 : Rat) ^ (k + 1) := by linarith
    have hy := binaryExponent_mul_zpow (g := g) (e := k) (mod_cast hbinade) (mod_cast hlt)
    have hsame : gridExponent (z * (2 : Rat) ^ g) = g := by omega
    rw [hn]
    exact roundToGrid_mul_zpow (mul_one _).symm (by rw [hsame, one_mul]) (by linarith)
  · -- `x` is the first number of its binade, and below it the steps may be half as long.
    have hn' : n = 2 ^ k := by
      have : (n : Rat) < (2 ^ k + 1 : Int) := by
        push_cast
        linarith
      have := Int.cast_lt.mp this
      omega
    have hn'' : (n : Rat) = 2 ^ k := by exact_mod_cast hn'
    have hhalf : (2 : Rat) ^ ((k : Int) - 1) = 2 ^ k / 2 := by
      rw [zpow_sub_one₀ two_ne_zero, zpow_natCast, div_eq_mul_inv]
    have hy := binaryExponent_mul_zpow (g := g) (e := k - 1) (z := z) (by rw [hhalf]; linarith)
      (by rw [sub_add_cancel]; exact_mod_cast not_le.mp hbinade)
    rw [hn]
    rcases (by omega : gridExponent (z * (2 : Rat) ^ g) = g ∨
      gridExponent (z * (2 : Rat) ^ g) = g - 1) with hsame | hfiner
    · exact roundToGrid_mul_zpow (mul_one _).symm (by rw [hsame, one_mul]) (by linarith)
    · have hdoubled : ((n * 2 : Int) : Rat) = n * 2 := by push_cast; rfl
      refine roundToGrid_mul_zpow hdoubled ?_ (by linarith)
      rw [hfiner, zpow_sub_one₀ two_ne_zero]
      ring

/-- A number stays as it is if it is on its grid. -/
theorem roundToGrid_eq_self {n : Int} (h : x = n * (2 : Rat) ^ gridExponent x) :
    roundToGrid x = x := by
  conv_rhs => rw [h]
  refine roundToGrid_eq ?_
  rw [← h, sub_self, abs_zero]
  positivity

/-- A multiple of a step stays as it is if its grid is not coarser. -/
theorem roundToGrid_eq_self_of_le {n g : Int} (h : gridExponent (n * (2 : Rat) ^ g) ≤ g) :
    roundToGrid (n * (2 : Rat) ^ g) = n * (2 : Rat) ^ g := by
  obtain ⟨k, hk⟩ : ∃ k : Nat, g = k + gridExponent (n * (2 : Rat) ^ g) :=
    ⟨(g - gridExponent (n * (2 : Rat) ^ g)).toNat, by omega⟩
  refine roundToGrid_eq_self (n := n * 2 ^ k) ?_
  conv_lhs => rw [hk, zpow_add₀ two_ne_zero, zpow_natCast]
  push_cast
  ring

/-- A positive number is rounded to a number of at most 53 binary digits times the step of its grid,
or to the next power of two. -/
theorem exists_roundToGrid_eq (hx : 0 < x) :
    ∃ n : Int, 0 ≤ n ∧ n ≤ 2 ^ 53 ∧ roundToGrid x = n * (2 : Rat) ^ gridExponent x := by
  have hstep : (0 : Rat) < (2 : Rat) ^ gridExponent x := by positivity
  have hquotient : x / (2 : Rat) ^ gridExponent x < 2 ^ 53 := by
    rw [div_lt_iff₀ hstep]
    calc x < (2 : Rat) ^ (binaryExponent x + 1) :=
          binaryExponent_eq_log hx ▸ Int.lt_zpow_succ_log_self one_lt_two x
      _ ≤ (2 : Rat) ^ ((53 : Nat) + gridExponent x) :=
          zpow_le_zpow_right₀ one_le_two (by rw [gridExponent]; omega)
      _ = 2 ^ 53 * (2 : Rat) ^ gridExponent x := by rw [zpow_add₀ two_ne_zero, zpow_natCast]
  refine ⟨_, roundHalfEven_nonneg (div_pos hx hstep).le, ?_, rfl⟩
  obtain ⟨hlow, hhigh⟩ := abs_le.mp (abs_sub_roundHalfEven_le (x / (2 : Rat) ^ gridExponent x))
  have : (roundHalfEven (x / (2 : Rat) ^ gridExponent x) : Rat) < ((2 ^ 53 + 1 : Int) : Rat) := by
    push_cast
    linarith
  have := Int.cast_lt.mp this
  omega

/-- Rounding twice is rounding once. -/
theorem roundToGrid_roundToGrid (hx : 0 < x) : roundToGrid (roundToGrid x) = roundToGrid x := by
  obtain ⟨n, hnonneg, hle, hround⟩ := exists_roundToGrid_eq hx
  have hgrid : -1074 ≤ gridExponent x := by rw [gridExponent]; omega
  rw [hround]
  generalize gridExponent x = g at *
  have hstep : (0 : Rat) < (2 : Rat) ^ g := by positivity
  rcases hnonneg.eq_or_lt with rfl | hn
  · exact roundToGrid_eq_self (n := 0) (by rw [Int.cast_zero, zero_mul, zero_mul])
  rcases hle.eq_or_lt with rfl | hlt
  · -- The significand has reached the next power of two, where the steps are twice as long.
    have hexponent := binaryExponent_mul_zpow (z := ((2 ^ 53 : Int) : Rat)) (e := 53) (g := g)
      (by norm_num) (by norm_num)
    have hgrid' : gridExponent (((2 ^ 53 : Int) : Rat) * (2 : Rat) ^ g) = g + 1 := by
      rw [gridExponent, hexponent]
      omega
    refine roundToGrid_eq_self (n := 2 ^ 52) ?_
    rw [hgrid', zpow_add_one₀ two_ne_zero]
    push_cast
    ring
  · have hr : 0 < n * (2 : Rat) ^ g := mul_pos (by exact_mod_cast hn) hstep
    have hexponent : binaryExponent (n * (2 : Rat) ^ g) < g + 53 := by
      rw [binaryExponent_eq_log hr]
      refine (Int.lt_zpow_iff_log_lt one_lt_two hr).mp ?_
      rw [add_comm, Nat.cast_two, zpow_add₀ two_ne_zero]
      exact mul_lt_mul_of_pos_right (by exact_mod_cast hlt) hstep
    refine roundToGrid_eq_self_of_le ?_
    rw [gridExponent]
    omega

/-! ### Doubles -/

namespace Double

/-- The double is a number, and its exact value is one that a double can have. -/
def Representable : Double → Prop
  | finite x => nearest x = finite x
  | negativeZero | infinite _ => True
  | nan _ => False

instance : DecidablePred Representable
  | finite x => inferInstanceAs (Decidable (nearest x = finite x))
  | negativeZero | infinite _ => inferInstanceAs (Decidable True)
  | nan _ => inferInstanceAs (Decidable False)

theorem Representable.isNumber {d : Double} (h : d.Representable) : d.isNumber = true := by
  cases d with
  | nan tag => exact h.elim
  | finite | negativeZero | infinite => rfl

/-- The size of a representable number is on its grid. -/
theorem Representable.roundToGrid_abs (h : (finite x).Representable) (hx : x ≠ 0) :
    roundToGrid x.abs = x.abs ∧ x.abs < 2 ^ 1024 := by
  have habs : x.abs ≠ 0 := fun h => hx (Rat.abs_eq_zero_iff.mp h)
  have hnearest : nearestOfSign (decide (x < 0)) x.abs = finite x := h
  rw [nearestOfSign, if_neg habs] at hnearest
  split at hnearest
  · cases hneg : decide (x < 0) <;> simp [zero, hneg, hx.symm] at hnearest
  · split at hnearest
    · cases hnearest
    · rename_i hlt
      have hround : roundToGrid x.abs = x.abs := by
        injection hnearest with hnearest
        by_cases hneg : x < 0
        · rw [decide_eq_true hneg, if_pos rfl] at hnearest
          rw [Rat.abs_of_nonpos hneg.le] at hnearest ⊢
          linarith
        · rw [decide_eq_false hneg, if_neg Bool.false_ne_true] at hnearest
          rw [Rat.abs_of_nonneg (not_lt.mp hneg)] at hnearest ⊢
          exact hnearest
      exact ⟨hround, hround ▸ not_le.mp hlt⟩

theorem nearestOfSign_eq_finite (negative : Bool) (hx : 0 < x) (hlt : x < 2 ^ 1024) (hy : 0 < y)
    (hround : roundToGrid y = x) :
    nearestOfSign negative y = finite (if negative then -x else x) := by
  rw [nearestOfSign, if_neg hy.ne', hround]
  simp only [if_neg hx.ne', if_neg (not_le.mpr hlt)]

theorem nearest_eq_finite (hx : 0 < x) (hlt : x < 2 ^ 1024) (hy : 0 < y)
    (hround : roundToGrid y = x) : nearest y = finite x := by
  rw [nearest, Rat.abs_of_nonneg hy.le, decide_eq_false (not_lt.mpr hy.le)]
  exact nearestOfSign_eq_finite false hx hlt hy hround

/-- The size of a double is a double. -/
theorem Representable.abs (h : (finite x).Representable) (hx : x ≠ 0) :
    (finite x.abs).Representable := by
  obtain ⟨hgrid, hlt⟩ := h.roundToGrid_abs hx
  have hpos : 0 < x.abs :=
    lt_of_le_of_ne Rat.abs_nonneg fun h => hx (Rat.abs_eq_zero_iff.mp h.symm)
  exact nearest_eq_finite hpos hlt hpos hgrid

theorem roundToGrid_nonneg (hx : 0 ≤ x) : 0 ≤ roundToGrid x := by
  have hstep : (0 : Rat) < (2 : Rat) ^ gridExponent x := by positivity
  exact mul_nonneg (by exact_mod_cast roundHalfEven_nonneg (div_nonneg hx hstep.le)) hstep.le

theorem representable_zero (negative : Bool) : (zero negative).Representable := by
  cases negative
  · change nearest 0 = finite 0
    rw [nearest, Rat.abs_zero, nearestOfSign, if_pos rfl, if_pos rfl]
    rfl
  · trivial

/-- Rounding makes representable values. -/
theorem representable_nearestOfSign (negative : Bool) (hx : 0 ≤ x) :
    (nearestOfSign negative x).Representable := by
  rcases hx.eq_or_lt with rfl | hx
  · exact representable_zero negative
  rw [nearestOfSign, if_neg hx.ne']
  have hnonneg := roundToGrid_nonneg hx.le
  have htwice := roundToGrid_roundToGrid hx
  generalize roundToGrid x = r at *
  split
  · exact representable_zero negative
  · rename_i hr
    have hpos : 0 < r := lt_of_le_of_ne hnonneg (Ne.symm hr)
    split
    · trivial
    · rename_i hlt
      have h := nearestOfSign_eq_finite negative hpos (not_le.mp hlt) hpos htwice
      cases negative
      · change nearest r = finite r
        rwa [nearest, Rat.abs_of_nonneg hnonneg, decide_eq_false (not_lt.mpr hnonneg)]
      · change nearest (-r) = finite (-r)
        rwa [nearest, Rat.abs_neg, Rat.abs_of_nonneg hnonneg,
          decide_eq_true (neg_lt_zero.mpr hpos)]

/-- Every numeral denotes a double with a representable value. -/
theorem representable_ofDecimal (negative : Bool) (m : Nat) (e : Int) :
    (ofDecimal negative m e).Representable := by
  rw [ofDecimal]
  split_ifs
  · exact representable_zero negative
  · trivial
  · exact representable_nearestOfSign negative (by positivity)

end Double

end Determinize
