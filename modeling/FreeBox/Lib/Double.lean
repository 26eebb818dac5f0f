import Mathlib.Data.Int.Log
import Mathlib.Data.Rat.Floor
import Mathlib.Tactic.NormNum
import Mathlib.Tactic.Ring

/-!
# Binary floating point

Finite binary64 numbers as rationals. An operation on them is the exact operation
followed by `fl`, which rounds to the nearest number with a significand of 53 bits
and of two nearest to the one with an even significand. Numbers that are too large
for the format and the sign of zero are not modelled.

Results:
* `fl_eq_self`: a number with a significand of 53 bits is not rounded.
* `fl_natCast`, `fl_div_two_pow`, `fl_mul_two_pow`: natural numbers below `2^53`, divided
  or multiplied by powers of two.
* `fl_nonneg`, `fl_le`, `two_pow_le_fl`: bounds on a rounded number.
-/

namespace FreeBox.Lib.Double

/-- The nearest integer, of two the even one. -/
def roundEven (q : ℚ) : ℤ :=
  let below := ⌊q⌋
  if q - below < 1 / 2 then below
  else if 1 / 2 < q - below then below + 1
  else if below % 2 = 0 then below else below + 1

/-- The distance of the binary64 numbers around `q`. -/
def ulp (q : ℚ) : ℚ := 2 ^ max (Int.log 2 |q| - 52) (-1074)

/-- The binary64 number nearest to `q`. -/
def fl (q : ℚ) : ℚ := roundEven (q / ulp q) * ulp q

theorem roundEven_intCast (n : ℤ) : roundEven n = n := by
  have hrest : (n : ℚ) - ⌊(n : ℚ)⌋ < 1 / 2 := by
    rw [Int.floor_intCast, sub_self]
    norm_num
  rw [roundEven, if_pos hrest, Int.floor_intCast]

theorem roundEven_natCast (n : ℕ) : roundEven n = n := roundEven_intCast n

theorem ulp_pos (q : ℚ) : 0 < ulp q := zpow_pos (by norm_num) _

theorem log_lt_of_significand {m e : ℤ} (hm : |m| < 2 ^ 53) (h : (m : ℚ) * 2 ^ e ≠ 0) :
    Int.log 2 |(m : ℚ) * 2 ^ e| < 53 + e := by
  have hlt : |(m : ℚ) * 2 ^ e| < 2 ^ (53 + e) := by
    have hm : |(m : ℚ)| < 2 ^ (53 : ℤ) := by exact_mod_cast hm
    rw [abs_mul, abs_of_pos (zpow_pos (by norm_num : (0 : ℚ) < 2) e),
      zpow_add₀ (by norm_num : (2 : ℚ) ≠ 0)]
    exact mul_lt_mul_of_pos_right hm (zpow_pos (by norm_num) e)
  exact (Int.lt_zpow_iff_log_lt (by norm_num) (abs_pos.mpr h)).mp (by exact_mod_cast hlt)

theorem fl_eq_self {m e : ℤ} (hm : |m| < 2 ^ 53) (he : -1074 ≤ e) :
    fl ((m : ℚ) * 2 ^ e) = (m : ℚ) * 2 ^ e := by
  by_cases h : (m : ℚ) * 2 ^ e = 0
  · rw [h]
    simp [fl, roundEven]
  · have hlog := log_lt_of_significand hm h
    obtain ⟨k, hk⟩ : ∃ k : ℕ, e = max (Int.log 2 |(m : ℚ) * 2 ^ e| - 52) (-1074) + k :=
      ⟨(e - max (Int.log 2 |(m : ℚ) * 2 ^ e| - 52) (-1074)).toNat, by omega⟩
    -- in units of the last place the number is the integer `m * 2^k`
    have hunits : (m : ℚ) * 2 ^ e = ((m * 2 ^ k : ℤ) : ℚ) * ulp ((m : ℚ) * 2 ^ e) := by
      have hpow : (2 : ℚ) ^ e = 2 ^ k * ulp ((m : ℚ) * 2 ^ e) := by
        rw [ulp, ← zpow_natCast, ← zpow_add₀ (by norm_num), add_comm (k : ℤ), ← hk]
      rw [Int.cast_mul, Int.cast_pow, Int.cast_ofNat, mul_assoc, ← hpow]
    have hquot : (m : ℚ) * 2 ^ e / ulp ((m : ℚ) * 2 ^ e) = ((m * 2 ^ k : ℤ) : ℚ) :=
      (div_eq_iff (ulp_pos _).ne').mpr hunits
    rw [fl, hquot, roundEven_intCast, ← hunits]

theorem fl_div_two_pow {n k : ℕ} (hn : n < 2 ^ 53) (hk : k ≤ 1074) :
    fl ((n : ℚ) / 2 ^ k) = (n : ℚ) / 2 ^ k := by
  have hself := fl_eq_self (m := n) (e := -k) (by rw [Nat.abs_cast]; exact_mod_cast hn) (by omega)
  rwa [zpow_neg, zpow_natCast, ← div_eq_mul_inv, Int.cast_natCast] at hself

theorem fl_natCast {n : ℕ} (hn : n < 2 ^ 53) : fl n = n := by
  have hself := fl_div_two_pow hn (Nat.zero_le 1074)
  rwa [pow_zero, div_one] at hself

theorem fl_mul_two_pow {n k : ℕ} (hn : n < 2 ^ 53) : fl ((n : ℚ) * 2 ^ k) = (n : ℚ) * 2 ^ k := by
  have hself := fl_eq_self (m := n) (e := k) (by rw [Nat.abs_cast]; exact_mod_cast hn) (by omega)
  rwa [zpow_natCast, Int.cast_natCast] at hself

theorem ulp_le {q : ℚ} (hq : 0 ≤ q) : ulp q ≤ q + 1 := by
  rw [ulp]
  rcases max_choice (Int.log 2 |q| - 52) (-1074) with hmax | hmax <;> rw [hmax]
  · by_cases h : q = 0
    · rw [h, abs_zero, Int.log_zero_right]
      norm_num
    · have hlog : (2 : ℚ) ^ Int.log 2 |q| ≤ |q| := Int.zpow_log_le_self (by norm_num) (abs_pos.mpr h)
      rw [abs_of_nonneg hq] at hlog ⊢
      calc (2 : ℚ) ^ (Int.log 2 q - 52) ≤ 2 ^ Int.log 2 q :=
            zpow_le_zpow_right₀ (by norm_num) (by omega)
        _ ≤ q := hlog
        _ ≤ q + 1 := by linarith
  · calc (2 : ℚ) ^ (-1074 : ℤ) ≤ 1 := zpow_le_one_of_nonpos₀ (by norm_num) (by norm_num)
      _ ≤ q + 1 := by linarith

theorem roundEven_le (q : ℚ) : roundEven q ≤ q + 1 := by
  have hfloor := Int.floor_le q
  unfold roundEven
  dsimp only
  split_ifs <;> push_cast <;> linarith

theorem fl_nonneg {q : ℚ} (hq : 0 ≤ q) : 0 ≤ fl q := by
  have hfloor : 0 ≤ ⌊q / ulp q⌋ := Int.floor_nonneg.mpr (div_nonneg hq (ulp_pos q).le)
  have hround : 0 ≤ roundEven (q / ulp q) := by
    unfold roundEven
    dsimp only
    split_ifs <;> omega
  exact mul_nonneg (Int.cast_nonneg hround) (ulp_pos q).le

/-- A crude bound. -/
theorem fl_le {q : ℚ} (hq : 0 ≤ q) : fl q ≤ 2 * q + 1 := by
  have hround := mul_le_mul_of_nonneg_right (roundEven_le (q / ulp q)) (ulp_pos q).le
  have hulp := ulp_le hq
  rw [add_mul, div_mul_cancel₀ q (ulp_pos q).ne', one_mul] at hround
  rw [fl]
  linarith

theorem floor_le_roundEven (q : ℚ) : ⌊q⌋ ≤ roundEven q := by
  unfold roundEven
  dsimp only
  split_ifs <;> omega

/-- Rounding does not go below a power of two. -/
theorem two_pow_le_fl {q : ℚ} {k : ℕ} (h : 2 ^ k ≤ q) : 2 ^ k ≤ fl q := by
  have hq : 0 < q := lt_of_lt_of_le (by positivity) h
  have hlow : (2 : ℚ) ^ Int.log 2 |q| ≤ q := by
    rw [abs_of_pos hq]
    exact Int.zpow_log_le_self (by norm_num) hq
  have hlog : (k : ℤ) ≤ Int.log 2 |q| := by
    rw [abs_of_pos hq, ← Int.zpow_le_iff_le_log (by norm_num) hq, zpow_natCast]
    exact_mod_cast h
  have hulp : ulp q = 2 ^ (Int.log 2 |q| - 52) := by rw [ulp, max_eq_left (by omega)]
  have hsplit : (2 : ℚ) ^ 52 * ulp q = 2 ^ Int.log 2 |q| := by
    rw [hulp, ← zpow_natCast, ← zpow_add₀ (by norm_num)]
    congr 1
    norm_num
  -- the significand has 53 bits
  have hunits : (2 : ℤ) ^ 52 ≤ roundEven (q / ulp q) := by
    refine le_trans (Int.le_floor.mpr ?_) (floor_le_roundEven _)
    rw [le_div_iff₀ (ulp_pos q), Int.cast_pow, Int.cast_ofNat, hsplit]
    exact hlow
  calc (2 : ℚ) ^ k ≤ 2 ^ Int.log 2 |q| := by
        rw [← zpow_natCast]
        exact zpow_le_zpow_right₀ (by norm_num) hlog
    _ = ((2 ^ 52 : ℤ) : ℚ) * ulp q := by rw [← hsplit]; norm_num
    _ ≤ fl q := mul_le_mul_of_nonneg_right (by exact_mod_cast hunits) (ulp_pos q).le

example : fl (2 ^ 53 + 1) = 2 ^ 53 := by decide +kernel

end FreeBox.Lib.Double
