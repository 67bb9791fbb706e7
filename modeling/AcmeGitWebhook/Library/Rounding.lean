import Mathlib.Data.Int.Log
import Mathlib.Data.Rat.Floor
import Mathlib.Tactic.Linarith
import Mathlib.Tactic.Positivity
import Mathlib.Tactic.Ring

/-!
# Rounding to a number of bits

`halfEven` is the nearest integer, the even one of two, and `toBits p` the nearest number of `p`
bits behind the leading one, whatever its exponent. Both are monotone, and the error of `toBits p`
is at most one in `2 ^ (p + 1)` of the number.
-/

namespace AcmeGitWebhook.Library.Rounding

def halfEven (q : ℚ) : ℤ :=
  let n := ⌊q⌋
  let rest := q - n
  if rest < 1 / 2 then n else if 1 / 2 < rest then n + 1 else if n % 2 = 0 then n else n + 1

/-- What numbers of the size of `q` are multiplied by to have `p` bits before the point. -/
def scale (p : ℕ) (q : ℚ) : ℚ := 2 ^ (p - Int.log 2 |q|)

def toBits (p : ℕ) (q : ℚ) : ℚ := if q = 0 then 0 else halfEven (q * scale p q) / scale p q

example : halfEven (5 / 2) = 2 ∧ halfEven (7 / 2) = 4 ∧ toBits 1 5 = 4 ∧ toBits 1 7 = 8 := by
  decide +kernel

variable {p : ℕ} {q r : ℚ}

/-! ## To an integer -/

theorem halfEven_error (q : ℚ) : |halfEven q - q| ≤ 1 / 2 := by
  have low := Int.floor_le q
  have high := Int.lt_floor_add_one q
  rw [abs_le]
  unfold halfEven
  dsimp only
  split_ifs <;> push_cast <;> constructor <;> linarith

theorem halfEven_mono (h : q ≤ r) : halfEven q ≤ halfEven r := by
  by_contra less
  have apart : (halfEven r : ℚ) + 1 ≤ halfEven q := by exact_mod_cast not_le.mp less
  have hq := abs_le.mp (halfEven_error q)
  have hr := abs_le.mp (halfEven_error r)
  -- both are then half-way between the two integers, and so the same
  obtain rfl : q = r := le_antisymm h (by linarith [hq.2, hr.1])
  exact less le_rfl

@[simp] theorem halfEven_intCast (z : ℤ) : halfEven z = z := by
  simp [halfEven]

theorem le_halfEven {z : ℤ} (h : (z : ℚ) ≤ q) : z ≤ halfEven q := by
  simpa using halfEven_mono h

theorem halfEven_le {z : ℤ} (h : q ≤ (z : ℚ)) : halfEven q ≤ z := by
  simpa using halfEven_mono h

/-! ## To a number of bits -/

theorem scale_pos (p : ℕ) (q : ℚ) : 0 < scale p q := zpow_pos two_pos _

theorem scale_mul (p : ℕ) (q : ℚ) : scale p q * 2 ^ Int.log 2 |q| = 2 ^ p := by
  rw [scale, ← zpow_add₀ two_ne_zero, sub_add_cancel, zpow_natCast]

theorem pow_log_le (nonzero : q ≠ 0) : (2 : ℚ) ^ Int.log 2 |q| ≤ |q| :=
  Int.zpow_log_le_self one_lt_two (abs_pos.mpr nonzero)

theorem lt_pow_log (q : ℚ) : |q| < 2 * (2 : ℚ) ^ Int.log 2 |q| := by
  have bound := Int.lt_zpow_succ_log_self one_lt_two |q|
  rwa [Nat.cast_ofNat, zpow_add_one₀ two_ne_zero, mul_comm] at bound

/-- Scaling brings the number between two powers of two. -/
theorem scaled_bounds (p : ℕ) (nonzero : q ≠ 0) :
    2 ^ p ≤ |q| * scale p q ∧ |q| * scale p q ≤ 2 * 2 ^ p := by
  have positive := scale_pos p q
  constructor
  · calc (2 : ℚ) ^ p = 2 ^ Int.log 2 |q| * scale p q := by rw [mul_comm, scale_mul]
      _ ≤ |q| * scale p q := mul_le_mul_of_nonneg_right (pow_log_le nonzero) positive.le
  · calc |q| * scale p q ≤ 2 * 2 ^ Int.log 2 |q| * scale p q :=
          mul_le_mul_of_nonneg_right (lt_pow_log q).le positive.le
      _ = 2 * 2 ^ p := by rw [mul_assoc, mul_comm (2 ^ _) (scale p q), scale_mul]

theorem toBits_error (p : ℕ) (q : ℚ) : |toBits p q - q| ≤ |q| / 2 ^ (p + 1) := by
  by_cases zero : q = 0
  · simp [toBits, zero]
  have positive := scale_pos p q
  have rounded : toBits p q - q = (halfEven (q * scale p q) - q * scale p q) / scale p q := by
    rw [toBits, if_neg zero, sub_div, mul_div_cancel_right₀ _ positive.ne']
  have bits := (scaled_bounds p zero).1
  rw [rounded, abs_div, abs_of_pos positive, div_le_div_iff₀ positive (by positivity)]
  calc |↑(halfEven (q * scale p q)) - q * scale p q| * 2 ^ (p + 1)
      ≤ 1 / 2 * 2 ^ (p + 1) := mul_le_mul_of_nonneg_right (halfEven_error _) (by positivity)
    _ = 2 ^ p := by rw [pow_succ]; ring
    _ ≤ |q| * scale p q := bits

theorem div_scale (p : ℕ) (q : ℚ) : 2 ^ p / scale p q = 2 ^ Int.log 2 |q| := by
  rw [div_eq_iff (scale_pos p q).ne', mul_comm, scale_mul]

/-- A positive number stays between the powers of two around it. -/
theorem toBits_of_pos (p : ℕ) (positive : 0 < q) :
    2 ^ Int.log 2 |q| ≤ toBits p q ∧ toBits p q ≤ 2 * 2 ^ Int.log 2 |q| := by
  obtain ⟨low, high⟩ := scaled_bounds p positive.ne'
  rw [abs_of_pos positive] at low high
  have low' : 2 ^ p ≤ halfEven (q * scale p q) := le_halfEven (by exact_mod_cast low)
  have high' : halfEven (q * scale p q) ≤ 2 * 2 ^ p := halfEven_le (by exact_mod_cast high)
  rw [toBits, if_neg positive.ne', ← div_scale p, ← mul_div_assoc]
  exact ⟨div_le_div_of_nonneg_right (by exact_mod_cast low') (scale_pos p q).le,
    div_le_div_of_nonneg_right (by exact_mod_cast high') (scale_pos p q).le⟩

theorem toBits_of_neg (p : ℕ) (negative : q < 0) :
    -(2 * 2 ^ Int.log 2 |q|) ≤ toBits p q ∧ toBits p q ≤ -2 ^ Int.log 2 |q| := by
  obtain ⟨low, high⟩ := scaled_bounds p negative.ne
  rw [abs_of_neg negative] at low high
  have low' : -(2 * 2 ^ p) ≤ halfEven (q * scale p q) :=
    le_halfEven (by push_cast; linarith)
  have high' : halfEven (q * scale p q) ≤ -2 ^ p := halfEven_le (by push_cast; linarith)
  rw [toBits, if_neg negative.ne, ← div_scale p, ← mul_div_assoc, ← neg_div, ← neg_div]
  exact ⟨div_le_div_of_nonneg_right (by exact_mod_cast low') (scale_pos p q).le,
    div_le_div_of_nonneg_right (by exact_mod_cast high') (scale_pos p q).le⟩

theorem toBits_nonneg (h : 0 ≤ q) : 0 ≤ toBits p q := by
  rcases h.eq_or_lt with rfl | positive
  · simp [toBits]
  · exact (zpow_pos two_pos _).le.trans (toBits_of_pos p positive).1

theorem toBits_nonpos (h : q ≤ 0) : toBits p q ≤ 0 := by
  rcases h.eq_or_lt with rfl | negative
  · simp [toBits]
  · exact (toBits_of_neg p negative).2.trans (neg_nonpos.mpr (zpow_pos two_pos _).le)

/-- Numbers of one size are rounded on one grid. -/
theorem toBits_mono_of_log (hq : q ≠ 0) (hr : r ≠ 0) (same : Int.log 2 |q| = Int.log 2 |r|)
    (h : q ≤ r) : toBits p q ≤ toBits p r := by
  have grid : scale p q = scale p r := by rw [scale, scale, same]
  rw [toBits, toBits, if_neg hq, if_neg hr, grid]
  have rounded := halfEven_mono (mul_le_mul_of_nonneg_right h (scale_pos p r).le)
  exact div_le_div_of_nonneg_right (by exact_mod_cast rounded) (scale_pos p r).le

theorem two_mul_pow_le {a b : ℤ} (h : a < b) : 2 * (2 : ℚ) ^ a ≤ 2 ^ b := by
  calc 2 * (2 : ℚ) ^ a = 2 ^ (a + 1) := by rw [zpow_add_one₀ two_ne_zero, mul_comm]
    _ ≤ 2 ^ b := zpow_le_zpow_right₀ one_le_two h

theorem toBits_mono (p : ℕ) (h : q ≤ r) : toBits p q ≤ toBits p r := by
  rcases lt_trichotomy q 0 with hq | rfl | hq
  · rcases lt_or_ge r 0 with hr | hr
    · -- the larger of two negative numbers is the smaller in size
      have sizes : Int.log 2 |r| ≤ Int.log 2 |q| :=
        Int.log_mono_right (abs_pos.mpr hr.ne) (abs_le_abs_of_nonpos hr.le h)
      rcases sizes.eq_or_lt with same | less
      · exact toBits_mono_of_log hq.ne hr.ne same.symm h
      · calc toBits p q ≤ -2 ^ Int.log 2 |q| := (toBits_of_neg p hq).2
          _ ≤ -(2 * 2 ^ Int.log 2 |r|) := neg_le_neg (two_mul_pow_le less)
          _ ≤ toBits p r := (toBits_of_neg p hr).1
    · exact (toBits_nonpos hq.le).trans (toBits_nonneg hr)
  · exact (toBits_nonpos le_rfl).trans (toBits_nonneg h)
  · have hr := hq.trans_le h
    have sizes : Int.log 2 |q| ≤ Int.log 2 |r| :=
      Int.log_mono_right (abs_pos.mpr hq.ne') (abs_le_abs_of_nonneg hq.le h)
    rcases sizes.eq_or_lt with same | less
    · exact toBits_mono_of_log hq.ne' hr.ne' same h
    · calc toBits p q ≤ 2 * 2 ^ Int.log 2 |q| := (toBits_of_pos p hq).2
        _ ≤ 2 ^ Int.log 2 |r| := two_mul_pow_le less
        _ ≤ toBits p r := (toBits_of_pos p hr).1

end AcmeGitWebhook.Library.Rounding
