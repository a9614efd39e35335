import Mathlib.Algebra.Order.Field.Power
import Mathlib.Algebra.Order.Floor.Ring
import Mathlib.Data.Int.Log
import Mathlib.Data.Rat.Floor
import Mathlib.Tactic.Linarith
import Mathlib.Tactic.Positivity
import Mathlib.Tactic.Ring

/-! Rationals rounded to the nearest with a significand of so many bits, ties to even. The
exponent is not bounded. -/
namespace LinuxCourse.Library.Rounding

def roundEven (value : ℚ) : ℤ :=
  if value-⌊value⌋ < 1/2 ∨ value-⌊value⌋ = 1/2 ∧ ⌊value⌋ % 2 = 0 then ⌊value⌋ else ⌊value⌋+1

/-- The distance of two neighbours with `precision` bits around the value. -/
def ulp (precision : ℕ) (value : ℚ) : ℚ := 2^(Int.log 2 |value|+1-precision)

def round (precision : ℕ) (value : ℚ) : ℚ :=
  roundEven (value/ulp precision value)*ulp precision value

def Representable (precision : ℕ) (value : ℚ) : Prop :=
  ∃ significand exponent : ℤ, |significand| < 2^precision ∧ value = significand*2^exponent

theorem roundEven_nearest (value : ℚ) (n : ℤ) : |roundEven value-value| ≤ |n-value| := by
  have below := Int.floor_le value
  have above := Int.lt_floor_add_one value
  have distance : value-⌊value⌋ ≤ |n-value| ∨ ⌊value⌋+1-value ≤ |n-value| := by
    rcases lt_or_ge ⌊value⌋ n with more | less
    · have next : (⌊value⌋ : ℚ)+1 ≤ n := by exact_mod_cast more
      exact Or.inr ((by linarith : _ ≤ (n : ℚ)-value).trans (le_abs_self _))
    · have here : (n : ℚ) ≤ ⌊value⌋ := by exact_mod_cast less
      exact Or.inl ((by linarith : _ ≤ -((n : ℚ)-value)).trans (neg_le_abs _))
  unfold roundEven
  split
  · rename_i low
    have half : value-⌊value⌋ ≤ 1/2 := low.elim le_of_lt fun tie => tie.1.le
    rw [abs_sub_comm,abs_of_nonneg (by linarith)]
    rcases distance with near | far <;> linarith
  · rename_i high
    have half : 1/2 ≤ value-⌊value⌋ := le_of_not_gt fun less => high (Or.inl less)
    push_cast
    rw [abs_of_nonneg (by linarith)]
    rcases distance with far | near <;> linarith

theorem ulp_pos (precision : ℕ) (value : ℚ) : 0 < ulp precision value := by
  unfold ulp
  positivity

theorem scaled_nearest (precision : ℕ) (value : ℚ) (n : ℤ) :
    |round precision value-value| ≤ |n*ulp precision value-value| := by
  have positive := ulp_pos precision value
  have scale (multiple : ℚ) : |multiple*ulp precision value-value| =
      |multiple-value/ulp precision value| * ulp precision value := by
    rw [← abs_of_pos positive,← abs_mul,abs_of_pos positive,sub_mul,
      div_mul_cancel₀ _ (ne_of_gt positive)]
  rw [round,scale,scale]
  exact mul_le_mul_of_nonneg_right (roundEven_nearest _ n) positive.le

theorem log_le (value : ℚ) (nonzero : value ≠ 0) : (2 : ℚ)^Int.log 2 |value| ≤ |value| := by
  exact_mod_cast Int.zpow_log_le_self (by norm_num) (abs_pos.mpr nonzero)

theorem lt_log (value : ℚ) : |value| < 2^(Int.log 2 |value|+1) := by
  exact_mod_cast Int.lt_zpow_succ_log_self (by norm_num) |value|

/-- A number with few enough bits that is not smaller than the power of two below the
value lies on the value's grid. -/
theorem on_grid (precision : ℕ) (value number : ℚ) (representable : Representable precision number)
    (large : 2^Int.log 2 |value| ≤ |number|) : ∃ n : ℤ, number = n*ulp precision value := by
  obtain ⟨significand,exponent,bits,rfl⟩ := representable
  have size : |(significand : ℚ)*2^exponent| < 2^((precision : ℤ)+exponent) := by
    have narrow : |(significand : ℚ)| < 2^precision := by exact_mod_cast bits
    rw [abs_mul,abs_of_pos (by positivity : (0 : ℚ) < 2^exponent),zpow_add₀ (by norm_num),zpow_natCast]
    exact mul_lt_mul_of_pos_right narrow (by positivity)
  have order := (zpow_lt_zpow_iff_right₀ (by norm_num : (1 : ℚ) < 2)).mp (large.trans_lt size)
  obtain ⟨shift,reaches⟩ := Int.eq_ofNat_of_zero_le
    (by omega : 0 ≤ exponent-(Int.log 2 |value|+1-precision))
  refine ⟨significand*2^shift,?_⟩
  have power : (2 : ℚ)^exponent = 2^shift*ulp precision value := by
    rw [ulp,← zpow_natCast,← zpow_add₀ (by norm_num)]
    congr 1
    omega
  rw [power]
  push_cast
  ring

theorem power_on_grid (precision : ℕ) (positive : 0 < precision) (value : ℚ) :
    (2 : ℚ)^Int.log 2 |value| = (2^(precision-1) : ℤ)*ulp precision value := by
  push_cast
  rw [ulp,← zpow_natCast,← zpow_add₀ (by norm_num)]
  congr 1
  omega

theorem round_nearest (precision : ℕ) (positive : 0 < precision) (value number : ℚ)
    (representable : Representable precision number) :
    |round precision value-value| ≤ |number-value| := by
  rcases eq_or_ne value 0 with rfl | nonzero
  · have zero : round precision 0 = 0 := by simp [round,roundEven]
    rw [zero,sub_self,abs_zero]
    exact abs_nonneg _
  have low := log_le value nonzero
  have grid := power_on_grid precision positive value
  by_cases large : 2^Int.log 2 |value| ≤ |number|
  · obtain ⟨n,multiple⟩ := on_grid precision value number representable large
    rw [multiple]
    exact scaled_nearest precision value n
  · -- the power of two below the value is nearer, and on the grid
    have less := lt_of_not_ge large
    have apart : |value|-|number| ≤ |number-value| := by
      rw [abs_sub_comm]
      exact abs_sub_abs_le_abs_sub value number
    rcases le_total 0 value with nonneg | nonpos
    · have size := abs_of_nonneg nonneg
      have below := low.trans_eq size
      refine (scaled_nearest precision value (2^(precision-1))).trans ?_
      rw [← grid,abs_sub_comm,abs_of_nonneg (by linarith)]
      linarith
    · have size := abs_of_nonpos nonpos
      have above := low.trans_eq size
      refine (scaled_nearest precision value (-2^(precision-1))).trans ?_
      have negated : ((-2^(precision-1) : ℤ) : ℚ)*ulp precision value = -2^Int.log 2 |value| := by
        rw [grid]
        push_cast
        ring
      rw [negated,abs_of_nonneg (by linarith)]
      linarith

theorem round_representable (precision : ℕ) (positive : 0 < precision) (value : ℚ)
    (representable : Representable precision value) : round precision value = value := by
  have near := round_nearest precision positive value value representable
  rw [sub_self,abs_zero] at near
  exact sub_eq_zero.mp (abs_eq_zero.mp (le_antisymm near (abs_nonneg _)))

end LinuxCourse.Library.Rounding
