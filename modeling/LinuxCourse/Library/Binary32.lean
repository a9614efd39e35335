import LinuxCourse.Library.Rounding

/-! The binary32 layout of numbers that are not negative. -/
namespace LinuxCourse.Library.Binary32
open Rounding

def PRECISION : ℕ := 24

/-- Of a normal number. -/
def encode (value : ℚ) : BitVec 32 :=
  if value = 0 then 0
  else BitVec.ofInt 32 ((Int.log 2 |value|+127)*2^23+(⌊value/ulp PRECISION value⌋-2^23))

/-- The largest exponent field is that of the words which are no numbers. -/
def decode (word : BitVec 32) : Option ℚ :=
  let field : ℕ := word.toNat/2^23 % 256
  let fraction : ℕ := word.toNat % 2^23
  let size : ℚ := if field = 0 then fraction*2^(-149 : ℤ) else (2^23+fraction)*2^((field : ℤ)-150)
  if field = 255 then none else some (if word.toNat < 2^31 then size else -size)

theorem exponent_range (value : ℚ) (low : 2^(-126 : ℤ) ≤ value) (high : value < 2^(128 : ℤ)) :
    -126 ≤ Int.log 2 |value| ∧ Int.log 2 |value| ≤ 127 := by
  have positive : 0 < value := lt_of_lt_of_le (by positivity) low
  have size := abs_of_pos positive
  have least := log_le value (ne_of_gt positive)
  have greatest := lt_log value
  rw [size] at least greatest ⊢
  have first := (zpow_lt_zpow_iff_right₀ (by norm_num : (1 : ℚ) < 2)).mp (low.trans_lt greatest)
  have last := (zpow_lt_zpow_iff_right₀ (by norm_num : (1 : ℚ) < 2)).mp (least.trans_lt high)
  omega

/-- The significand of a representable number is an integer that fills its bits. -/
theorem significand (value : ℚ) (positive : 0 < value) (representable : Representable PRECISION value) :
    ∃ n : ℤ, value = n*ulp PRECISION value ∧ 2^23 ≤ n ∧ n < 2^24 := by
  have unit := ulp_pos PRECISION value
  have size := abs_of_pos positive
  have least := log_le value (ne_of_gt positive)
  have greatest := lt_log value
  have grid := power_on_grid PRECISION (by decide) value
  obtain ⟨n,multiple⟩ := on_grid PRECISION value value representable least
  refine ⟨n,multiple,?_,?_⟩
  · have low := least.trans_eq (size.trans multiple)
    rw [grid] at low
    exact_mod_cast le_of_mul_le_mul_right low unit
  · have high := (size.trans multiple).symm.trans_lt greatest
    rw [zpow_add_one₀ (by norm_num),grid,mul_right_comm] at high
    exact_mod_cast lt_of_mul_lt_mul_right high unit.le

theorem decode_word (field fraction : ℕ) (normal : 1 ≤ field ∧ field ≤ 254) (small : fraction < 2^23) :
    decode (BitVec.ofNat 32 (field*2^23+fraction)) =
      some ((2^23+fraction : ℚ)*(2 : ℚ)^((field : ℤ)-150)) := by
  have word : (BitVec.ofNat 32 (field*2^23+fraction)).toNat = field*2^23+fraction := by
    rw [BitVec.toNat_ofNat,Nat.mod_eq_of_lt (by omega)]
  have top : (field*2^23+fraction)/2^23 % 256 = field := by omega
  have bottom : (field*2^23+fraction) % 2^23 = fraction := by omega
  have number : field ≠ 255 := by omega
  have nonzero : field ≠ 0 := by omega
  have sign : field*2^23+fraction < 2^31 := by omega
  simp only [decode,word,top,bottom,if_neg number,if_neg nonzero,if_pos sign]

theorem decode_encode (value : ℚ) (representable : Representable PRECISION value)
    (low : 2^(-126 : ℤ) ≤ value) (high : value < 2^(128 : ℤ)) : decode (encode value) = some value := by
  have positive : 0 < value := lt_of_lt_of_le (by positivity) low
  have unit := ulp_pos PRECISION value
  obtain ⟨least,greatest⟩ := exponent_range value low high
  obtain ⟨n,multiple,small,large⟩ := significand value positive representable
  obtain ⟨field,top⟩ := Int.eq_ofNat_of_zero_le (by omega : 0 ≤ Int.log 2 |value|+127)
  obtain ⟨fraction,bottom⟩ := Int.eq_ofNat_of_zero_le (by omega : 0 ≤ n-2^23)
  have quotient : value/ulp PRECISION value = n := by
    rw [div_eq_iff (ne_of_gt unit)]
    exact multiple
  have word : encode value = BitVec.ofNat 32 (field*2^23+fraction) := by
    rw [encode,if_neg (ne_of_gt positive),quotient,Int.floor_intCast,top,bottom]
    exact_mod_cast BitVec.ofInt_natCast 32 (field*2^23+fraction)
  rw [word,decode_word field fraction (by omega) (by omega)]
  have whole : (2^23+fraction : ℚ) = n := by
    have sum : (2^23+fraction : ℤ) = n := by omega
    exact_mod_cast sum
  have power : (2 : ℚ)^((field : ℤ)-150) = ulp PRECISION value := by
    rw [ulp]
    congr 1
    simp only [PRECISION]
    omega
  rw [whole,power,← multiple]

end LinuxCourse.Library.Binary32
