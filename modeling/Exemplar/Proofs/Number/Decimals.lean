import Exemplar.Number.Decimal
import Exemplar.Proofs.Number.Rounding

/-!
# Decimals as doubles

A decimal is read as the double nearest to the number that it denotes. Nothing is lost by not
computing the quotient of a decimal that is far out of the range of doubles.
-/

namespace Exemplar

namespace Decimal

/-- The absolute value of the number that a decimal denotes. -/
def magnitude (d : Decimal) : ℚ := d.digits * 10 ^ d.exponent

/-- The number that a decimal denotes. -/
def value (d : Decimal) : ℚ := signFactor d.negative * d.magnitude

variable {d : Decimal} {r : Double}

lemma magnitude_nonneg (d : Decimal) : 0 ≤ d.magnitude := by
  unfold magnitude
  positivity

lemma abs_value (d : Decimal) : |d.value| = d.magnitude :=
  abs_signFactor_mul _ d.magnitude_nonneg

lemma magnitude_eq_div (d : Decimal) :
    d.magnitude = (d.digits * 10 ^ d.exponent.toNat : ℕ) / (10 ^ (-d.exponent).toNat : ℕ) := by
  have hpow := zpow_eq_div (b := 10) (by norm_num) d.exponent
  rw [Nat.cast_ofNat] at hpow
  rw [magnitude, hpow, Nat.cast_mul, mul_div_assoc]

/-! ### Digits -/

lemma lt_pow_length_decimalDigits (n : ℕ) : n < 10 ^ (decimalDigits n).length :=
  (Nat.length_toDigits_le_iff (by norm_num) (List.length_pos_iff.mpr Nat.toDigits_ne_nil)).mp le_rfl

lemma pow_length_decimalDigits_le {n : ℕ} (hn : n ≠ 0) :
    10 ^ ((decimalDigits n).length - 1) ≤ n := by
  rcases Nat.eq_zero_or_pos ((decimalDigits n).length - 1) with hzero | hpos
  · rw [hzero]
    omega
  · by_contra hlt
    rw [not_le, ← Nat.length_toDigits_le_iff (by norm_num) hpos] at hlt
    change (decimalDigits n).length ≤ _ at hlt
    omega

/-- A decimal is below the power of ten that has as many digits. -/
lemma magnitude_lt (d : Decimal) :
    d.magnitude < 10 ^ (d.exponent + (decimalDigits d.digits).length) := by
  have hdigits : (d.digits : ℚ) < 10 ^ (decimalDigits d.digits).length := by
    exact_mod_cast lt_pow_length_decimalDigits d.digits
  rw [zpow_add₀ (by norm_num), zpow_natCast, mul_comm, magnitude]
  exact mul_lt_mul_of_pos_right hdigits (zpow_pos (by norm_num) _)

/-- A decimal other than zero is not below the power of ten that has one digit less. -/
lemma le_magnitude (hdigits : d.digits ≠ 0) :
    10 ^ (d.exponent + (decimalDigits d.digits).length - 1) ≤ d.magnitude := by
  have hpos : 0 < (decimalDigits d.digits).length := List.length_pos_iff.mpr Nat.toDigits_ne_nil
  have hdigits : (10 : ℚ) ^ ((decimalDigits d.digits).length - 1) ≤ d.digits := by
    exact_mod_cast pow_length_decimalDigits_le hdigits
  have hexponent : d.exponent + (decimalDigits d.digits).length - 1 =
      d.exponent + ((decimalDigits d.digits).length - 1 : ℕ) := by omega
  rw [hexponent, zpow_add₀ (by norm_num), zpow_natCast, mul_comm, magnitude]
  exact mul_le_mul_of_nonneg_right hdigits (by positivity)

/-! ### Reading -/

lemma two_pow_le_ten_pow (k : ℕ) : (2 : ℚ) ^ (23 * k) ≤ 10 ^ (7 * k) := by
  rw [pow_mul, pow_mul]
  exact pow_le_pow_left₀ (by norm_num) (by norm_num) k

/-- Numbers below half the least double are rounded to zero. -/
lemma isNearest_zero {x : ℚ} (hx : |x| < 2 ^ (-1075 : ℤ)) (negative : Bool) :
    (Double.zero negative).IsNearest x := by
  have hhalf : |x / 2 ^ (-1074 : ℤ)| < 1 / 2 := by
    rw [abs_div, abs_of_pos (by positivity : (0 : ℚ) < 2 ^ (-1074 : ℤ)),
      div_lt_iff₀ (by positivity)]
    rwa [show (-1075 : ℤ) = -1074 - 1 from rfl, zpow_sub_one₀ (by norm_num), mul_comm,
      ← one_div] at hx
  refine Double.isNearest_of_roundsTo (a := -1074) (m := 0) ⟨?_, ?_⟩ (.inr rfl) ?_ ?_ ?_
  · rw [Int.cast_zero, zero_sub, abs_neg]
    exact hhalf.le
  · rw [Int.cast_zero, zero_sub, abs_neg]
    exact fun h => absurd h hhalf.ne
  · calc |x| < 2 ^ (-1075 : ℤ) := hx
      _ ≤ 2 ^ (1023 : ℤ) := zpow_le_zpow_right₀ (by norm_num) (by norm_num)
      _ ≤ Double.overflow := Double.two_zpow_le_overflow
  · simp
  · exact fun _ => Even.zero

/-- Only decimals within the range of doubles are divided, but the others are what the quotient is
read as. -/
theorem toDouble?_eq_ofRatio? (d : Decimal) : d.toDouble? =
    Double.ofRatio? d.negative (d.digits * 10 ^ d.exponent.toNat) (10 ^ (-d.exponent).toNat) := by
  have hden : 0 < 10 ^ (-d.exponent).toNat := by positivity
  unfold toDouble?
  dsimp only
  split_ifs with hsmall hlarge
  · refine ((Double.ofRatio?_eq_some_iff hden).mpr ⟨rfl, ?_⟩).symm
    apply isNearest_zero
    rw [← magnitude_eq_div, abs_signFactor_mul _ d.magnitude_nonneg]
    rcases hsmall with hzero | hsmall
    · simp [magnitude, hzero]
    · calc d.magnitude < 10 ^ (d.exponent + (decimalDigits d.digits).length) := d.magnitude_lt
        _ ≤ 10 ^ (-(329 : ℕ) : ℤ) := zpow_le_zpow_right₀ (by norm_num) (by omega)
        _ ≤ 2 ^ (-(1081 : ℕ) : ℤ) := by
          rw [zpow_neg, zpow_neg, zpow_natCast, zpow_natCast]
          exact inv_anti₀ (by positivity) (two_pow_le_ten_pow 47)
        _ ≤ 2 ^ (-1075 : ℤ) := zpow_le_zpow_right₀ (by norm_num) (by norm_num)
  · refine ((Double.ofRatio?_eq_none_iff hden).mpr ?_).symm
    rw [← magnitude_eq_div]
    calc Double.overflow ≤ 2 ^ (1024 : ℤ) := Double.overflow_le_two_zpow
      _ ≤ 2 ^ ((1035 : ℕ) : ℤ) := zpow_le_zpow_right₀ (by norm_num) (by norm_num)
      _ ≤ 10 ^ ((315 : ℕ) : ℤ) := by
        rw [zpow_natCast, zpow_natCast]
        exact two_pow_le_ten_pow 45
      _ ≤ 10 ^ (d.exponent + (decimalDigits d.digits).length - 1) :=
        zpow_le_zpow_right₀ (by norm_num) (by omega)
      _ ≤ d.magnitude := d.le_magnitude (not_or.mp hsmall).1
  · rfl

/-- A decimal is read as the nearest double that has its sign. -/
theorem toDouble?_eq_some_iff :
    d.toDouble? = some r ↔ r.negative = d.negative ∧ r.IsNearest d.value := by
  rw [toDouble?_eq_ofRatio?, Double.ofRatio?_eq_some_iff (by positivity), ← magnitude_eq_div, value]

/-- A decimal has no double exactly if it is too large. -/
theorem toDouble?_eq_none_iff : d.toDouble? = none ↔ Double.overflow ≤ |d.value| := by
  rw [toDouble?_eq_ofRatio?, Double.ofRatio?_eq_none_iff (by positivity), ← magnitude_eq_div,
    abs_value]

end Decimal

end Exemplar
