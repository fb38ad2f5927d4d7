import Exemplar.Number.Double
import Mathlib.Algebra.Order.Field.Power
import Mathlib.Algebra.Ring.Parity
import Mathlib.Data.Rat.Cast.Order
import Mathlib.Tactic.Linarith
import Mathlib.Tactic.NormNum
import Mathlib.Tactic.Positivity
import Mathlib.Tactic.Ring

/-!
# The numbers that doubles stand for

A double stands for an integer on a grid of powers of two. All doubles with an exponent from a
given one on are on its grid, and those with a smaller exponent are nearer to zero than any double
with a full significand on it. Apart from the two zeros, no number has two doubles.
-/

namespace Exemplar

/-- A sign as a factor. -/
def signFactor (negative : Bool) : ℤ := if negative then -1 else 1

@[simp] lemma abs_signFactor (negative : Bool) : |signFactor negative| = 1 := by
  cases negative <;> rfl

lemma abs_signFactor_mul (negative : Bool) {x : ℚ} (hx : 0 ≤ x) :
    |signFactor negative * x| = x := by
  rw [abs_mul, ← Int.cast_abs, abs_signFactor, Int.cast_one, one_mul, abs_of_nonneg hx]

/-- An integer is its sign and its absolute value. -/
lemma signFactor_mul_natAbs (z : ℤ) : signFactor (z < 0) * z.natAbs = z := by
  unfold signFactor
  by_cases hz : z < 0
  · rw [decide_eq_true hz, if_pos rfl]
    omega
  · rw [decide_eq_false hz, if_neg Bool.false_ne_true]
    omega

/-- A power as a quotient of natural numbers. -/
lemma zpow_eq_div {b : ℕ} (hb : 0 < b) (a : ℤ) :
    (b : ℚ) ^ a = (b ^ a.toNat : ℕ) / (b ^ (-a).toNat : ℕ) := by
  have hne : (b : ℚ) ≠ 0 := by exact_mod_cast hb.ne'
  rw [Nat.cast_pow, Nat.cast_pow, ← zpow_natCast, ← zpow_natCast, ← zpow_sub₀ hne]
  congr 1
  omega

lemma two_zpow_add (a : ℤ) (n : ℕ) : (2 : ℚ) ^ (a + n) = 2 ^ n * 2 ^ a := by
  rw [zpow_add₀ (by norm_num), zpow_natCast, mul_comm]

namespace Double

/-- The significand with its sign. -/
def coefficient (d : Double) : ℤ := signFactor d.negative * d.significand

/-- The number that a double stands for. -/
def value (d : Double) : ℚ := d.coefficient * 2 ^ d.exponent

variable {d e : Double} {a : ℤ}

lemma abs_coefficient (d : Double) : |d.coefficient| = d.significand := by
  simp [coefficient, abs_mul]

lemma abs_value (d : Double) : |d.value| = d.significand * 2 ^ d.exponent := by
  rw [value, abs_mul, abs_of_pos (zpow_pos (by norm_num : (0 : ℚ) < 2) d.exponent), ← Int.cast_abs,
    abs_coefficient, Int.cast_natCast]

lemma even_coefficient_iff : Even d.coefficient ↔ Even d.significand := by
  unfold coefficient signFactor
  cases d.negative <;> simp

lemma abs_coefficient_lt (d : Double) : |d.coefficient| < 2 ^ 53 := by
  rw [abs_coefficient]
  exact_mod_cast d.canonical.1

lemma neg_1074_le_exponent (d : Double) : -1074 ≤ d.exponent := d.canonical.2.1

lemma exponent_le_971 (d : Double) : d.exponent ≤ 971 := d.canonical.2.2.1

/-- A double with a greater exponent than the least one has a full significand. -/
lemma two_pow_52_le (h : -1074 < d.exponent) : 2 ^ 52 ≤ d.significand := by
  rcases d.canonical.2.2.2 with hfull | hleast
  · exact hfull
  · omega

/-! ### Grids -/

/-- A double is on the grid of every exponent up to its own. -/
lemma exists_value_eq (h : a ≤ d.exponent) :
    d.value = (d.coefficient * 2 ^ (d.exponent - a).toNat : ℤ) * 2 ^ a := by
  have hexponent : d.exponent = (d.exponent - a).toNat + a := by omega
  calc d.value = d.coefficient * 2 ^ (((d.exponent - a).toNat : ℤ) + a) := by
        rw [← hexponent, value]
    _ = (d.coefficient * 2 ^ (d.exponent - a).toNat : ℤ) * 2 ^ a := by
        rw [zpow_add₀ (by norm_num), zpow_natCast]
        push_cast
        ring

/-- A double with a smaller exponent is nearer to zero than a full significand. -/
lemma abs_value_lt (h : d.exponent < a) : |d.value| < 2 ^ (a + 52) := by
  have hpos : (0 : ℚ) < 2 ^ d.exponent := zpow_pos (by norm_num) _
  have hsignificand : (d.significand : ℚ) < 2 ^ (53 : ℤ) := by exact_mod_cast d.canonical.1
  calc |d.value| = d.significand * 2 ^ d.exponent := d.abs_value
    _ < 2 ^ (53 : ℤ) * 2 ^ d.exponent := mul_lt_mul_of_pos_right hsignificand hpos
    _ = 2 ^ (53 + d.exponent) := (zpow_add₀ (by norm_num) _ _).symm
    _ ≤ 2 ^ (a + 52) := zpow_le_zpow_right₀ (by norm_num) (by omega)

/-- Every integer of 53 bits on the grid of an exponent in range is a double. -/
lemma exists_value {c a : ℤ} (hc : |c| < 2 ^ 53) (hleast : -1074 ≤ a) (hgreatest : a ≤ 971) :
    ∃ d : Double, d.value = c * 2 ^ a := by
  rw [Int.abs_eq_natAbs] at hc
  by_cases hcanonical : Canonical c.natAbs a
  · refine ⟨⟨c < 0, c.natAbs, a, hcanonical⟩, ?_⟩
    rw [value, coefficient, signFactor_mul_natAbs]
  · -- the significand is not full and has a double on the next finer grid
    have hsmall : c.natAbs < 2 ^ 52 ∧ -1074 < a := by
      simp only [Canonical, Nat.pow_eq, not_and_or, not_le] at hcanonical
      omega
    have hdouble : |2 * c| < 2 ^ 53 := by
      rw [Int.abs_eq_natAbs]
      omega
    obtain ⟨d, hd⟩ := exists_value (a := a - 1) hdouble (by omega) (by omega)
    refine ⟨d, ?_⟩
    rw [hd, zpow_sub_one₀ (by norm_num)]
    push_cast
    ring
termination_by (a + 1074).toNat

/-! ### Uniqueness -/

/-- Doubles of equal magnitude have equal exponents. -/
lemma exponent_le_of_abs_eq (h : |d.value| = |e.value|) : d.exponent ≤ e.exponent := by
  by_contra hlt
  rw [not_le] at hlt
  have hfull : (2 : ℚ) ^ (52 : ℤ) ≤ d.significand := by
    exact_mod_cast two_pow_52_le (by linarith [e.neg_1074_le_exponent])
  have hlow : (2 : ℚ) ^ (d.exponent + 52) ≤ |d.value| := by
    rw [abs_value, add_comm, zpow_add₀ (by norm_num)]
    exact mul_le_mul_of_nonneg_right hfull (zpow_nonneg (by norm_num) _)
  exact absurd (abs_value_lt hlt) (not_lt.mpr (h ▸ hlow))

/-- A double is determined by its sign and the number that it stands for. -/
lemma eq_of_value_eq (hsign : d.negative = e.negative) (h : d.value = e.value) : d = e := by
  have hexponent : d.exponent = e.exponent :=
    le_antisymm (exponent_le_of_abs_eq (by rw [h])) (exponent_le_of_abs_eq (by rw [h]))
  have hsignificand : d.significand = e.significand := by
    have habs : |d.value| = |e.value| := by rw [h]
    rw [abs_value, abs_value, hexponent] at habs
    exact_mod_cast mul_right_cancel₀ (zpow_ne_zero _ (by norm_num)) habs
  cases d
  cases e
  simp_all

lemma negative_iff (h : d.value ≠ 0) : d.negative ↔ d.value < 0 := by
  have hpos : (0 : ℚ) < d.significand * 2 ^ d.exponent := by
    rw [← abs_value]
    exact abs_pos.mpr h
  have hvalue : d.value = signFactor d.negative * (d.significand * 2 ^ d.exponent) := by
    simp [value, coefficient, mul_assoc]
  rw [hvalue]
  unfold signFactor
  cases d.negative
  · simpa using hpos.le
  · simpa using hpos

@[simp] lemma value_zero (negative : Bool) : (zero negative).value = 0 := by
  simp [value, coefficient, zero]

/-- Zero only has the two zeros. -/
lemma eq_zero_of_value_eq_zero (h : d.value = 0) : d = zero d.negative :=
  eq_of_value_eq rfl (h.trans (value_zero _).symm)

/-- Apart from the zeros, no number has two doubles. -/
lemma eq_of_value_eq_of_ne_zero (hne : d.value ≠ 0) (h : d.value = e.value) : d = e := by
  refine eq_of_value_eq (Bool.eq_iff_iff.mpr ?_) h
  rw [negative_iff hne, negative_iff (h ▸ hne), h]

end Double

end Exemplar
