import Exemplar.Proofs.Number.Value
import Mathlib.Tactic.FieldSimp

/-!
# Rounding to the nearest double

What the double nearest to a number is, apart from how it is found: no double is nearer, and where
another one is as near, its significand is even. Numbers from half way between the greatest double
and the next power of two on have none. A quotient is read as the nearest double.
-/

namespace Exemplar

/-! ### Rounding to integers -/

/-- Whether an integer is nearest to a number, and even if another one is as near. -/
structure RoundsTo (x : ℚ) (m : ℤ) : Prop where
  near : |m - x| ≤ 1 / 2
  even_of_half : |m - x| = 1 / 2 → Even m

namespace RoundsTo

variable {x : ℚ} {m : ℤ}

/-- Other integers are half a step away or more. -/
lemma half_le (h : RoundsTo x m) {j : ℤ} (hj : j ≠ m) : 1 / 2 ≤ |j - x| := by
  have hapart : (1 : ℚ) ≤ |(j : ℚ) - m| := by exact_mod_cast Int.one_le_abs (sub_ne_zero.mpr hj)
  have htriangle := abs_sub_le (j : ℚ) x m
  rw [abs_sub_comm x] at htriangle
  linarith [h.near]

lemma abs_le (h : RoundsTo x m) (j : ℤ) : |m - x| ≤ |j - x| := by
  by_cases hj : j = m
  · rw [hj]
  · exact h.near.trans (h.half_le hj)

lemma even (h : RoundsTo x m) {j : ℤ} (hj : j ≠ m) (heq : |j - x| = |m - x|) : Even m :=
  h.even_of_half (le_antisymm h.near (heq ▸ h.half_le hj))

lemma le (h : RoundsTo x m) {j : ℤ} (hj : x ≤ j) : m ≤ j := by
  have hlt : (m : ℚ) < j + 1 := by linarith [(abs_sub_le_iff.mp h.near).1]
  exact Int.lt_add_one_iff.mp (by exact_mod_cast hlt)

lemma ge (h : RoundsTo x m) {j : ℤ} (hj : j ≤ x) : j ≤ m := by
  have hlt : (j : ℚ) < m + 1 := by linarith [(abs_sub_le_iff.mp h.near).2]
  exact Int.lt_add_one_iff.mp (by exact_mod_cast hlt)

lemma mul_signFactor (h : RoundsTo x m) (negative : Bool) :
    RoundsTo (signFactor negative * x) (signFactor negative * m) := by
  have habs : |((signFactor negative * m : ℤ) : ℚ) - signFactor negative * x| = |m - x| := by
    push_cast
    rw [← mul_sub, abs_mul, ← Int.cast_abs, abs_signFactor, Int.cast_one, one_mul]
  exact ⟨habs ▸ h.near, fun heq => (h.even_of_half (habs ▸ heq)).mul_left _⟩

end RoundsTo

/-- Whether an integer is nearest to a quotient is decided without division. -/
lemma roundsTo_div {num den : ℕ} {m : ℤ} (hden : 0 < den)
    (hnear : 2 * (m * den - num).natAbs ≤ den)
    (heven : 2 * (m * den - num).natAbs = den → Even m) : RoundsTo (num / den) m := by
  have hpos : (0 : ℚ) < den := by exact_mod_cast hden
  have hdistance : |(m : ℚ) - num / den| = (m * den - num).natAbs / den := by
    have hsub : (m : ℚ) - num / den = (m * den - num) / den := by field_simp
    rw [hsub, abs_div, abs_of_pos hpos, Nat.cast_natAbs]
    push_cast
    rfl
  constructor
  · have hnear : (2 : ℚ) * (m * den - num).natAbs ≤ den := by exact_mod_cast hnear
    rw [hdistance, div_le_iff₀ hpos]
    linarith
  · intro hhalf
    rw [hdistance, div_eq_iff hpos.ne'] at hhalf
    have hhalf : (2 : ℚ) * (m * den - num).natAbs = den := by linarith
    exact heven (by exact_mod_cast hhalf)

lemma divNearest_roundsTo (num : ℕ) {den : ℕ} (hden : 0 < den) :
    RoundsTo (num / den) (divNearest num den) := by
  have hmod := Nat.mod_lt num hden
  have hdiv : ((num / den : ℕ) : ℤ) * den = num - (num % den : ℕ) := by
    rw [eq_sub_iff_add_eq]
    exact_mod_cast Nat.div_add_mod' num den
  have hdown : ((num / den : ℕ) : ℤ) * den - num = -(num % den : ℕ) := by omega
  have hup : ((num / den + 1 : ℕ) : ℤ) * den - num = den - (num % den : ℕ) := by
    rw [Nat.cast_succ, add_one_mul]
    omega
  unfold divNearest
  dsimp only
  split_ifs with hbelow habove
  · apply roundsTo_div hden <;> rw [hdown] <;> omega
  · apply roundsTo_div hden <;> rw [hup] <;> omega
  · -- half way between two integers, of which the quotient or its successor is even
    rcases Nat.mod_two_eq_zero_or_one (num / den) with heven | hodd
    · rw [heven, Nat.add_zero]
      refine roundsTo_div hden (by rw [hdown]; omega) fun _ => ?_
      exact (Int.even_coe_nat _).mpr (Nat.even_iff.mpr heven)
    · rw [hodd]
      refine roundsTo_div hden (by rw [hup]; omega) fun _ => ?_
      exact (Int.even_coe_nat _).mpr (Nat.odd_iff.mpr hodd).add_one

/-! ### The nearest double -/

namespace Double

/-- The least number that is at least as near to the power of two after the greatest double as to
the greatest double. -/
def overflow : ℚ := 2 ^ 1024 - 2 ^ 970

lemma overflow_eq : overflow = (2 ^ 53 - 1 / 2) * 2 ^ (971 : ℤ) := by
  have hpow : ∀ n : ℕ, (2 : ℚ) ^ n = 2 ^ ((n - 971 : ℤ) + 971) := fun n => by
    rw [sub_add_cancel, zpow_natCast]
  rw [overflow, hpow 1024, hpow 970, zpow_add₀ (by norm_num), zpow_add₀ (by norm_num), ← sub_mul]
  norm_num

lemma overflow_le_two_zpow : overflow ≤ 2 ^ (1024 : ℤ) := by
  rw [overflow_eq, show (1024 : ℤ) = 53 + 971 from rfl, zpow_add₀ (by norm_num)]
  exact mul_le_mul_of_nonneg_right (by norm_num) (by positivity)

lemma two_zpow_le_overflow : 2 ^ (1023 : ℤ) ≤ overflow := by
  rw [overflow_eq, show (1023 : ℤ) = 52 + 971 from rfl, zpow_add₀ (by norm_num)]
  exact mul_le_mul_of_nonneg_right (by norm_num) (by positivity)

/-- Whether a double is the one that a number is rounded to: the nearest one, and of two that are
equally near the one whose significand is even. -/
structure IsNearest (d : Double) (x : ℚ) : Prop where
  inRange : |x| < overflow
  le (e : Double) : |d.value - x| ≤ |e.value - x|
  even (e : Double) : |e.value - x| = |d.value - x| → e.value = d.value ∨ Even d.significand

variable {d e : Double} {x : ℚ} {a m : ℤ}

lemma abs_mul_two_zpow_sub (j a : ℤ) (x : ℚ) :
    |j * 2 ^ a - x| = |j - x / 2 ^ a| * 2 ^ a := by
  have hpos : (0 : ℚ) < 2 ^ a := zpow_pos (by norm_num) a
  rw [← abs_of_pos hpos, ← abs_mul, abs_of_pos hpos, sub_mul, div_mul_cancel₀ _ hpos.ne']

/-- What a number is rounded to on a grid is as near to it as every double, if the number is large
enough for the finer grids to end below it. -/
lemma abs_sub_le_of_roundsTo (hm : RoundsTo (x / 2 ^ a) m)
    (hlow : 2 ^ (a + 52) ≤ |x| ∨ a = -1074) (e : Double) :
    |m * 2 ^ a - x| ≤ |e.value - x| ∧
      (|e.value - x| = |m * 2 ^ a - x| → e.value = m * 2 ^ a ∨ Even m) := by
  have hpos : (0 : ℚ) < 2 ^ a := zpow_pos (by norm_num) a
  by_cases ha : a ≤ e.exponent
  · rw [exists_value_eq ha]
    generalize e.coefficient * 2 ^ (e.exponent - a).toNat = j
    rw [abs_mul_two_zpow_sub, abs_mul_two_zpow_sub]
    refine ⟨mul_le_mul_of_nonneg_right (hm.abs_le j) hpos.le, fun heq => ?_⟩
    by_cases hj : j = m
    · exact .inl (by rw [hj])
    · exact .inr (hm.even hj (mul_right_cancel₀ hpos.ne' heq))
  · -- the double is below a full significand on the grid, which is not above the number
    rw [not_le] at ha
    have hlow : 2 ^ (a + 52) ≤ |x| :=
      hlow.resolve_right fun h => by linarith [e.neg_1074_le_exponent]
    obtain ⟨j, hj⟩ : ∃ j : ℤ, |(j : ℚ) * 2 ^ a - x| = |x| - 2 ^ (a + 52) := by
      have hfull := two_zpow_add a 52
      rw [Nat.cast_ofNat] at hfull
      rw [hfull] at hlow ⊢
      rcases abs_cases x with ⟨hx, -⟩ | ⟨hx, -⟩ <;> rw [hx] at hlow ⊢
      · refine ⟨2 ^ 52, ?_⟩
        rw [abs_sub_comm, abs_of_nonneg] <;> push_cast <;> linarith
      · refine ⟨-2 ^ 52, ?_⟩
        rw [abs_of_nonneg] <;> push_cast <;> linarith
    have hgrid : |(m : ℚ) * 2 ^ a - x| ≤ |(j : ℚ) * 2 ^ a - x| := by
      rw [abs_mul_two_zpow_sub, abs_mul_two_zpow_sub]
      exact mul_le_mul_of_nonneg_right (hm.abs_le j) hpos.le
    have hfar : |(m : ℚ) * 2 ^ a - x| < |e.value - x| := by
      have hbelow := abs_value_lt ha
      have htriangle := abs_sub_abs_le_abs_sub x e.value
      rw [abs_sub_comm x] at htriangle
      linarith
    exact ⟨hfar.le, fun heq => absurd heq hfar.ne'⟩

/-- What a number is rounded to on a grid is the nearest double, if it is one. -/
lemma isNearest_of_roundsTo (hm : RoundsTo (x / 2 ^ a) m)
    (hlow : 2 ^ (a + 52) ≤ |x| ∨ a = -1074) (hrange : |x| < overflow)
    (hvalue : d.value = m * 2 ^ a) (heven : Even m → Even d.significand) : d.IsNearest x where
  inRange := hrange
  le e := hvalue ▸ (abs_sub_le_of_roundsTo hm hlow e).1
  even e heq := by
    rw [hvalue] at heq ⊢
    exact ((abs_sub_le_of_roundsTo hm hlow e).2 heq).imp id heven

/-- Between two numbers that are equally near, every number is nearer. -/
lemma abs_sub_lt_of_between {p q r : ℚ} (hpq : |p - x| = |q - x|) (hpr : p < r) (hrq : r < q) :
    |r - x| < |p - x| := by
  rcases abs_eq_abs.mp hpq with heq | heq
  · linarith
  · have hneg : p - x < 0 := by linarith
    rw [abs_of_neg hneg, abs_lt]
    constructor <;> linarith

/-- Between two different numbers on the grid of a double that are both even multiples, there is
another double. -/
lemma exists_between (hd : Even d.coefficient) {j : ℤ} (hj : Even j) (hne : d.coefficient ≠ j) :
    ∃ e : Double, (d.value < e.value ∧ e.value < j * 2 ^ d.exponent) ∨
      (j * 2 ^ d.exponent < e.value ∧ e.value < d.value) := by
  have hpos : (0 : ℚ) < 2 ^ d.exponent := zpow_pos (by norm_num) _
  have hbound := d.abs_coefficient_lt
  rw [Int.abs_eq_natAbs] at hbound
  obtain ⟨k, hk⟩ := hd
  obtain ⟨l, hl⟩ := hj
  have hmono : ∀ {p q : ℤ}, p < q → (p : ℚ) * 2 ^ d.exponent < q * 2 ^ d.exponent :=
    fun h => mul_lt_mul_of_pos_right (by exact_mod_cast h) hpos
  rcases lt_or_gt_of_ne hne with hlt | hlt
  · have hnext : |d.coefficient + 1| < 2 ^ 53 := by
      rw [Int.abs_eq_natAbs]
      omega
    obtain ⟨e, he⟩ := exists_value hnext d.neg_1074_le_exponent d.exponent_le_971
    refine ⟨e, .inl ?_⟩
    rw [he]
    exact ⟨hmono (by omega), hmono (by omega)⟩
  · have hnext : |d.coefficient - 1| < 2 ^ 53 := by
      rw [Int.abs_eq_natAbs]
      omega
    obtain ⟨e, he⟩ := exists_value hnext d.neg_1074_le_exponent d.exponent_le_971
    refine ⟨e, .inr ?_⟩
    rw [he]
    exact ⟨hmono (by omega), hmono (by omega)⟩

/-- A number has one nearest double, or two zeros. -/
theorem IsNearest.value_eq (hd : d.IsNearest x) (he : e.IsNearest x) : d.value = e.value := by
  have hdistance : |d.value - x| = |e.value - x| := le_antisymm (hd.le e) (he.le d)
  by_contra hne
  wlog hexponent : d.exponent ≤ e.exponent generalizing d e
  · exact this he hd hdistance.symm (Ne.symm hne) (by omega)
  -- on the finer grid both are even multiples, so a double between them is nearer than both
  have hdeven : Even d.coefficient := even_coefficient_iff.mpr
    ((hd.even e hdistance.symm).resolve_left fun h => hne h.symm)
  have heeven : Even (e.coefficient * 2 ^ (e.exponent - d.exponent).toNat) :=
    (even_coefficient_iff.mpr ((he.even d hdistance).resolve_left hne)).mul_right _
  have hvalue := exists_value_eq hexponent
  have hcoefficient : d.coefficient ≠ e.coefficient * 2 ^ (e.exponent - d.exponent).toNat :=
    fun h => hne (by rw [hvalue, ← h, value])
  obtain ⟨f, hf⟩ := exists_between hdeven heeven hcoefficient
  rw [← hvalue] at hf
  rcases hf with ⟨hdf, hfe⟩ | ⟨hef, hfd⟩
  · exact absurd (abs_sub_lt_of_between hdistance hdf hfe) (not_lt.mpr (hd.le f))
  · exact absurd (abs_sub_lt_of_between hdistance.symm hef hfd) (not_lt.mpr (he.le f))

/-- A double is nearest to the number that it stands for. -/
lemma isNearest_value (d : Double) : d.IsNearest d.value where
  inRange := by
    have hpos : (0 : ℚ) < 2 ^ (971 : ℤ) := zpow_pos (by norm_num) _
    have hsignificand : (d.significand : ℚ) ≤ 2 ^ 53 - 1 := by
      have hlt : d.significand < 2 ^ 53 := d.canonical.1
      exact_mod_cast (by omega : (d.significand : ℤ) ≤ 2 ^ 53 - 1)
    calc |d.value| = d.significand * 2 ^ d.exponent := d.abs_value
      _ ≤ (2 ^ 53 - 1) * 2 ^ (971 : ℤ) := mul_le_mul hsignificand
        (zpow_le_zpow_right₀ (by norm_num) d.exponent_le_971) (by positivity) (by norm_num)
      _ < (2 ^ 53 - 1 / 2) * 2 ^ (971 : ℤ) := mul_lt_mul_of_pos_right (by norm_num) hpos
      _ = overflow := overflow_eq.symm
  le e := by
    rw [sub_self, abs_zero]
    exact abs_nonneg _
  even e heq := by
    rw [sub_self, abs_zero, abs_eq_zero, sub_eq_zero] at heq
    exact .inl heq

/-- Rounding does not take a number from one side of a double to the other. -/
lemma IsNearest.le_value (hd : d.IsNearest x) (he : e.value ≤ x) : e.value ≤ d.value := by
  by_contra hlt
  have hle := hd.le e
  rw [abs_of_neg (by linarith), abs_of_nonpos (by linarith)] at hle
  linarith

lemma IsNearest.value_le (hd : d.IsNearest x) (he : x ≤ e.value) : d.value ≤ e.value := by
  by_contra hlt
  have hle := hd.le e
  rw [abs_of_pos (by linarith), abs_of_nonneg (by linarith)] at hle
  linarith

/-- The double of an integer other than zero has its sign. -/
lemma IsNearest.negative_eq {z : ℤ} (hz : z ≠ 0) (hd : d.IsNearest z) :
    d.negative = decide (z < 0) := by
  have hone : ∀ c : ℤ, |c| = 1 → ∃ e : Double, e.value = c := fun c hc => by
    obtain ⟨e, he⟩ := exists_value (c := c) (a := 0) (by omega) (by omega) (by omega)
    exact ⟨e, by rw [he, zpow_zero, mul_one]⟩
  rw [Bool.eq_iff_iff, decide_eq_true_eq]
  rcases lt_or_gt_of_ne hz with hneg | hpos
  · obtain ⟨e, he⟩ := hone (-1) (by norm_num)
    have hbelow : d.value ≤ -1 := by
      have hle : (z : ℚ) ≤ e.value := by rw [he]; exact_mod_cast (by omega : z ≤ -1)
      simpa [he] using hd.value_le hle
    rw [negative_iff (by linarith)]
    exact iff_of_true (by linarith) hneg
  · obtain ⟨e, he⟩ := hone 1 (by norm_num)
    have habove : 1 ≤ d.value := by
      have hle : e.value ≤ z := by rw [he]; exact_mod_cast (by omega : 1 ≤ z)
      simpa [he] using hd.le_value hle
    rw [negative_iff (by linarith)]
    exact iff_of_false (by linarith) (by omega)

/-! ### Quotients -/

section

variable {num den : ℕ} (hden : 0 < den)

include hden

lemma lt_two_zpow_iff (a : ℤ) :
    num * 2 ^ (-a).toNat < den * 2 ^ a.toNat ↔ (num / den : ℚ) < 2 ^ a := by
  have hpos : (0 : ℚ) < den := by exact_mod_cast hden
  have hpow : (0 : ℚ) < (2 ^ (-a).toNat : ℕ) := by positivity
  rw [show (2 : ℚ) = (2 : ℕ) from rfl, zpow_eq_div (by norm_num), div_lt_div_iff₀ hpos hpow,
    mul_comm (_ : ℚ) (den : ℚ)]
  exact_mod_cast Iff.rfl

/-- The logarithms of two numbers tell the binary digits of their quotient up to one. -/
lemma two_zpow_log2_bounds (hnum : 0 < num) :
    (2 : ℚ) ^ ((num.log2 : ℤ) - den.log2 - 1) ≤ num / den ∧
      (num / den : ℚ) < 2 ^ ((num.log2 : ℤ) - den.log2 + 1) := by
  have hbounds : ∀ {n : ℕ}, 0 < n → (2 : ℚ) ^ (n.log2 : ℤ) ≤ n ∧ n < (2 : ℚ) ^ ((n.log2 : ℤ) + 1) :=
    fun h => ⟨by exact_mod_cast Nat.log2_self_le h.ne', by exact_mod_cast Nat.lt_log2_self⟩
  have hpos : (0 : ℚ) < den := by exact_mod_cast hden
  have hpow : ∀ a : ℤ, (0 : ℚ) < 2 ^ a := zpow_pos (by norm_num)
  obtain ⟨hlow, hhigh⟩ := hbounds hnum
  obtain ⟨hlow', hhigh'⟩ := hbounds hden
  constructor
  · calc (2 : ℚ) ^ ((num.log2 : ℤ) - den.log2 - 1)
        = 2 ^ (num.log2 : ℤ) / 2 ^ ((den.log2 : ℤ) + 1) := by
          rw [← zpow_sub₀ (by norm_num)]
          congr 1
          ring
      _ ≤ num / den := div_le_div₀ (Nat.cast_nonneg _) hlow hpos hhigh'.le
  · calc (num / den : ℚ) < 2 ^ ((num.log2 : ℤ) + 1) / 2 ^ (den.log2 : ℤ) :=
          div_lt_div₀ hhigh hlow' (hpow _).le (hpow _)
      _ = 2 ^ ((num.log2 : ℤ) - den.log2 + 1) := by
          rw [← zpow_sub₀ (by norm_num)]
          congr 1
          ring

/-- The exponent of a quotient is the least one in range on whose grid the quotient has at most 53
bits. -/
lemma binaryExponent_spec (hnum : 0 < num) :
    -1074 ≤ binaryExponent num den ∧ (num / den : ℚ) < 2 ^ (binaryExponent num den + 53) ∧
      ((2 : ℚ) ^ (binaryExponent num den + 52) ≤ num / den ∨ binaryExponent num den = -1074) := by
  obtain ⟨hlow, hhigh⟩ := two_zpow_log2_bounds hden hnum
  obtain ⟨exact, hexact, hexactLow, hexactHigh⟩ : ∃ exact : ℤ,
      binaryExponent num den = max exact (-1074) ∧ (2 : ℚ) ^ (exact + 52) ≤ num / den ∧
        (num / den : ℚ) < 2 ^ (exact + 53) := by
    refine ⟨_, rfl, ?_⟩
    simp only [Nat.pow_eq, lt_two_zpow_iff hden]
    split_ifs with hlt
    · exact ⟨by convert hlow using 2; ring, by convert hlt using 2; ring⟩
    · exact ⟨not_lt.mp hlt, by convert hhigh using 2; ring⟩
  rw [hexact]
  refine ⟨le_max_right _ _, hexactHigh.trans_le ?_, ?_⟩
  · exact zpow_le_zpow_right₀ (by norm_num) (by omega)
  · rcases max_choice exact (-1074) with hmax | hmax <;> rw [hmax]
    · exact .inl hexactLow
    · exact .inr rfl

/-- The exponent and the significand that a quotient is rounded to. -/
lemma exists_rounding (negative : Bool) (num : ℕ) :
    ∃ (a : ℤ) (m : ℕ), -1074 ≤ a ∧ (num / den : ℚ) < 2 ^ (a + 53) ∧
      ((2 : ℚ) ^ (a + 52) ≤ num / den ∨ a = -1074) ∧ RoundsTo (num / den / 2 ^ a) m ∧
      ofRatio? negative num den =
        if m = 2 ^ 53 then ofParts? negative (2 ^ 52) (a + 1) else ofParts? negative m a := by
  obtain ⟨a, ha, hleast, hhigh, hlow⟩ : ∃ a : ℤ,
      a = (if num = 0 then -1074 else binaryExponent num den) ∧ -1074 ≤ a ∧
        (num / den : ℚ) < 2 ^ (a + 53) ∧ ((2 : ℚ) ^ (a + 52) ≤ num / den ∨ a = -1074) := by
    refine ⟨_, rfl, ?_⟩
    split_ifs with hnum
    · exact ⟨le_rfl, by rw [hnum, Nat.cast_zero, zero_div]; positivity, .inr rfl⟩
    · exact binaryExponent_spec hden (Nat.pos_of_ne_zero hnum)
  refine ⟨a, divNearest (num * 2 ^ (-a).toNat) (den * 2 ^ a.toNat), hleast, hhigh, hlow, ?_, ?_⟩
  · have hscaled : (num / den / 2 ^ a : ℚ) =
        (num * 2 ^ (-a).toNat : ℕ) / (den * 2 ^ a.toNat : ℕ) := by
      have hpow := zpow_eq_div (b := 2) (by norm_num) a
      rw [Nat.cast_two] at hpow
      rw [hpow]
      push_cast
      rw [div_div_div_eq]
    rw [hscaled]
    exact divNearest_roundsTo _ (by positivity)
  · rw [ha]
    rfl

end

lemma ofParts?_eq_some_iff {negative : Bool} {significand : ℕ} :
    ofParts? negative significand a = some d ↔
      d.negative = negative ∧ d.significand = significand ∧ d.exponent = a := by
  unfold ofParts?
  split_ifs with h
  · rw [Option.some_inj]
    constructor
    · rintro rfl
      exact ⟨rfl, rfl, rfl⟩
    · rintro ⟨rfl, rfl, rfl⟩
      rfl
  · simp only [false_iff]
    rintro ⟨-, rfl, rfl⟩
    exact h d.canonical

lemma ofParts?_eq_none_iff {negative : Bool} {significand : ℕ} :
    ofParts? negative significand a = none ↔ ¬ Canonical significand a := by
  unfold ofParts?
  split_ifs with h <;> simp [h]

/-- What a number is rounded to has as many bits as the number. -/
lemma roundsTo_bounds (hm : RoundsTo (x / 2 ^ a) m) (hhigh : x < 2 ^ (a + 53))
    (hlow : 2 ^ (a + 52) ≤ x ∨ a = -1074) : m ≤ 2 ^ 53 ∧ (2 ^ 52 ≤ m ∨ a = -1074) := by
  have hpos : (0 : ℚ) < 2 ^ a := zpow_pos (by norm_num) a
  constructor
  · apply hm.le
    rw [div_le_iff₀ hpos, Int.cast_pow, Int.cast_ofNat, ← two_zpow_add]
    exact hhigh.le
  · refine hlow.imp (fun hlow => hm.ge ?_) id
    rw [le_div_iff₀ hpos, Int.cast_pow, Int.cast_ofNat, ← two_zpow_add]
    exact hlow

/-- A number with the greatest exponent is too large if it is rounded up to the next power of
two. -/
lemma overflow_le_iff_of_greatest (hm : RoundsTo (x / 2 ^ (971 : ℤ)) m) (hle : m ≤ 2 ^ 53) :
    overflow ≤ x ↔ m = 2 ^ 53 := by
  obtain ⟨hdown, hup⟩ := abs_sub_le_iff.mp hm.near
  rw [overflow_eq, ← le_div_iff₀ (by positivity)]
  generalize x / 2 ^ (971 : ℤ) = y at *
  constructor
  · intro hlarge
    by_contra hne
    -- otherwise the number is half way, and the integer below is odd
    have hbelow : (m : ℚ) ≤ 2 ^ 53 - 1 := by exact_mod_cast (by omega : m ≤ 2 ^ 53 - 1)
    have hodd : m = 2 ^ 53 - 1 := by exact_mod_cast (by linarith : (m : ℚ) = 2 ^ 53 - 1)
    have heven : Even m := by
      apply hm.even_of_half
      rw [abs_sub_comm, abs_of_nonneg] <;> linarith
    rw [hodd] at heven
    exact absurd heven (by decide)
  · rintro rfl
    rw [Int.cast_pow, Int.cast_ofNat] at hdown
    linarith

/-- A number is too large if its exponent is, at the latest after rounding. -/
lemma overflow_le_iff (hm : RoundsTo (x / 2 ^ a) m) (hhigh : x < 2 ^ (a + 53))
    (hlow : 2 ^ (a + 52) ≤ x ∨ a = -1074) : overflow ≤ x ↔ 971 < a ∨ (a = 971 ∧ m = 2 ^ 53) := by
  rcases lt_trichotomy a 971 with ha | rfl | ha
  · have hsmall : x < overflow :=
      calc x < 2 ^ (a + 53) := hhigh
        _ ≤ 2 ^ (1023 : ℤ) := zpow_le_zpow_right₀ (by norm_num) (by omega)
        _ ≤ overflow := two_zpow_le_overflow
    exact iff_of_false (not_le.mpr hsmall) (by omega)
  · rw [overflow_le_iff_of_greatest hm (roundsTo_bounds hm hhigh hlow).1]
    simp only [lt_self_iff_false, true_and, false_or]
  · have hlarge : overflow ≤ x :=
      calc overflow ≤ 2 ^ (1024 : ℤ) := overflow_le_two_zpow
        _ ≤ 2 ^ (a + 52) := zpow_le_zpow_right₀ (by norm_num) (by omega)
        _ ≤ x := hlow.resolve_right (by omega)
    exact iff_of_true hlarge (.inl ha)

section

variable {negative : Bool} {num den : ℕ} (hden : 0 < den)

include hden

/-- A quotient has no double exactly if it is too large. -/
theorem ofRatio?_eq_none_iff : ofRatio? negative num den = none ↔ overflow ≤ num / den := by
  obtain ⟨a, m, hleast, hhigh, hlow, hm, heq⟩ := exists_rounding hden negative num
  obtain ⟨hle, hge⟩ := roundsTo_bounds hm hhigh hlow
  rw [overflow_le_iff hm hhigh hlow, heq]
  split_ifs with hcarry <;> rw [ofParts?_eq_none_iff] <;> simp only [Canonical, Nat.pow_eq] <;>
    omega

/-- The double of a quotient is the nearest one. -/
theorem isNearest_of_ofRatio? (h : ofRatio? negative num den = some d) :
    d.negative = negative ∧ d.IsNearest (signFactor negative * (num / den)) := by
  obtain ⟨a, m, hleast, hhigh, hlow, hm, heq⟩ := exists_rounding hden negative num
  obtain ⟨hnegative, hvalue, heven⟩ : d.negative = negative ∧
      (d.significand : ℚ) * 2 ^ d.exponent = m * 2 ^ a ∧ (Even m → Even d.significand) := by
    rw [heq] at h
    split_ifs at h with hcarry
    · obtain ⟨hnegative, hsignificand, hexponent⟩ := ofParts?_eq_some_iff.mp h
      refine ⟨hnegative, ?_, fun _ => by rw [hsignificand]; decide⟩
      rw [hsignificand, hexponent, hcarry, zpow_add_one₀ (by norm_num)]
      push_cast
      ring
    · obtain ⟨hnegative, hsignificand, hexponent⟩ := ofParts?_eq_some_iff.mp h
      rw [hsignificand, hexponent]
      exact ⟨hnegative, rfl, id⟩
  have habs := abs_signFactor_mul negative (by positivity : (0 : ℚ) ≤ num / den)
  have hrange : (num / den : ℚ) < overflow := by
    have hsome : ofRatio? negative num den ≠ none := by simp [h]
    rwa [Ne, ofRatio?_eq_none_iff hden, not_le] at hsome
  refine ⟨hnegative, isNearest_of_roundsTo (a := a) (m := signFactor negative * m) ?_ ?_ ?_ ?_ ?_⟩
  · rw [mul_div_assoc]
    exact hm.mul_signFactor negative
  · rwa [habs]
  · rwa [habs]
  · rw [value, coefficient, hnegative]
    push_cast
    rw [mul_assoc, hvalue, mul_assoc]
  · intro h
    apply heven
    unfold signFactor at h
    cases negative <;> simpa using h

/-- A quotient is read as the nearest double that has the sign, if there is one. -/
theorem ofRatio?_eq_some_iff : ofRatio? negative num den = some d ↔
    d.negative = negative ∧ d.IsNearest (signFactor negative * (num / den)) := by
  refine ⟨isNearest_of_ofRatio? hden, fun ⟨hnegative, hd⟩ => ?_⟩
  have hsome : ofRatio? negative num den ≠ none := by
    rw [Ne, ofRatio?_eq_none_iff hden, not_le]
    rw [← abs_signFactor_mul negative (by positivity : (0 : ℚ) ≤ num / den)]
    exact hd.inRange
  obtain ⟨e, he⟩ := Option.ne_none_iff_exists'.mp hsome
  obtain ⟨hnegative', he'⟩ := isNearest_of_ofRatio? hden he
  rw [he, eq_of_value_eq (hnegative'.trans hnegative.symm) (he'.value_eq hd)]

end

end Double

end Exemplar
