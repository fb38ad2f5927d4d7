import Exemplar.Proofs.Number.Decimals
import Mathlib.Data.List.TakeWhile

/-!
# Decimal numerals

What is written for a decimal, positionally and without an exponent, is read as a decimal of the
same value. The fewest digits that are chosen for a double are read as this double again.
-/

namespace Exemplar

namespace Decimal

/-! ### Signs and digits -/

/-- A sign is read off a text that starts with a digit. -/
lemma readSign_signed (negative : Bool) {text : List Char} (h : ∀ c ∈ text.head?, c.isDigit) :
    readSign (signed negative text) = (negative, text) := by
  cases negative
  · unfold readSign signed
    rw [if_neg Bool.false_ne_true]
    split
    · exact absurd (h '-' rfl) (by decide)
    · exact absurd (h '+' rfl) (by decide)
    · rfl
  · rfl

lemma head?_isDigit {digits : List Char} (hdigits : ∀ c ∈ digits, c.isDigit) :
    ∀ c ∈ digits.head?, c.isDigit :=
  fun c hc => hdigits c (List.mem_of_mem_head? hc)

lemma readDigits_eq_iff {text digits : List Char} :
    readDigits text = (digits, []) ↔ text = digits ∧ ∀ c ∈ digits, c.isDigit := by
  unfold readDigits
  rw [Prod.mk.injEq, List.dropWhile_eq_nil_iff]
  constructor
  · rintro ⟨htake, hdigits⟩
    rw [List.takeWhile_eq_self_iff.mpr hdigits] at htake
    exact ⟨htake, htake ▸ hdigits⟩
  · rintro ⟨rfl, hdigits⟩
    exact ⟨List.takeWhile_eq_self_iff.mpr hdigits, hdigits⟩

lemma readDigits_append {digits : List Char} (hdigits : ∀ c ∈ digits, c.isDigit) {c : Char}
    (hc : ¬ c.isDigit) (rest : List Char) :
    readDigits (digits ++ c :: rest) = (digits, c :: rest) := by
  unfold readDigits
  rw [List.takeWhile_append_of_pos hdigits, List.dropWhile_append_of_pos hdigits,
    List.takeWhile_cons_of_neg hc, List.dropWhile_cons_of_neg hc, List.append_nil]

lemma isDigit_decimalDigits (n : ℕ) : ∀ c ∈ decimalDigits n, c.isDigit :=
  fun _ hc => Nat.isDigit_of_mem_toDigits (by omega) (by omega) hc

@[simp] lemma ofDecimalDigits_decimalDigits (n : ℕ) : ofDecimalDigits (decimalDigits n) = n :=
  Nat.ofDigitChars_ten_toDigits

/-- Zeros at the end multiply by powers of ten. -/
lemma ofDecimalDigits_append_zeros (digits : List Char) (k : ℕ) :
    ofDecimalDigits (digits ++ List.replicate k '0') = 10 ^ k * ofDecimalDigits digits := by
  unfold ofDecimalDigits
  rw [Nat.ofDigitChars_append, Nat.ofDigitChars_replicate_zero]

/-- Zeros in front do not count. -/
lemma ofDecimalDigits_zeros_append (k : ℕ) (digits : List Char) :
    ofDecimalDigits (List.replicate k '0' ++ digits) = ofDecimalDigits digits := by
  unfold ofDecimalDigits
  rw [Nat.ofDigitChars_append, Nat.ofDigitChars_replicate_zero, mul_zero]

lemma isDigit_of_mem_replicate {k : ℕ} : ∀ c ∈ List.replicate k '0', c.isDigit := by
  intro c hc
  rw [List.eq_of_mem_replicate hc]
  rfl

/-! ### Numerals -/

/-- The decimal of digits with a point among them. -/
lemma read?_point (negative : Bool) (whole fraction : List Char) (hne : whole ≠ [])
    (hwhole : ∀ c ∈ whole, c.isDigit) (hfraction : ∀ c ∈ fraction, c.isDigit) :
    read? (signed negative (whole ++ '.' :: fraction)) =
      some ⟨negative, ofDecimalDigits (whole ++ fraction), -fraction.length⟩ := by
  obtain ⟨c, cs, rfl⟩ := List.exists_cons_of_ne_nil hne
  have hhead : ∀ c' ∈ (c :: cs ++ '.' :: fraction).head?, c'.isDigit :=
    @head?_isDigit (c :: cs) hwhole
  have hread : readDigits fraction = (fraction, []) := readDigits_eq_iff.mpr ⟨rfl, hfraction⟩
  unfold read?
  rw [readSign_signed negative hhead]
  simp only [readDigits_append hwhole (by decide : ¬ '.'.isDigit) fraction, readFraction, hread]
  simp [readExponent?]

/-- The decimal of digits alone. -/
lemma read?_whole (negative : Bool) (whole : List Char) (hne : whole ≠ [])
    (hwhole : ∀ c ∈ whole, c.isDigit) :
    read? (signed negative whole) = some ⟨negative, ofDecimalDigits whole, 0⟩ := by
  obtain ⟨c, cs, rfl⟩ := List.exists_cons_of_ne_nil hne
  unfold read?
  rw [readSign_signed negative (head?_isDigit hwhole)]
  simp only [readDigits_eq_iff.mpr ⟨rfl, hwhole⟩, readFraction]
  simp [readExponent?]

/-- The number that digits with a point stand for. -/
def Layout.magnitude (l : Layout) : ℚ := ofDecimalDigits l.digits * 10 ^ (l.point - l.digits.length)

/-- What is written positionally is read as a decimal of the same value. -/
lemma exists_read?_positional (negative : Bool) {l : Layout} (hne : l.digits ≠ [])
    (hdigits : ∀ c ∈ l.digits, c.isDigit) :
    ∃ r, read? (signed negative (l.positional [])) = some r ∧ r.negative = negative ∧
      r.magnitude = l.magnitude := by
  obtain ⟨digits, point⟩ := l
  dsimp only at hne hdigits
  unfold Layout.positional
  dsimp only
  split_ifs with hfront hbehind
  · -- the point stands in front of the digits
    have hread := read?_point negative ['0'] (List.replicate (-point).toNat '0' ++ digits)
      (by simp) (List.forall_mem_singleton.mpr rfl)
      (List.forall_mem_append.mpr ⟨isDigit_of_mem_replicate, hdigits⟩)
    have hzeros : ['0'] ++ (List.replicate (-point).toNat '0' ++ digits) =
        List.replicate ((-point).toNat + 1) '0' ++ digits := by simp [List.replicate_succ]
    rw [hzeros, ofDecimalDigits_zeros_append] at hread
    refine ⟨_, hread, rfl, ?_⟩
    rw [Decimal.magnitude, Layout.magnitude]
    congr 2
    rw [List.length_append, List.length_replicate]
    push_cast
    omega
  · -- the point stands behind the digits
    rw [List.append_nil]
    have hread := read?_whole negative
      (digits ++ List.replicate (point - digits.length).toNat '0') (by simp [hne])
      (List.forall_mem_append.mpr ⟨hdigits, isDigit_of_mem_replicate⟩)
    rw [ofDecimalDigits_append_zeros] at hread
    refine ⟨_, hread, rfl, ?_⟩
    have hpow : (10 : ℚ) ^ (point - digits.length) = 10 ^ (point - digits.length).toNat := by
      rw [← zpow_natCast]
      congr 1
      omega
    rw [Decimal.magnitude, Layout.magnitude, hpow]
    push_cast
    ring
  · -- the point stands among the digits
    have hread := read?_point negative (digits.take point.toNat) (digits.drop point.toNat)
      (by rw [Ne, List.take_eq_nil_iff, not_or]; exact ⟨by omega, hne⟩)
      (fun c hc => hdigits c (List.mem_of_mem_take hc))
      (fun c hc => hdigits c (List.mem_of_mem_drop hc))
    rw [List.take_append_drop] at hread
    refine ⟨_, hread, rfl, ?_⟩
    rw [Decimal.magnitude, Layout.magnitude]
    congr 2
    rw [List.length_drop]
    dsimp only
    omega

/-! ### Fewest digits -/

/-- Only zeros are left out at the end. -/
lemma exists_zeros (digits : List Char) :
    ∃ k, digits = (digits.reverse.dropWhile (· == '0')).reverse ++ List.replicate k '0' := by
  refine ⟨(digits.reverse.takeWhile (· == '0')).length, ?_⟩
  have hzeros : digits.reverse.takeWhile (· == '0') =
      List.replicate (digits.reverse.takeWhile (· == '0')).length '0' :=
    List.eq_replicate_iff.mpr ⟨rfl, fun c hc => by simpa using List.mem_takeWhile_imp hc⟩
  rw [← List.reverse_replicate, ← hzeros, ← List.reverse_append, List.takeWhile_append_dropWhile,
    List.reverse_reverse]

/-- The significant digits of a decimal have its value. -/
lemma layout_spec (d : Decimal) : d.layout.digits ≠ [] ∧ (∀ c ∈ d.layout.digits, c.isDigit) ∧
    d.layout.magnitude = d.magnitude := by
  unfold layout
  dsimp only
  split_ifs with hzero
  · refine ⟨Nat.toDigits_ne_nil, isDigit_decimalDigits _, ?_⟩
    rw [Layout.magnitude, ofDecimalDigits_decimalDigits, magnitude, hzero, Nat.cast_zero, zero_mul,
      zero_mul]
  · obtain ⟨k, hk⟩ := exists_zeros (decimalDigits d.digits)
    generalize ((decimalDigits d.digits).reverse.dropWhile (· == '0')).reverse = digits at hk
    have hvalue : d.digits = 10 ^ k * ofDecimalDigits digits := by
      rw [← ofDecimalDigits_append_zeros, ← hk, ofDecimalDigits_decimalDigits]
    refine ⟨?_, fun c hc => ?_, ?_⟩
    · rintro rfl
      exact hzero hvalue
    · exact isDigit_decimalDigits d.digits c (hk ▸ List.mem_append_left _ hc)
    · have hpow : (10 : ℚ) ^ (d.exponent + (decimalDigits d.digits).length - digits.length) =
          10 ^ k * 10 ^ d.exponent := by
        rw [← zpow_natCast, ← zpow_add₀ (by norm_num), hk, List.length_append,
          List.length_replicate]
        congr 1
        push_cast
        ring
      rw [Layout.magnitude, hpow, magnitude, hvalue]
      push_cast
      ring

/-- The decimals next to a double are only chosen if they are read as this double. -/
lemma toDouble?_of_onGrid? {tie : Tie} {d : Double} {a : ℤ} {r : Decimal}
    (h : onGrid? tie d a = some r) : r.toDouble? = some d := by
  unfold onGrid? at h
  dsimp only at h
  split_ifs at h with hbelow habove
  · cases h
    exact hbelow.1
  · cases h
    exact habove

/-- Decimals of the same sign and value are read as the same double. -/
lemma toDouble?_congr {d e : Decimal} (hsign : d.negative = e.negative)
    (hmagnitude : d.magnitude = e.magnitude) : d.toDouble? = e.toDouble? := by
  ext r
  rw [toDouble?_eq_some_iff, toDouble?_eq_some_iff, value, value, hsign, hmagnitude]

/-- Every double is a decimal. -/
lemma value_ofDouble (d : Double) : (ofDouble d).value = d.value := by
  have hmagnitude : (ofDouble d).magnitude = d.significand * 2 ^ d.exponent := by
    rw [magnitude, ofDouble, Double.num, Nat.pow_eq, Nat.pow_eq]
    dsimp only
    generalize d.exponent = a
    rcases le_total 0 a with ha | ha
    · obtain ⟨k, rfl⟩ := Int.eq_ofNat_of_zero_le ha
      simp
    · obtain ⟨k, rfl⟩ := Int.exists_eq_neg_ofNat ha
      have hten : (10 : ℚ) ^ k = 2 ^ k * 5 ^ k := by rw [← mul_pow]; norm_num
      simp only [Int.toNat_neg_natCast, pow_zero, mul_one, neg_neg, Int.toNat_natCast, Nat.cast_mul,
        Nat.cast_pow, Nat.cast_ofNat, min_eq_left ha, zpow_neg, zpow_natCast, hten]
      field_simp
  rw [value, hmagnitude, Double.value, Double.coefficient, Int.cast_mul, Int.cast_natCast,
    mul_assoc]
  rfl

/-- The fewest digits of a double are read as this double. -/
theorem toDouble?_shortest (tie : Tie) (d : Double) : (shortest tie d).toDouble? = some d := by
  unfold shortest
  dsimp only
  cases hfind : (List.range 17).findSome? fun (n : ℕ) =>
      onGrid? tie d (decimalExponent d.num d.den - (n + 1)) with
  | some r =>
    obtain ⟨n, -, hn⟩ := List.exists_of_findSome?_eq_some hfind
    exact toDouble?_of_onGrid? hn
  | none =>
    rw [Option.getD_none, toDouble?_eq_some_iff, value_ofDouble]
    exact ⟨rfl, d.isNearest_value⟩

/-- A double is read back from its fewest digits, wherever the point stands. -/
theorem toDouble?_positional_shortest (tie : Tie) (d : Double) :
    (read? (signed d.negative ((shortest tie d).layout.positional []))).bind toDouble? =
      some d := by
  obtain ⟨hne, hdigits, hvalue⟩ := (shortest tie d).layout_spec
  obtain ⟨r, hread, hsign, hmagnitude⟩ := exists_read?_positional d.negative hne hdigits
  have hshortest := toDouble?_shortest tie d
  rw [hread, Option.bind_some, ← hshortest]
  apply toDouble?_congr
  · rw [hsign, (toDouble?_eq_some_iff.mp hshortest).1]
  · rw [hmagnitude, hvalue]

end Decimal

end Exemplar
