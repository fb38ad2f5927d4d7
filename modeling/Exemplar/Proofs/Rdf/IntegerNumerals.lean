import Exemplar.Proofs.Number.Numerals
import Exemplar.Rdf.Native

/-!
# Integer numerals

Which texts denote integers, and which JSON number an integer is read as: itself where it has 64
bits with or without a sign, else the nearest double.
-/

namespace Exemplar

/-- The integer numerals with the integers that they denote: an optional sign and digits. -/
inductive IntegerNumeral : List Char → Int → Prop
  | unsigned {digits : List Char} (hne : digits ≠ []) (hdigits : ∀ c ∈ digits, c.isDigit) :
    IntegerNumeral digits (ofDecimalDigits digits)
  | plus {digits : List Char} (hne : digits ≠ []) (hdigits : ∀ c ∈ digits, c.isDigit) :
    IntegerNumeral ('+' :: digits) (ofDecimalDigits digits)
  | minus {digits : List Char} (hne : digits ≠ []) (hdigits : ∀ c ∈ digits, c.isDigit) :
    IntegerNumeral ('-' :: digits) (-ofDecimalDigits digits)

/-- The JSON number that an integer is read as, unless it exceeds every double. -/
def Number.ofInt? (z : Int) : Option Number :=
  if Number.fitsInteger z then some (.integer z)
  else (Decimal.toDouble? ⟨z < 0, z.natAbs, 0⟩).map .double

/-! ### Texts -/

/-- A numeral is a sign and digits, and denotes their number with the sign. -/
lemma integerNumeral_iff {text : List Char} {z : Int} : IntegerNumeral text z ↔
    (Decimal.readSign text).2 ≠ [] ∧ (∀ c ∈ (Decimal.readSign text).2, c.isDigit) ∧
      z = signFactor (Decimal.readSign text).1 * ofDecimalDigits (Decimal.readSign text).2 := by
  constructor
  · rintro (⟨hne, hdigits⟩ | ⟨hne, hdigits⟩ | ⟨hne, hdigits⟩)
    · have hread := Decimal.readSign_signed false (Decimal.head?_isDigit hdigits)
      rw [Decimal.signed, if_neg Bool.false_ne_true] at hread
      rw [hread]
      exact ⟨hne, hdigits, (one_mul _).symm⟩
    · exact ⟨hne, hdigits, (one_mul _).symm⟩
    · exact ⟨hne, hdigits, (neg_one_mul _).symm⟩
  · unfold Decimal.readSign
    split
    · rintro ⟨hne, hdigits, rfl⟩
      rw [show signFactor true = -1 from rfl, neg_one_mul]
      exact .minus hne hdigits
    · rintro ⟨hne, hdigits, rfl⟩
      rw [show signFactor false = 1 from rfl, one_mul]
      exact .plus hne hdigits
    · rintro ⟨hne, hdigits, rfl⟩
      rw [show signFactor false = 1 from rfl, one_mul]
      exact .unsigned hne hdigits

lemma IntegerNumeral.unique {text : List Char} {z z' : Int} (h : IntegerNumeral text z)
    (h' : IntegerNumeral text z') : z = z' := by
  rw [(integerNumeral_iff.mp h).2.2, (integerNumeral_iff.mp h').2.2]

/-- The digits of a number with a sign are a numeral of it. -/
lemma integerNumeral_signed (negative : Bool) (n : ℕ) :
    IntegerNumeral (Decimal.signed negative (decimalDigits n)) (signFactor negative * n) := by
  rw [integerNumeral_iff, Decimal.readSign_signed negative
    (Decimal.head?_isDigit (Decimal.isDigit_decimalDigits n))]
  refine ⟨Nat.toDigits_ne_nil, Decimal.isDigit_decimalDigits n, ?_⟩
  rw [Decimal.ofDecimalDigits_decimalDigits]

/-! ### Numbers -/

namespace Number

variable {z : Int}

lemma fitsInteger_iff : fitsInteger z ↔ -2 ^ 63 ≤ z ∧ z < 2 ^ 64 := by
  simp only [fitsInteger, Bool.and_eq_true, decide_eq_true_eq]
  omega

lemma ofInt?_of_fits (h : fitsInteger z) : ofInt? z = some (.integer z) := if_pos h

/-- The decimal that an integer without 64 bits is read as. -/
lemma value_ofInt (z : Int) : (Decimal.mk (z < 0) z.natAbs 0).value = z := by
  have hcast := congrArg (Int.cast : ℤ → ℚ) (signFactor_mul_natAbs z)
  rw [Int.cast_mul, Int.cast_natCast] at hcast
  simpa only [Decimal.value, Decimal.magnitude, zpow_zero, mul_one] using hcast

/-- An integer without 64 bits is read as the nearest double. -/
lemma ofInt?_of_not_fits (h : ¬ fitsInteger z) {n : Number} :
    ofInt? z = some n ↔ ∃ d : Double, d.IsNearest z ∧ n = .double d := by
  have hz : z ≠ 0 := by
    rintro rfl
    exact h (by decide)
  rw [ofInt?, if_neg h, Option.map_eq_some_iff]
  refine exists_congr fun d => ?_
  rw [Decimal.toDouble?_eq_some_iff, value_ofInt, eq_comm (a := n)]
  refine and_congr_left fun _ => and_iff_right_of_imp fun hd => ?_
  exact hd.negative_eq hz

lemma ofInt?_eq_some_iff {n : Number} : ofInt? z = some n ↔
    -2 ^ 63 ≤ z ∧ z < 2 ^ 64 ∧ n = .integer z ∨
      ¬ (-2 ^ 63 ≤ z ∧ z < 2 ^ 64) ∧ ∃ d : Double, d.IsNearest z ∧ n = .double d := by
  rw [← and_assoc, ← fitsInteger_iff]
  by_cases h : fitsInteger z
  · rw [ofInt?_of_fits h, Option.some_inj, eq_comm]
    simp [h]
  · rw [ofInt?_of_not_fits h]
    simp [h]

lemma ofInt?_eq_none_iff : ofInt? z = none ↔ Double.overflow ≤ |(z : ℚ)| := by
  by_cases h : fitsInteger z
  · have hsmall : |(z : ℚ)| < Double.overflow := by
      rw [fitsInteger_iff] at h
      have hle : |z| ≤ 2 ^ 64 := abs_le.mpr (by omega)
      calc |(z : ℚ)| ≤ 2 ^ (64 : ℤ) := by exact_mod_cast hle
        _ < 2 ^ (1023 : ℤ) := zpow_lt_zpow_right₀ (by norm_num) (by norm_num)
        _ ≤ Double.overflow := Double.two_zpow_le_overflow
    rw [ofInt?_of_fits h]
    exact iff_of_false (by simp) (not_le.mpr hsmall)
  · rw [ofInt?, if_neg h, Option.map_eq_none_iff, Decimal.toDouble?_eq_none_iff, value_ofInt]

end Number

namespace Literal

/-! ### Readers -/

variable {text digits : List Char} {z : Int}

lemma not_isEmpty_or_all_iff :
    ¬ (digits.isEmpty || !digits.all Char.isDigit) ↔ digits ≠ [] ∧ ∀ c ∈ digits, c.isDigit := by
  simp

lemma bounded?_eq_some_iff {least greatest : Int} {negative : Bool} :
    bounded? least greatest negative digits = some z ↔ digits ≠ [] ∧ (∀ c ∈ digits, c.isDigit) ∧
      z = signFactor negative * ofDecimalDigits digits ∧ least ≤ z ∧ z ≤ greatest := by
  have hsigned : (if negative then -(ofDecimalDigits digits : ℤ) else ofDecimalDigits digits) =
      signFactor negative * ofDecimalDigits digits := by
    unfold signFactor
    cases negative <;> simp
  unfold bounded?
  dsimp only
  rw [hsigned, ← and_assoc, ← not_isEmpty_or_all_iff]
  split_ifs with hdigits hbounds
  · simp [hdigits]
  · rw [Option.some_inj]
    constructor
    · rintro rfl
      exact ⟨hdigits, rfl, hbounds⟩
    · exact fun h => h.2.1.symm
  · refine iff_of_false (by simp) ?_
    rintro ⟨-, rfl, hbounds'⟩
    exact hbounds hbounds'

lemma withoutPlus_cases (text : List Char) :
    withoutPlus text = text ∨ text = '+' :: withoutPlus text := by
  unfold withoutPlus
  split
  · exact .inr rfl
  · exact .inl rfl

lemma withoutPlus_of_digits (hdigits : ∀ c ∈ digits, c.isDigit) : withoutPlus digits = digits := by
  refine (withoutPlus_cases digits).resolve_right fun heq => ?_
  exact absurd (hdigits '+' (heq ▸ List.mem_cons_self)) (by decide)

lemma signed64?_eq_some_iff :
    signed64? text = some z ↔ IntegerNumeral text z ∧ -2 ^ 63 ≤ z ∧ z < 2 ^ 63 := by
  rw [signed64?, bounded?_eq_some_iff, integerNumeral_iff]
  constructor
  · rintro ⟨hne, hdigits, hz, hlow, hhigh⟩
    exact ⟨⟨hne, hdigits, hz⟩, by omega, by omega⟩
  · rintro ⟨⟨hne, hdigits, hz⟩, hlow, hhigh⟩
    exact ⟨hne, hdigits, hz, by omega, by omega⟩

/-- What is read without a sign is a numeral as well. -/
lemma numeral_of_unsigned64? (h : unsigned64? text = some z) :
    IntegerNumeral text z ∧ 0 ≤ z ∧ z < 2 ^ 64 := by
  obtain ⟨hne, hdigits, rfl, hlow, hhigh⟩ := bounded?_eq_some_iff.mp h
  refine ⟨?_, hlow, by omega⟩
  rw [signFactor, if_neg Bool.false_ne_true, one_mul]
  rcases withoutPlus_cases text with heq | heq
  · rw [heq] at hne hdigits ⊢
    exact .unsigned hne hdigits
  · generalize withoutPlus text = digits at heq hne hdigits ⊢
    rw [heq]
    exact .plus hne hdigits

/-- An integer that needs all 64 bits is read without a sign. -/
lemma unsigned64?_of_numeral (h : IntegerNumeral text z) (hlow : 0 < z) (hhigh : z < 2 ^ 64) :
    unsigned64? text = some z := by
  have hsign (n : ℕ) : (n : ℤ) = signFactor false * n := (one_mul _).symm
  rw [unsigned64?, bounded?_eq_some_iff]
  cases h with
  | unsigned hne hdigits =>
    rw [withoutPlus_of_digits hdigits]
    exact ⟨hne, hdigits, hsign _, by omega, by omega⟩
  | plus hne hdigits => exact ⟨hne, hdigits, hsign _, by omega, by omega⟩
  | minus hne hdigits => omega

/-- The double of digits with a sign. -/
lemma double?_signed (negative : Bool) (hne : digits ≠ []) (hdigits : ∀ c ∈ digits, c.isDigit) :
    double? (Decimal.signed negative digits) =
      (Decimal.toDouble? ⟨negative, ofDecimalDigits digits, 0⟩).map .double := by
  rw [double?, Decimal.read?_whole negative digits hne hdigits, Option.bind_some]

lemma exists_numeral_of_wide? {n : Number} (h : wide? text = some n) :
    ∃ z, IntegerNumeral text z := by
  unfold wide? at h
  dsimp only at h
  split_ifs at h with hdigits
  obtain ⟨hne, hdigits⟩ := not_isEmpty_or_all_iff.mp hdigits
  exact ⟨_, integerNumeral_iff.mpr ⟨hne, hdigits, rfl⟩⟩

/-- A numeral of an integer other than zero is read as its nearest double. -/
lemma wide?_of_numeral (h : IntegerNumeral text z) (hz : z ≠ 0) :
    wide? text = (Decimal.toDouble? ⟨z < 0, z.natAbs, 0⟩).map .double := by
  obtain ⟨hne, hdigits, -⟩ := integerNumeral_iff.mp h
  rw [wide?, if_neg (not_isEmpty_or_all_iff.mpr ⟨hne, hdigits⟩)]
  have hpositive : ∀ n : ℕ, decide ((n : ℤ) < 0) = false := fun n => decide_eq_false (by omega)
  cases h with
  | unsigned hne hdigits =>
    rw [withoutPlus_of_digits hdigits, hpositive, Int.natAbs_natCast]
    exact double?_signed false hne hdigits
  | plus hne hdigits =>
    rw [hpositive, Int.natAbs_natCast]
    exact double?_signed false hne hdigits
  | minus hne hdigits =>
    rw [decide_eq_true (by omega), Int.natAbs_neg, Int.natAbs_natCast]
    exact double?_signed true hne hdigits

/-- A reader does not read the numeral of an integer out of its range. -/
lemma eq_none_of_numeral {read : List Char → Option Int} {p : Int → Prop}
    (hread : ∀ z, read text = some z → IntegerNumeral text z ∧ p z) (h : IntegerNumeral text z)
    (hz : ¬ p z) : read text = none := by
  by_contra hsome
  obtain ⟨z', hz'⟩ := Option.ne_none_iff_exists'.mp hsome
  obtain ⟨h', hp⟩ := hread z' hz'
  exact hz (h.unique h' ▸ hp)

/-- A numeral is read as the number of its integer: what one reader has no room for is left to the
next one. -/
lemma integer?_of_numeral (h : IntegerNumeral text z) : integer? text = Number.ofInt? z := by
  have hsigned : ¬ (-2 ^ 63 ≤ z ∧ z < 2 ^ 63) → signed64? text = none :=
    eq_none_of_numeral (fun _ => signed64?_eq_some_iff.mp) h
  have hunsigned : ¬ (0 ≤ z ∧ z < 2 ^ 64) → unsigned64? text = none :=
    eq_none_of_numeral (fun _ => numeral_of_unsigned64?) h
  by_cases hfits : Number.fitsInteger z
  · rw [Number.ofInt?_of_fits hfits]
    rw [Number.fitsInteger_iff] at hfits
    by_cases hrange : z < 2 ^ 63
    · rw [integer?, signed64?_eq_some_iff.mpr ⟨h, hfits.1, hrange⟩]
    · rw [integer?, hsigned (by omega), unsigned64?_of_numeral h (by omega) hfits.2]
  · rw [Number.ofInt?, if_neg hfits]
    rw [Number.fitsInteger_iff] at hfits
    rw [integer?, hsigned (by omega), hunsigned (by omega)]
    exact wide?_of_numeral h (by omega)

/-- Integer numerals are read as the number of their integer, and nothing else is read. -/
theorem integer?_eq_some_iff {n : Number} :
    integer? text = some n ↔ ∃ z, IntegerNumeral text z ∧ Number.ofInt? z = some n := by
  constructor
  · intro h
    obtain ⟨z, hz⟩ : ∃ z, IntegerNumeral text z := by
      unfold integer? at h
      split at h
      · next hsigned => exact ⟨_, (signed64?_eq_some_iff.mp hsigned).1⟩
      · split at h
        · next hunsigned => exact ⟨_, (numeral_of_unsigned64? hunsigned).1⟩
        · exact exists_numeral_of_wide? h
    exact ⟨z, hz, by rw [← integer?_of_numeral hz, h]⟩
  · rintro ⟨z, hz, hn⟩
    rw [integer?_of_numeral hz, hn]

/-! ### Literals -/

lemma native?_xsdInteger (text : String) :
    (typed text Iri.xsdInteger).native? = (integer? text.toList).map .number := by
  have hstring : Iri.xsdInteger ≠ Iri.xsdString := by decide
  rw [native?, if_neg hstring, if_pos rfl]

/-- The literals of integers that have a native value are the integer numerals, as far as a double
is near. An integer is read as it is if it has 64 bits with or without a sign, and else as the
nearest double. -/
theorem native?_integerLiteral (text : String) :
    ((typed text Iri.xsdInteger).native? = none ↔
      ∀ z, IntegerNumeral text.toList z → Double.overflow ≤ |(z : ℚ)|) ∧
    ∀ j, (typed text Iri.xsdInteger).native? = some j ↔ ∃ z, IntegerNumeral text.toList z ∧
      (-2 ^ 63 ≤ z ∧ z < 2 ^ 64 ∧ j = .number (.integer z) ∨
        ¬ (-2 ^ 63 ≤ z ∧ z < 2 ^ 64) ∧ ∃ d : Double, d.IsNearest z ∧ j = .number (.double d)) := by
  rw [native?_xsdInteger]
  constructor
  · rw [Option.map_eq_none_iff]
    constructor
    · intro hnone z hz
      rwa [← Number.ofInt?_eq_none_iff, ← integer?_of_numeral hz]
    · intro hlarge
      by_contra hsome
      obtain ⟨n, hn⟩ := Option.ne_none_iff_exists'.mp hsome
      obtain ⟨z, hz, hn⟩ := integer?_eq_some_iff.mp hn
      rw [Number.ofInt?_eq_none_iff.mpr (hlarge z hz)] at hn
      cases hn
  · intro j
    simp only [Option.map_eq_some_iff, integer?_eq_some_iff, Number.ofInt?_eq_some_iff]
    constructor
    · rintro ⟨n, ⟨z, hz, ⟨hlow, hhigh, rfl⟩ | ⟨hrange, d, hd, rfl⟩⟩, rfl⟩
      · exact ⟨z, hz, .inl ⟨hlow, hhigh, rfl⟩⟩
      · exact ⟨z, hz, .inr ⟨hrange, d, hd, rfl⟩⟩
    · rintro ⟨z, hz, ⟨hlow, hhigh, rfl⟩ | ⟨hrange, d, hd, rfl⟩⟩
      · exact ⟨_, ⟨z, hz, .inl ⟨hlow, hhigh, rfl⟩⟩, rfl⟩
      · exact ⟨_, ⟨z, hz, .inr ⟨hrange, d, hd, rfl⟩⟩, rfl⟩

end Literal

end Exemplar
