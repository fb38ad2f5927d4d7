import Exemplar.Proofs.Rdf.Integers

/-!
# Native values read back

The literal of a JSON scalar is read as this scalar, up to how a whole number is written. Numbers
have the same literal if they are the same number, apart from the negative zero.
-/

namespace Exemplar

/-- The number that a JSON number stands for. -/
def Number.value : Number → ℚ
  | .integer z => z
  | .double d => d.value

/-! ### Whole doubles -/

namespace Double

variable {d : Double}

lemma abs_value_eq_div (d : Double) : |d.value| = (d.num : ℚ) / d.den := by
  have hpow := zpow_eq_div (b := 2) (by norm_num) d.exponent
  rw [Nat.cast_ofNat] at hpow
  rw [abs_value, hpow, num, den, Nat.cast_mul, mul_div_assoc]
  rfl

lemma whole?_eq_some_iff {n : ℕ} : d.whole? = some n ↔ |d.value| = n := by
  have hden : 0 < d.den := Nat.pow_pos (by norm_num)
  have hpos : (d.den : ℚ) ≠ 0 := by exact_mod_cast hden.ne'
  rw [abs_value_eq_div, div_eq_iff hpos]
  unfold whole?
  constructor
  · intro h
    split_ifs at h with hmod
    cases h
    exact_mod_cast (Nat.div_mul_cancel (Nat.dvd_of_mod_eq_zero hmod)).symm
  · intro h
    have h : d.num = n * d.den := by exact_mod_cast h
    rw [h, Nat.mul_mod_left, if_pos rfl, Nat.mul_div_cancel n hden]

lemma whole?_of_value_eq {z : ℤ} (h : d.value = z) : d.whole? = some z.natAbs := by
  rw [whole?_eq_some_iff, h, Nat.cast_natAbs, Int.cast_abs]

lemma whole?_eq_none (h : ∀ z : ℤ, d.value ≠ z) : d.whole? = none := by
  by_contra hsome
  obtain ⟨n, hn⟩ := Option.ne_none_iff_exists'.mp hsome
  rw [whole?_eq_some_iff] at hn
  rcases abs_choice d.value with habs | habs <;> rw [habs] at hn
  · exact h n (by exact_mod_cast hn)
  · exact h (-n) (by push_cast; linarith)

/-- The sign of a whole double is that of its integer, unless it is the negative zero. -/
lemma negative_of_value_eq {z : ℤ} (h : d.value = z) (hd : d ≠ zero true) :
    d.negative = decide (z < 0) := by
  by_cases hz : z = 0
  · have hzero : d.value = 0 := by rw [h, hz, Int.cast_zero]
    have hpositive : d.negative ≠ true := fun hnegative =>
      hd (hnegative ▸ eq_zero_of_value_eq_zero hzero)
    simp [hz, hpositive]
  · have hne : d.value ≠ 0 := by
      rw [h]
      exact_mod_cast hz
    rw [Bool.eq_iff_iff, decide_eq_true_eq, negative_iff hne, h]
    exact_mod_cast Iff.rfl

lemma signFactor_mul_natAbs_of_value_eq {z : ℤ} (h : d.value = z) :
    signFactor d.negative * z.natAbs = z := by
  by_cases hd : d = zero true
  · rw [hd, value_zero] at h
    have hz : z = 0 := by exact_mod_cast h.symm
    simp [hz]
  · rw [negative_of_value_eq h hd, signFactor_mul_natAbs]

end Double

namespace Literal

variable {d : Double} {z : ℤ}

lemma ofNumber_of_value_eq (h : d.value = z) : ofNumber (.double d) =
    typed (String.ofList (Decimal.signed d.negative (decimalDigits z.natAbs))) Iri.xsdInteger := by
  simp only [ofNumber, Double.whole?_of_value_eq h]

lemma ofNumber_of_not_whole (h : ∀ z : ℤ, d.value ≠ z) :
    ofNumber (.double d) = typed (String.ofList (fractionText d)) Iri.xsdDouble := by
  simp only [ofNumber, Double.whole?_eq_none h]

/-- A whole double is read as its integer. -/
lemma native?_of_value_eq (h : d.value = z) :
    (ofNumber (.double d)).native? = (Number.ofInt? z).map .number := by
  have hnumeral := integerNumeral_signed d.negative z.natAbs
  rw [Double.signFactor_mul_natAbs_of_value_eq h] at hnumeral
  rw [ofNumber_of_value_eq h, native?_xsdInteger, String.toList_ofList,
    integer?_of_numeral hnumeral]

/-- A double with a fraction is read back. -/
lemma native?_of_not_whole (h : ∀ z : ℤ, d.value ≠ z) :
    (ofNumber (.double d)).native? = some (.number (.double d)) := by
  have hread : double? (fractionText d) = some (.double d) := by
    have hshortest := Decimal.toDouble?_positional_shortest .up d
    obtain ⟨r, hr, hd⟩ := Option.bind_eq_some_iff.mp hshortest
    rw [double?, fractionText, hr, Option.bind_some, hd]
    rfl
  rw [ofNumber_of_not_whole h, native?, String.toList_ofList, hread,
    if_neg (by decide), if_neg (by decide), if_pos rfl]
  rfl

/-- The literals of JSON scalars are read back: strings, truth values and the integers with 64 bits
as they are, doubles as the integer that they stand for if it has 64 bits, and else as they are. -/
theorem native?_ofNative? :
    (∀ text, (ofNative? (.string text)).bind native? = some (.string text)) ∧
    (∀ b, (ofNative? (.bool b)).bind native? = some (.bool b)) ∧
    (∀ z : ℤ, -2 ^ 63 ≤ z → z < 2 ^ 64 →
      (ofNative? (.number (.integer z))).bind native? = some (.number (.integer z))) ∧
    (∀ (d : Double) (z : ℤ), d.value = z → (ofNative? (.number (.double d))).bind native? =
      some (.number (if -2 ^ 63 ≤ z ∧ z < 2 ^ 64 then .integer z else .double d))) ∧
    ∀ d : Double, (∀ z : ℤ, d.value ≠ z) →
      (ofNative? (.number (.double d))).bind native? = some (.number (.double d)) := by
  refine ⟨fun text => ?_, fun b => ?_, fun z hlow hhigh => ?_, fun d z h => ?_, fun d h => ?_⟩
  · rw [ofNative?, Option.bind_some, simple, native?, if_pos rfl]
  · cases b <;> rfl
  · rw [ofNative?, Option.bind_some, native?_ofNumber_integer
      (Number.fitsInteger_iff.mpr ⟨hlow, hhigh⟩)]
  · rw [ofNative?, Option.bind_some, native?_of_value_eq h]
    split_ifs with hrange
    · rw [Number.ofInt?_of_fits (Number.fitsInteger_iff.mpr hrange)]
      rfl
    · rw [Number.ofInt?_eq_some_iff.mpr (.inr ⟨hrange, d, h ▸ d.isNearest_value, rfl⟩)]
      rfl
  · exact native?_of_not_whole h

/-- A double that stands for 2 ^ 64 does not become an integer. -/
theorem native?_ofNative?_beyond : ∃ d : Double, d.value = (2 ^ 64 : ℤ) ∧
    (ofNative? (.number (.double d))).bind native? = some (.number (.double d)) := by
  have hvalue : Double.value ⟨false, 2 ^ 52, 12, by decide⟩ = (2 ^ 64 : ℤ) := by
    norm_num [Double.value, Double.coefficient, signFactor]
  have hread := native?_ofNative?.2.2.2.1 _ _ hvalue
  rw [if_neg (by norm_num)] at hread
  exact ⟨_, hvalue, hread⟩

/-! ### Numbers with one literal -/

/-- A whole number has the literal of its integer, unless it is the negative zero. -/
lemma ofNumber_eq_integer {n : Number} (h : n.value = z) (hn : n ≠ .double (.zero true)) :
    ofNumber n = ofNumber (.integer z) := by
  cases n with
  | integer z' =>
    have hz : (z' : ℚ) = z := h
    rw [Int.cast_injective hz]
  | double d =>
    have hd : d ≠ .zero true := fun hd => hn (by rw [hd])
    rw [ofNumber_of_value_eq h, Double.negative_of_value_eq h hd]
    rfl

/-- The negative zero keeps its sign. -/
lemma ofNumber_negativeZero : ofNumber (.double (.zero true)) = typed "-0" Iri.xsdInteger := by
  rw [ofNumber_of_value_eq (z := 0) (by simp)]
  rfl

/-- The literal of a number is an integer numeral of its value, or its fewest digits. -/
lemma ofNumber_cases (n : Number) :
    (∃ z text, n.value = (z : ℤ) ∧ IntegerNumeral text z ∧
      ofNumber n = typed (String.ofList text) Iri.xsdInteger) ∨
    ∃ d : Double, n = .double d ∧ (∀ z : ℤ, d.value ≠ z) ∧
      ofNumber n = typed (String.ofList (fractionText d)) Iri.xsdDouble := by
  cases n with
  | integer z =>
    exact .inl ⟨z, _, rfl, integerNumeral_decimalText z, rfl⟩
  | double d =>
    by_cases hwhole : ∃ z : ℤ, d.value = z
    · obtain ⟨z, hz⟩ := hwhole
      have hnumeral := integerNumeral_signed d.negative z.natAbs
      rw [Double.signFactor_mul_natAbs_of_value_eq hz] at hnumeral
      exact .inl ⟨z, _, hz, hnumeral, ofNumber_of_value_eq hz⟩
    · have hfraction : ∀ z : ℤ, d.value ≠ z := fun z hz => hwhole ⟨z, hz⟩
      exact .inr ⟨d, rfl, hfraction, ofNumber_of_not_whole hfraction⟩

/-- Numbers with the same literal are the same number. -/
lemma value_eq_of_ofNumber_eq {a b : Number} (h : ofNumber a = ofNumber b) : a.value = b.value := by
  have hdatatypes : Iri.xsdInteger ≠ Iri.xsdDouble := by decide
  rcases ofNumber_cases a with ⟨z, text, ha, hz, hliteral⟩ | ⟨d, rfl, hd, hliteral⟩ <;>
    rcases ofNumber_cases b with ⟨z', text', hb, hz', hliteral'⟩ | ⟨d', rfl, hd', hliteral'⟩
  · rw [hliteral, hliteral', typed.injEq, String.ofList_inj] at h
    rw [ha, hb, hz.unique (h.1 ▸ hz')]
  · rw [hliteral, hliteral', typed.injEq] at h
    exact absurd h.2 hdatatypes
  · rw [hliteral, hliteral', typed.injEq] at h
    exact absurd h.2.symm hdatatypes
  · have hread := native?_of_not_whole hd
    rw [h, native?_of_not_whole hd'] at hread
    cases hread
    rfl

/-- No other number has the literal of the negative zero. -/
lemma eq_negativeZero_of_ofNumber_eq {n : Number}
    (h : ofNumber n = ofNumber (.double (.zero true))) : n = .double (.zero true) := by
  by_contra hn
  have hvalue : n.value = (0 : ℤ) := by
    rw [value_eq_of_ofNumber_eq h]
    simp [Number.value]
  rw [ofNumber_eq_integer hvalue hn, ofNumber_negativeZero] at h
  exact absurd h (by decide)

/-- Numbers have the same literal exactly if they are the same number, and both or none of them is
the negative zero. -/
theorem ofNative?_number_eq_iff {a b : Number} : ofNative? (.number a) = ofNative? (.number b) ↔
    a.value = b.value ∧ (a = .double (.zero true) ↔ b = .double (.zero true)) := by
  rw [ofNative?, ofNative?, Option.some_inj]
  constructor
  · intro h
    refine ⟨value_eq_of_ofNumber_eq h, ?_, ?_⟩
    · rintro rfl
      exact eq_negativeZero_of_ofNumber_eq h.symm
    · rintro rfl
      exact eq_negativeZero_of_ofNumber_eq h
  · rintro ⟨hvalue, hzero⟩
    by_cases ha : a = .double (.zero true)
    · rw [ha, hzero.mp ha]
    have hb : b ≠ .double (.zero true) := fun hb => ha (hzero.mpr hb)
    by_cases hwhole : ∃ z : ℤ, a.value = z
    · obtain ⟨z, hz⟩ := hwhole
      rw [ofNumber_eq_integer hz ha, ofNumber_eq_integer (hvalue ▸ hz) hb]
    · -- numbers with a fraction are doubles, and the same double
      cases a with
      | integer z => exact absurd ⟨z, rfl⟩ hwhole
      | double d =>
        cases b with
        | integer z => exact absurd ⟨z, hvalue⟩ hwhole
        | double d' =>
          have hne : d.value ≠ 0 := fun h => hwhole ⟨0, h.trans Int.cast_zero.symm⟩
          rw [Double.eq_of_value_eq_of_ne_zero hne hvalue]

/-- The negative zero has another literal than zero. -/
theorem ofNative?_zeros_ne : ∃ a b : Number, a.value = b.value ∧
    ofNative? (.number a) ≠ ofNative? (.number b) := by
  refine ⟨.integer 0, .double (.zero true), by simp [Number.value], ?_⟩
  rw [ofNative?, ofNative?, ofNumber_negativeZero]
  decide

end Literal

end Exemplar
