import Exemplar.Proofs.Rdf.IntegerNumerals

/-!
# Integers as literals

An integer that a JSON number holds exactly is read back from the literal that it is written as, and
only such integers are read from literals.
-/

namespace Exemplar

/-- Whether an integer has 64 bits with a sign. -/
def Number.isInt64 (n : Int) : Bool :=
  -9223372036854775808 ≤ n && n ≤ 9223372036854775807

lemma integerNumeral_decimalText (n : Int) : IntegerNumeral (decimalText n) n := by
  have hnumeral := integerNumeral_signed (n < 0) n.natAbs
  rwa [signFactor_mul_natAbs] at hnumeral

namespace Literal

theorem native?_ofNumber_integer {n : Int} (hn : Number.fitsInteger n) :
    (ofNumber (.integer n)).native? = some (.number (.integer n)) := by
  rw [ofNumber, native?_xsdInteger, String.toList_ofList,
    integer?_of_numeral (integerNumeral_decimalText n), Number.ofInt?_of_fits hn]
  rfl

/-- A numeral that is read as an integer has one that a JSON number holds. -/
lemma fitsInteger_of_integer? {text : List Char} {n : Int}
    (h : integer? text = some (.integer n)) : Number.fitsInteger n := by
  obtain ⟨z, -, hz⟩ := integer?_eq_some_iff.mp h
  rcases Number.ofInt?_eq_some_iff.mp hz with ⟨hlow, hhigh, heq⟩ | ⟨-, d, -, heq⟩
  · cases heq
    exact Number.fitsInteger_iff.mpr ⟨hlow, hhigh⟩
  · cases heq

lemma fitsInteger_of_native? {l : Literal} {n : Int}
    (h : l.native? = some (.number (.integer n))) : Number.fitsInteger n := by
  cases l with
  | tagged => cases h
  | typed lexical datatype =>
    simp only [native?] at h
    split_ifs at h
    · cases h
    · obtain ⟨number, hnumber, heq⟩ := Option.map_eq_some_iff.mp h
      cases heq
      exact fitsInteger_of_integer? hnumber
    · simp [double?, Option.bind_eq_some_iff] at h
    · cases h
    · cases h

end Literal

/-- The literal of an integer is read as the integer wherever 64 bits are expected. -/
lemma int64?_ofNumber_integer {n : Int} (hn : Number.isInt64 n) :
    (Term.literal (.ofNumber (.integer n))).native?.bind Json.int64? = some n := by
  simp only [Number.isInt64, Bool.and_eq_true, decide_eq_true_eq] at hn
  have hfits : Number.fitsInteger n := by
    simp only [Number.fitsInteger, Bool.and_eq_true, decide_eq_true_eq]
    omega
  rw [Term.native?, Literal.native?_ofNumber_integer hfits]
  exact if_pos hn.2

/-- A term is read as an integer of 64 bits exactly if this is its JSON scalar. -/
lemma int64?_eq_some_iff {t : Term} {n : Int} :
    t.native?.bind Json.int64? = some n ↔
      t.native? = some (.number (.integer n)) ∧ Number.isInt64 n := by
  have hbounds : Number.isInt64 n ↔ Number.fitsInteger n ∧ n ≤ 9223372036854775807 := by
    simp only [Number.isInt64, Number.fitsInteger, Bool.and_eq_true, decide_eq_true_eq]
    omega
  rw [Option.bind_eq_some_iff, hbounds]
  constructor
  · rintro ⟨j, hj, hn⟩
    unfold Json.int64? at hn
    split at hn
    · next value =>
      split_ifs at hn with hle
      cases hn
      cases t with
      | node => cases hj
      | literal l => exact ⟨hj, Literal.fitsInteger_of_native? hj, hle⟩
    · cases hn
  · rintro ⟨hj, -, hle⟩
    exact ⟨_, hj, if_pos hle⟩

end Exemplar
