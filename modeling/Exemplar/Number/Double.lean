/-!
# Doubles

A finite binary floating-point number of 53 bits, as plain data: a sign, a significand and a
power of two. Reading a quotient is exact arithmetic on natural numbers followed by one rounding
to the nearest double, a half going to the even significand.
-/

namespace Exemplar

/-- The natural number nearest to `num / den`; a half goes to the even neighbour. -/
def divNearest (num den : Nat) : Nat :=
  let quotient := num / den
  let remainder := num % den
  if 2 * remainder < den then quotient
  else if den < 2 * remainder then quotient + 1
  else quotient + quotient % 2 -- exactly half way: an odd quotient goes up

/-- The significands and exponents that double precision allows, each value in one form only. -/
def Double.Canonical (significand : Nat) (exponent : Int) : Prop :=
  significand < Nat.pow 2 53 ∧ -1074 ≤ exponent ∧ exponent ≤ 971 ∧
    (Nat.pow 2 52 ≤ significand ∨ exponent = -1074)

instance (significand : Nat) (exponent : Int) :
    Decidable (Double.Canonical significand exponent) :=
  inferInstanceAs (Decidable (_ ∧ _ ∧ _ ∧ (_ ∨ _)))

/-- A finite double: `significand * 2 ^ exponent`, negated if `negative`. -/
structure Double where
  negative : Bool
  significand : Nat
  exponent : Int
  canonical : Double.Canonical significand exponent
  deriving DecidableEq

namespace Double

/-- The double with the given parts, unless they are out of range. -/
def ofParts? (negative : Bool) (significand : Nat) (exponent : Int) : Option Double :=
  if h : Canonical significand exponent then some ⟨negative, significand, exponent, h⟩ else none

/-- The two zeros. -/
def zero (negative : Bool) : Double := ⟨negative, 0, -1074, by decide⟩

instance : Inhabited Double := ⟨zero false⟩

/-- Numerator of the absolute value. -/
def num (d : Double) : Nat := d.significand * Nat.pow 2 d.exponent.toNat

/-- Denominator of the absolute value. -/
def den (d : Double) : Nat := Nat.pow 2 (-d.exponent).toNat

/-- The least exponent, not below that of the smallest double, for which the significand of
`num / den` has at most 53 bits before rounding. -/
def binaryExponent (num den : Nat) : Int :=
  -- both logarithms are rounded down, so the estimate is right or one too large
  let estimate : Int := (Nat.log2 num : Int) - Nat.log2 den - 52
  let shifted := estimate + 52
  let exact :=
    if num * Nat.pow 2 (-shifted).toNat < den * Nat.pow 2 shifted.toNat then estimate - 1
    else estimate
  max exact (-1074)

/-- The double nearest to `num / den`, or nothing if that exceeds every finite double. -/
def ofRatio? (negative : Bool) (num den : Nat) : Option Double :=
  let exponent := if num = 0 then -1074 else binaryExponent num den
  let significand :=
    divNearest (num * Nat.pow 2 (-exponent).toNat) (den * Nat.pow 2 exponent.toNat)
  -- rounding up may reach the next power of two
  if significand = Nat.pow 2 53 then ofParts? negative (Nat.pow 2 52) (exponent + 1)
  else ofParts? negative significand exponent

/-- The absolute value, if it is a whole number. -/
def whole? (d : Double) : Option Nat :=
  if d.num % d.den = 0 then some (d.num / d.den) else none

end Double

end Exemplar
