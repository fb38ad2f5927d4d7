import Exemplar.Number.Double

/-!
# Decimals

Decimal numerals as written text: reading them as doubles, choosing the fewest digits that read
back as a given double, and laying the digits out positionally or with an exponent.
-/

namespace Exemplar

def decimalDigits (n : Nat) : List Char := Nat.toDigits 10 n

/-- The number that a list of decimal digits denotes. -/
def ofDecimalDigits (digits : List Char) : Nat := Nat.ofDigitChars 10 digits 0

/-- A decimal number: `digits * 10 ^ exponent`, negated if `negative`. -/
structure Decimal where
  negative : Bool
  digits : Nat
  exponent : Int
  deriving DecidableEq

namespace Decimal

/-- The nearest double, or nothing if the number exceeds every finite double. -/
def toDouble? (d : Decimal) : Option Double :=
  -- far beyond the range of doubles the magnitude decides, and no huge power of ten is computed
  let magnitude := d.exponent + (decimalDigits d.digits).length
  if d.digits = 0 ∨ magnitude < -330 then some (Double.zero d.negative)
  else if 330 < magnitude then none
  else
    Double.ofRatio? d.negative (d.digits * Nat.pow 10 d.exponent.toNat)
      (Nat.pow 10 (-d.exponent).toNat)

/-! ### Reading -/

/-- Splits an optional sign off. -/
def readSign : List Char → Bool × List Char
  | '-' :: rest => (true, rest)
  | '+' :: rest => (false, rest)
  | text => (false, text)

/-- Splits the longest run of decimal digits off. -/
def readDigits (text : List Char) : List Char × List Char :=
  (text.takeWhile Char.isDigit, text.dropWhile Char.isDigit)

/-- Splits an optional fraction off: a point and any number of digits. -/
def readFraction : List Char → List Char × List Char
  | '.' :: rest => readDigits rest
  | text => ([], text)

/-- Reads an exponent that reaches to the end of the text. -/
def readExponent? : List Char → Option Int
  | [] => some 0
  | c :: rest =>
    if c = 'e' ∨ c = 'E' then
      let (negative, text) := readSign rest
      match readDigits text with
      | (digits@(_ :: _), []) =>
        let exponent : Int := ofDecimalDigits digits
        some (if negative then -exponent else exponent)
      | _ => none
    else none

/-- Reads a numeral: an optional sign, digits with an optional point among or around them, and an
optional exponent. At least one digit stands before the exponent. -/
def read? (text : List Char) : Option Decimal :=
  let (negative, unsigned) := readSign text
  let (whole, afterWhole) := readDigits unsigned
  let (fraction, afterFraction) := readFraction afterWhole
  match whole ++ fraction with
  | [] => none
  | digits => (readExponent? afterFraction).map fun exponent =>
      ⟨negative, ofDecimalDigits digits, exponent - fraction.length⟩

/-! ### Fewest digits -/

/-- Which of two equally close numerals is written. -/
inductive Tie
  /-- The one whose last digit is even. -/
  | even
  /-- The one further from zero. -/
  | up
  deriving DecidableEq

/-- The least `k` with `num / den < 10 ^ k`. -/
def decimalExponent (num den : Nat) : Int :=
  -- counting digits gives the exponent or one less
  let estimate : Int :=
    (decimalDigits num).length - ((decimalDigits den).length : Int)
  if num * Nat.pow 10 (-estimate).toNat < den * Nat.pow 10 estimate.toNat then estimate
  else estimate + 1

/-- The multiple of `10 ^ exponent` that is nearest to `d` among the two next to it that read back
as `d`, if any does. -/
def onGrid? (tie : Tie) (d : Double) (exponent : Int) : Option Decimal :=
  let num := d.num * Nat.pow 10 (-exponent).toNat
  let den := d.den * Nat.pow 10 exponent.toNat
  let below : Decimal := ⟨d.negative, num / den, exponent⟩
  let above : Decimal := ⟨d.negative, num / den + 1, exponent⟩
  let lower := below.toDouble? = some d
  let upper := above.toDouble? = some d
  let twice := 2 * (num % den)
  let nearerAbove := den < twice ∨ (twice = den ∧ (tie = .up ∨ below.digits % 2 = 1))
  if lower ∧ (¬ upper ∨ ¬ nearerAbove) then some below
  else if upper then some above
  else none

/-- The exact value of a double. -/
def ofDouble (d : Double) : Decimal :=
  ⟨d.negative, d.num * Nat.pow 5 (-d.exponent).toNat, min d.exponent 0⟩

/-- The decimal with the fewest digits that reads back as `d`, and of those the nearest. -/
def shortest (tie : Tie) (d : Double) : Decimal :=
  -- seventeen digits tell any two doubles apart
  let scale := decimalExponent d.num d.den
  ((List.range 17).findSome? fun (n : Nat) => onGrid? tie d (scale - (n + 1))).getD (ofDouble d)

/-! ### Layout -/

/-- Significant digits and the position of the point: the value is `0.digits * 10 ^ point`. -/
structure Layout where
  digits : List Char
  point : Int

/-- The significant digits of a decimal, without zeros at the end; zero keeps one digit. -/
def layout (d : Decimal) : Layout :=
  let digits := decimalDigits d.digits
  if d.digits = 0 then ⟨digits, 1⟩
  else ⟨(digits.reverse.dropWhile (· == '0')).reverse, d.exponent + digits.length⟩

/-- The digits with zeros up to the point; `whole` closes a number without a fraction. -/
def Layout.positional (l : Layout) (whole : List Char) : List Char :=
  -- the point stands in front of the digits, behind them or among them
  if l.point ≤ 0 then '0' :: '.' :: List.replicate (-l.point).toNat '0' ++ l.digits
  else if (l.digits.length : Int) ≤ l.point then
    l.digits ++ List.replicate (l.point - l.digits.length).toNat '0' ++ whole
  else l.digits.take l.point.toNat ++ '.' :: l.digits.drop l.point.toNat

/-- One digit before the point and a signed exponent. -/
def Layout.scientific (l : Layout) : List Char :=
  let exponent := l.point - 1
  let mark := if exponent < 0 then ['e', '-'] else ['e', '+']
  let magnitude := mark ++ decimalDigits exponent.natAbs
  match l.digits with
  | first :: second :: rest => first :: '.' :: second :: rest ++ magnitude
  | digits => digits ++ magnitude

/-- A minus sign in front of a negative number. -/
def signed (negative : Bool) (text : List Char) : List Char :=
  if negative then '-' :: text else text

end Decimal

/-- The whole-number text of an integer. -/
def decimalText (n : Int) : List Char :=
  Decimal.signed (n < 0) (decimalDigits n.natAbs)

end Exemplar
