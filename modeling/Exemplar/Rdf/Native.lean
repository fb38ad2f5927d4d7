import Exemplar.Rdf.Term

/-!
# Native values

JSON scalars as literals, and literals as JSON scalars. Numbers without a fraction are whole
numbers, however they were written.
-/

namespace Exemplar

namespace Literal

/-- The digits of a double that is no whole number, positionally and without an exponent. -/
def fractionText (d : Double) : List Char :=
  Decimal.signed d.negative ((Decimal.shortest .up d).layout.positional [])

def ofNumber : Number → Literal
  | .integer value => typed (String.ofList (decimalText value)) Iri.xsdInteger
  | .double value =>
    match value.whole? with
    | some whole =>
      typed (String.ofList (Decimal.signed value.negative (decimalDigits whole))) Iri.xsdInteger
    | none => typed (String.ofList (fractionText value)) Iri.xsdDouble

/-- The literal of a JSON scalar. Other values have none. -/
def ofNative? : Json → Option Literal
  | .string value => some (simple value)
  | .bool true => some (typed "true" Iri.xsdBoolean)
  | .bool false => some (typed "false" Iri.xsdBoolean)
  | .number value => some (ofNumber value)
  | .null => none
  | .array _ => none
  | .object _ => none

/-- The number of a decimal numeral with an optional exponent, unless it exceeds every double. -/
def double? (text : List Char) : Option Number :=
  (Decimal.read? text).bind fun decimal => decimal.toDouble?.map .double

/-- The integer of a sign and digits, if it lies between two bounds. -/
def bounded? (least greatest : Int) (negative : Bool) (digits : List Char) : Option Int :=
  if digits.isEmpty || !digits.all Char.isDigit then none
  else
    let magnitude := ofDecimalDigits digits
    let value : Int := if negative then -magnitude else magnitude
    if least ≤ value ∧ value ≤ greatest then some value else none

def withoutPlus : List Char → List Char
  | '+' :: rest => rest
  | text => text

/-- Reads an integer of 64 bits with a sign. -/
def signed64? (text : List Char) : Option Int :=
  let (negative, digits) := Decimal.readSign text
  bounded? (-9223372036854775808) 9223372036854775807 negative digits

/-- Reads an integer of 64 bits without a sign. A minus sign is no part of it, a plus sign is. -/
def unsigned64? (text : List Char) : Option Int :=
  bounded? 0 18446744073709551615 false (withoutPlus text)

/-- Reads an integer that need not have 64 bits as the nearest double. -/
def wide? (text : List Char) : Option Number :=
  let digits := (Decimal.readSign text).2
  if digits.isEmpty || !digits.all Char.isDigit then none else double? (withoutPlus text)

/-- The number of an integer numeral: an optional sign and digits. Integers out of range become
the nearest double. -/
def integer? (text : List Char) : Option Number :=
  match signed64? text with
  | some value => some (.integer value)
  | none =>
    match unsigned64? text with
    | some value => some (.integer value)
    | none => wide? text

/-- The JSON scalar of a literal. Literals with a language or another datatype have none. -/
def native? : Literal → Option Json
  | tagged _ _ => none
  | typed lexical datatype =>
    if datatype = Iri.xsdString then some (.string lexical)
    else if datatype = Iri.xsdInteger then (integer? lexical.toList).map .number
    else if datatype = Iri.xsdDouble then (double? lexical.toList).map .number
    else if datatype = Iri.xsdBoolean then
      if lexical = "true" then some (.bool true)
      else if lexical = "false" then some (.bool false)
      else none
    else none

end Literal

/-- The JSON scalar of a term. Nodes have none. -/
def Term.native? : Term → Option Json
  | .node _ => none
  | .literal l => l.native?

/-- The integer of a JSON number, if it has 64 bits with a sign. -/
def Json.int64? : Json → Option Int
  | .number (.integer value) => if value ≤ 9223372036854775807 then some value else none
  | _ => none

end Exemplar
