import Exemplar.Json.Basic
import Exemplar.Number.Decimal

/-!
# JSON text

Compact text of JSON values. Strings escape quotes, backslashes and control characters only.
Doubles are written with the fewest digits that read back.
-/

namespace Exemplar

def lowerHexDigit (n : Nat) : Char := Nat.digitChar (n % 16)

namespace Json

/-- A character of a string as it is written between quotes. -/
def escapeChar (c : Char) : List Char :=
  match c with
  | '"' => ['\\', '"']
  | '\\' => ['\\', '\\']
  | '\x08' => ['\\', 'b']
  | '\t' => ['\\', 't']
  | '\n' => ['\\', 'n']
  | '\x0c' => ['\\', 'f']
  | '\r' => ['\\', 'r']
  | c =>
    if c.toNat < 0x20 then
      ['\\', 'u', '0', '0', lowerHexDigit (c.toNat / 16), lowerHexDigit c.toNat]
    else [c]

/-- A string between quotes. -/
def quote (s : String) : List Char := '"' :: s.toList.flatMap escapeChar ++ ['"']

/-- The first digit of a double may stand for these powers of ten in positional notation. -/
def positionalRange (power : Int) : Bool := -5 ≤ power && power ≤ 15

/-- Text of a double: positional with at least one digit after the point near one, scientific
elsewhere. -/
def doubleText (d : Double) : List Char :=
  let layout := (Decimal.shortest .even d).layout
  Decimal.signed d.negative <|
    if positionalRange (layout.point - 1) then layout.positional ['.', '0'] else layout.scientific

def numberText : Number → List Char
  | .integer value => decimalText value
  | .double value => doubleText value

mutual

/-- Compact text of a value. -/
def render : Json → List Char
  | .null => "null".toList
  | .bool true => "true".toList
  | .bool false => "false".toList
  | .number value => numberText value
  | .string value => quote value
  | .array [] => ['[', ']']
  | .array (item :: rest) => '[' :: render item ++ renderItems rest
  | .object [] => ['\x7b', '\x7d']
  | .object ((key, value) :: rest) =>
    '\x7b' :: quote key ++ ':' :: render value ++ renderEntries rest

/-- The remaining elements of an array. -/
def renderItems : List Json → List Char
  | [] => [']']
  | item :: rest => ',' :: render item ++ renderItems rest

/-- The remaining entries of an object. -/
def renderEntries : List (String × Json) → List Char
  | [] => ['\x7d']
  | (key, value) :: rest => ',' :: quote key ++ ':' :: render value ++ renderEntries rest

end

def text (value : Json) : String := String.ofList value.render

end Json

end Exemplar
