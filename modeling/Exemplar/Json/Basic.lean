import Exemplar.Number.Double

/-!
# JSON values

Values whose objects keep their entries in the order in which they were written.
-/

namespace Exemplar

/-- A JSON number. -/
inductive Number
  | integer (value : Int)
  | double (value : Double)
  deriving DecidableEq

/-- Whether a whole number is kept as an integer, and not as a double: it has 64 bits, with or
without a sign. -/
def Number.fitsInteger (n : Int) : Bool :=
  -9223372036854775808 ≤ n && n ≤ 18446744073709551615

inductive Json
  | null
  | bool (value : Bool)
  | number (value : Number)
  | string (value : String)
  | array (items : List Json)
  | object (entries : List (String × Json))
  deriving Inhabited

/-- The entries of an object. -/
abbrev Entries := List (String × Json)

def Entries.get? (entries : Entries) (key : String) : Option Json := entries.lookup key

def Entries.has (entries : Entries) (key : String) : Bool := (entries.lookup key).isSome

/-- Sets the entry `key`, in its place if it is there, else at the end. -/
def Entries.insert : Entries → String → Json → Entries
  | [], key, value => [(key, value)]
  | (k, v) :: rest, key, value =>
    if k = key then (k, value) :: rest else (k, v) :: Entries.insert rest key value

mutual

/-- How deeply a value is nested; a scalar has depth one. -/
def Json.depth : Json → Nat
  | .array items => depthItems items + 1
  | .object entries => depthEntries entries + 1
  | _ => 1

/-- The depth of the deepest element. -/
def Json.depthItems : List Json → Nat
  | [] => 0
  | item :: rest => max item.depth (depthItems rest)

/-- The depth of the deepest entry. -/
def Json.depthEntries : List (String × Json) → Nat
  | [] => 0
  | (_, value) :: rest => max value.depth (depthEntries rest)

end

def Json.string? : Json → Option String
  | .string value => some value
  | _ => none

end Exemplar
