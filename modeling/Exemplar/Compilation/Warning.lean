import Exemplar.Context.Keyword
import Exemplar.Json.Text
import Exemplar.Rdf.Term
import Exemplar.Text.Quoted

/-!
# Warnings

A problem in a document that does not keep it from being compiled, and the path from the root of
the document to the value that has it.
-/

namespace Exemplar

/-- A step from a value to one of its parts. -/
inductive PathSegment
  | key (key : String)
  | index (index : Nat)
  deriving DecidableEq

/-- What is wrong with a value. -/
inductive Remark
  | notDocument
  | nullValue
  | notScalar
  | graphObject
  | valueObject
  | setObject
  | unsupportedKeyword (keyword : Keyword)
  | undefinedKey (key : String)
  | sharedVariable (previous key : String) (v : Variable)
  | other (text : String)
  deriving DecidableEq

/-- A remark about the value at the end of a path. -/
structure Warning where
  remark : Remark
  path : List PathSegment := []
  deriving DecidableEq

def Remark.message : Remark → String
  | notDocument => "A query document must be an object or an array"
  | nullValue => "null values are not supported"
  | notScalar => "Expected a scalar value"
  | graphObject => "Graph objects are not supported yet"
  | valueObject => "Value objects are not supported yet"
  | setObject => "Set objects are not supported yet"
  | unsupportedKeyword keyword =>
    s!"The keyword {keyword.text} is not supported in node objects"
  | undefinedKey key => s!"The key '{key}' is not defined in the context"
  | sharedVariable previous key v =>
    s!"The keys '{previous}' and '{key}' share the variable {v.text}"
  | other text => text

namespace PathSegment

def text : PathSegment → String
  | key k => Quoted.encode k
  | index n => toString n

def toJson : PathSegment → Json
  | key k => .string k
  | index n => .number (.integer n)

end PathSegment

namespace Warning

/-- The warning below one more segment. -/
def nested (segment : PathSegment) (w : Warning) : Warning := { w with path := segment :: w.path }

def text (w : Warning) : String :=
  w.remark.message ++ " (at [" ++ ", ".intercalate (w.path.map PathSegment.text) ++ "])"

def toJson (w : Warning) : Json :=
  .object [("message", .string w.remark.message), ("path", .array (w.path.map PathSegment.toJson))]

end Warning

end Exemplar
