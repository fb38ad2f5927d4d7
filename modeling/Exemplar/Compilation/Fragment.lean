import Exemplar.Compilation.Operation
import Exemplar.Compilation.Warning
import Exemplar.Context.Declaration
import Exemplar.Template.Basic

/-!
# Fragments

What a part of a document is compiled to, and why a document cannot be compiled.
-/

namespace Exemplar

/-- Why a document cannot be compiled. -/
inductive CompileError
  | context (error : ContextError)
  | collidingIds (first second : String)
  | invalidId (value : Json)
  | invalidType (value : Json)
  | invalidIri (text : String)
  | templateCardinality (length : Nat)
  /-- The rules of the grammar lead from a value back to itself. -/
  | endless

def CompileError.message : CompileError → String
  | context error => error.message
  | collidingIds first second =>
    s!"The node object has more than one identifier entry: '{first}' and '{second}'"
  | invalidId value => "The value of an '@id' entry must be a string, found " ++ value.text
  | invalidType value => "The value of a '@type' entry must be a string, found " ++ value.text
  | invalidIri text => s!"'{text}' does not expand to an absolute IRI"
  | templateCardinality length =>
    s!"A template array must contain exactly one element, found {length}"
  | endless => "The rules for a value lead back to the same value"

/-- The compiled part of a document. -/
structure Fragment where
  template : Template
  operation : Operation := {}
  /-- The variables that the template takes its values from, each once. -/
  projections : List Variable := []
  warnings : List Warning := []
  /-- What denotes the node or literal of the part; without it no pattern leads to the part. -/
  term : Option PatternTerm := none

/-- Adds a variable that is not in a list yet. -/
def addVariable (vs : List Variable) (v : Variable) : List Variable :=
  if v ∈ vs then vs else vs ++ [v]

def addVariables (vs ws : List Variable) : List Variable := ws.foldl addVariable vs

namespace Fragment

/-- A value that is repeated in the answer, with a warning. -/
def echo (value : Json) (remark : Remark) : Fragment :=
  { template := .constant value, warnings := [{ remark }] }

/-- A placeholder that is filled in from a variable. -/
def placeholder (template : Template) (v : Variable) : Fragment :=
  { template, term := some (.variable v), projections := [v] }

/-- A value that is repeated in the answer and has to match a term. -/
def fixed (value : Json) (t : Term) : Fragment :=
  { template := .constant value, term := some (.constant t) }

end Fragment

end Exemplar
