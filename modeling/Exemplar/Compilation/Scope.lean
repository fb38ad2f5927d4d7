import Exemplar.Compilation.Fragment
import Exemplar.Compilation.Naming

/-!
# Scopes

Where a value stands in a document, and what kind of value it is there.
-/

namespace Exemplar

/-- The value that is filled in from the data. -/
def placeholderText : String := "?"

/-- The place of a value: its variable, its context, and the definition of its key. -/
structure Scope where
  v : Variable
  context : Context
  definition : Option TermDefinition := none

namespace Scope

def root (context : Context) : Scope := { v := .root, context }

/-- The scope of the entry `key`. -/
def child (s : Scope) (key : String) : Scope := { v := s.v.child key, context := s.context }

/-- How the strings of the value are read. -/
def coercion? (s : Scope) : Option Coercion := s.definition.bind (·.coercion)

/-- How the arrays of the value are read. -/
def container? (s : Scope) : Option Container := s.definition.bind (·.container)

/-- The IRI that a name expands to. -/
def expandIri (s : Scope) (mode : IriMode) (name : String) : Except CompileError Iri :=
  match (s.context.expand? mode name).bind Expansion.iri? with
  | some iri => .ok iri
  | none => .error (.invalidIri name)

end Scope

inductive Kind
  | null
  | placeholder
  | primitive
  | nodeObject (entries : Entries)
  | nodeArray (items : List Json)
  | listArray (items : List Json)
  | listObject (entries : Entries)
  | graphObject (entries : Entries)
  | valueObject (entries : Entries)
  | setObject (entries : Entries)

def hasKeyword (c : Context) (entries : Entries) (keyword : Keyword) : Bool :=
  entries.any fun entry => c.isKeyword keyword entry.1

/-- The first entry that stands for a keyword. -/
def keywordEntry? (c : Context) (entries : Entries) (keyword : Keyword) : Option (String × Json) :=
  entries.find? fun entry => c.isKeyword keyword entry.1

/-- The kind of a value in its scope. Objects are told apart by their keywords, arrays by the
container of their key. -/
def Kind.of (s : Scope) : Json → Kind
  | .null => .null
  | .string text => if text = placeholderText then .placeholder else .primitive
  | .bool _ => .primitive
  | .number _ => .primitive
  | .array items => if s.container? = some .list then .listArray items else .nodeArray items
  | .object entries =>
    if hasKeyword s.context entries .value then .valueObject entries
    else if hasKeyword s.context entries .list then .listObject entries
    else if hasKeyword s.context entries .set then .setObject entries
    else if hasKeyword s.context entries .graph then .graphObject entries
    else .nodeObject entries

end Exemplar
