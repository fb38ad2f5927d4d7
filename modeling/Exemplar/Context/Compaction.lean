import Exemplar.Context.Basic

/-!
# Compaction

The shortest name of an IRI. Of names of the same length the one that comes first in the order of
their characters is chosen, so the choice does not depend on how the terms are listed.
-/

namespace Exemplar

/-- Whether a name is preferred over another: it has fewer bytes, or as many and comes first. -/
def shorter (a b : String) : Bool :=
  a.utf8ByteSize < b.utf8ByteSize || (a.utf8ByteSize == b.utf8ByteSize && a < b)

/-- The preferred name of a list. -/
def shortestName? : List String → Option String
  | [] => none
  | name :: rest =>
    match shortestName? rest with
    | none => some name
    | some other => some (if shorter other name then other else name)

/-- Whether a suffix is read back as a relative name: it is not empty and has no colon. -/
def isPlainSuffix (suffix : String) : Bool := !suffix.isEmpty && !suffix.toList.contains ':'

/-- Whether names can be put behind an IRI: it ends with a slash, a number sign or a colon. -/
def Iri.endsOpen (i : Iri) : Bool :=
  match i.text.toList.getLast? with
  | some c => c == '/' || c == '#' || c == ':'
  | none => false

namespace Context

/-- The terms that stand for an IRI. -/
def exactNames (c : Context) (iri : String) : List String :=
  c.terms.entries.filterMap fun (term, definition) =>
    if definition.mapping = .iri ⟨iri⟩ then some term else none

/-- The name of an IRI relative to the vocabulary, unless it is a term. -/
def vocabularyName? (c : Context) (iri : String) : Option String := do
  let suffix ← afterStart? (← c.vocabulary) iri
  if isPlainSuffix suffix && (c.term? suffix).isNone then some suffix else none

/-- The name of an IRI relative to the base. -/
def baseName? (c : Context) (iri : String) : Option String := do
  let suffix ← afterStart? (← c.base).text iri
  if isPlainSuffix suffix then some suffix else none

/-- The compact IRI that a term makes of an IRI, if the term stands for its start. -/
def compactName? (iri : String) (term : String) (definition : TermDefinition) : Option String := do
  let start ← definition.mapping.iri?
  let suffix ← afterStart? start.text iri
  if start.endsOpen && !suffix.isEmpty then some (term ++ ":" ++ suffix) else none

/-- The compact IRIs of an IRI. -/
def compactNames (c : Context) (iri : String) : List String :=
  c.terms.entries.filterMap fun (term, definition) => compactName? iri term definition

/-- The relative name of an IRI; relative to the vocabulary, terms are preferred. -/
def relativeName? (c : Context) (mode : IriMode) (iri : String) : Option String :=
  match mode with
  | .vocab => (shortestName? (c.exactNames iri)).or (c.vocabularyName? iri)
  | .base => c.baseName? iri

/-- The shortest name of an IRI. IRIs without one are kept as they are. -/
def compact (c : Context) (mode : IriMode) (iri : String) : String :=
  ((c.relativeName? mode iri).or (shortestName? (c.compactNames iri))).getD iri

end Context

end Exemplar
