import Exemplar.Rdf.Graph
import Exemplar.Rdf.NQuads

/-!
# Stores

A store holds one graph and counts the documents loaded into it, so that the blank nodes of each
document stay apart from all others.
-/

namespace Exemplar

/-- Why a document is not loaded. -/
inductive LoadError
  /-- The text of the document is malformed. -/
  | malformed
  /-- The document has a statement in the graph of this name. -/
  | namedGraph (name : Node)

/-- The text of an error about the contents of a document. -/
def LoadError.message? : LoadError → Option String
  | malformed => none
  | namedGraph name =>
    some ("The source only holds a default graph, found a quad in " ++ name.text)

/-- A graph and the number of documents that have been loaded. -/
structure Store where
  graph : Graph
  documents : Nat

namespace Store

def empty : Store := ⟨.empty, 0⟩

/-- Adds a triple, and tells whether it is new. -/
def insert (s : Store) (t : Triple) : Bool × Store :=
  (t ∉ s.graph.triples, { s with graph := s.graph.insert t })

def firstName? (quads : List Quad) : Option Node := quads.findSome? (·.graph)

/-- Loads a document. Nothing is added if it is malformed or names a graph. -/
def load (s : Store) (named : Bool) (text : String) : Except LoadError Store :=
  match NQuads.read named s.documents text with
  | none => .error .malformed
  | some quads =>
    match firstName? quads with
    | some name => .error (.namedGraph name)
    | none => .ok ⟨s.graph.insertAll (quads.map (·.triple)), s.documents + 1⟩

end Store

end Exemplar
