import Exemplar.Rdf.Term

/-!
# Graphs

A graph is a set of triples, listed without repetition. Its triples are found by their subject,
their object or their predicate.
-/

namespace Exemplar

/-- A set of triples. -/
structure Graph where
  triples : List Triple
  nodup : triples.Nodup

namespace Graph

def empty : Graph := ⟨[], List.nodup_nil⟩

instance : Inhabited Graph := ⟨empty⟩

instance : Membership Triple Graph := ⟨fun g t => t ∈ g.triples⟩

def insert (g : Graph) (t : Triple) : Graph :=
  if h : t ∈ g.triples then g
  else ⟨g.triples ++ [t], by simp [List.nodup_append, g.nodup]; grind⟩

def size (g : Graph) : Nat := g.triples.length

def insertAll (g : Graph) (ts : List Triple) : Graph := ts.foldl insert g

def ofList (ts : List Triple) : Graph := empty.insertAll ts

/-! ### Look-up -/

/-- Whether the triples of a term are found by it. They are listed up to those of the next term, and
the last blank node has no next one. -/
def isIndexed (t : Term) : Bool := t ≠ .blank .last

/-- The triples that are found by their subject. -/
def about (g : Graph) (subject : Term) : List Triple :=
  if isIndexed subject then g.triples.filter (.node ·.subject = subject) else []

/-- The triples that are found by their object. -/
def mentioning (g : Graph) (object : Term) : List Triple :=
  if isIndexed object then g.triples.filter (·.object = object) else []

/-- The triples that are found by their predicate. -/
def withPredicate (g : Graph) (predicate : Iri) : List Triple :=
  g.triples.filter (·.predicate = predicate)

/-- The triples among which to look for those whose subject, predicate or object may be known. A
known subject is tried first, then a known object. -/
def candidates (g : Graph) : Option Term → Option Iri → Option Term → List Triple
  | some subject, _, _ => g.about subject
  | none, _, some object => g.mentioning object
  | none, some predicate, none => g.withPredicate predicate
  | none, none, none => g.triples

theorem mem_insert (g : Graph) (t u : Triple) : u ∈ g.insert t ↔ u ∈ g ∨ u = t := by
  change u ∈ (g.insert t).triples ↔ u ∈ g.triples ∨ u = t
  unfold insert
  split
  · next h => exact ⟨Or.inl, fun hu => hu.elim id fun e => e ▸ h⟩
  · simp

end Graph

end Exemplar
