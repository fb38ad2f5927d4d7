import Exemplar.Rdf.Term

/-!
# Graph patterns

The algebra in which queries are expressed. A pattern is matched against a graph and yields
solutions, which assign terms to its variables.
-/

namespace Exemplar

/-- A position of a triple pattern: a variable or a fixed term. -/
inductive PatternTerm
  | variable (v : Variable)
  | constant (t : Term)
  deriving DecidableEq

/-- A triple some of whose positions are variables. -/
structure TriplePattern where
  subject : PatternTerm
  predicate : PatternTerm
  object : PatternTerm
  deriving DecidableEq

inductive Path
  | link (predicate : Iri)
  | reverse (path : Path)
  | sequence (first second : Path)
  | alternative (first second : Path)
  | zeroOrMore (path : Path)
  | oneOrMore (path : Path)
  | zeroOrOne (path : Path)
  | negated (excluded : List Iri)
  deriving DecidableEq

/-- A graph pattern. The conditions of filters are named by a variable only, as they are never
evaluated. -/
inductive Pattern
  | bgp (triples : List TriplePattern)
  | path (subject : PatternTerm) (path : Path) (object : PatternTerm)
  | join (left right : Pattern)
  | leftJoin (left right : Pattern) (condition : Option Variable)
  | values (header : List Variable) (rows : List (List (Option Term)))
  | project (inner : Pattern) (header : List Variable)
  | distinct (inner : Pattern)
  | union (left right : Pattern)
  | minus (left right : Pattern)
  | filter (inner : Pattern) (condition : Variable)
  | slice (inner : Pattern)
  | reduced (inner : Pattern)
  deriving DecidableEq

def PatternTerm.vars : PatternTerm → List Variable
  | .variable v => [v]
  | .constant _ => []

def TriplePattern.vars (t : TriplePattern) : List Variable :=
  t.subject.vars ++ t.predicate.vars ++ t.object.vars

namespace Pattern

/-- The pattern that matches every graph in one way. -/
def unit : Pattern := bgp []

/-- The variables in the triple patterns, path ends and tables of a pattern. -/
def mentioned : Pattern → List Variable
  | bgp triples => triples.flatMap TriplePattern.vars
  | path subject _ object => subject.vars ++ object.vars
  | join left right => left.mentioned ++ right.mentioned
  | leftJoin left right _ => left.mentioned ++ right.mentioned
  | values header _ => header
  | project inner _ => inner.mentioned
  | distinct inner => inner.mentioned
  | _ => []

end Pattern

end Exemplar
