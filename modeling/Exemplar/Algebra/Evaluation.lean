import Exemplar.Algebra.Path

/-!
# Evaluation

Patterns are evaluated one solution at a time: the right side of a join only looks for what is
compatible with a solution of the left side. The result extends the solution that is given.
-/

namespace Exemplar

/-- Why a pattern cannot be evaluated. -/
inductive EvaluationError
  /-- A part of the algebra is not supported. -/
  | notImplemented
  /-- The source of the data failed. -/
  | source (message : String)

/-- The triples of a graph that agree with what a solution knows of the predicate of a triple
pattern, among those that are found by what it knows of the pattern. -/
def TriplePattern.candidates (g : Graph) (p : TriplePattern) (s : Solution) : List Triple :=
  let subject := s.resolve? p.subject
  let object := s.resolve? p.object
  match s.resolve? p.predicate with
  | none => g.candidates subject none object
  | some (.node (.iri predicate)) =>
    (g.candidates subject (some predicate) object).filter (·.predicate = predicate)
  -- blank nodes and literals are no predicates
  | some _ => []

/-- The extensions of a solution in which a triple pattern is a triple of the graph. -/
def TriplePattern.solutions (g : Graph) (p : TriplePattern) (s : Solution) : List Solution :=
  (p.candidates g s).filterMap fun t => do
    let s ← s.unify? p.subject (.node t.subject)
    let s ← s.unify? p.predicate (.iri t.predicate)
    s.unify? p.object t.object

/-- The extensions of a solution in which all triple patterns are triples of the graph. -/
def matchTriples (g : Graph) (triples : List TriplePattern) (s : Solution) : List Solution :=
  triples.foldl (fun found p => found.flatMap (p.solutions g)) [s]

/-- Extends every solution in the ways that `next` gives, and joins the results. -/
def extendAll (next : Solution → Except EvaluationError (List Solution)) (found : List Solution) :
    Except EvaluationError (List Solution) :=
  (found.mapM next).map List.flatten

/-- A solution without any extension stays as it is. -/
def keepUnmatched (s : Solution) : List Solution → List Solution
  | [] => [s]
  | found => found

namespace Pattern

/-- The extensions of a solution that match a pattern. -/
def evaluate (g : Graph) : Pattern → Solution → Except EvaluationError (List Solution)
  | bgp triples, s => .ok (matchTriples g triples s)
  | path subject p object, s => .ok (p.solutions g subject object s)
  | join left right, s => do extendAll (right.evaluate g) (← left.evaluate g s)
  | leftJoin left right none, s => do
    extendAll (fun s => (right.evaluate g s).map (keepUnmatched s)) (← left.evaluate g s)
  | values vs rows, s => .ok (rows.filterMap (s.bindRow? vs))
  | project inner vs, s => do return (← inner.evaluate g s).map (s.extend vs)
  | distinct inner, s => do return (← inner.evaluate g s).eraseDupsBy Solution.same
  -- left joins with a condition, and what queries are never compiled to
  | _, _ => .error .notImplemented

end Pattern

end Exemplar
