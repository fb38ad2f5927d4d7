import Exemplar.Algebra.Pattern

/-!
# Operations

The algebra of a part of a document while it is compiled: what has to match, and groups that are
joined to it where they match. Whether an operation is optional only matters to the operation that
it is joined into.
-/

namespace Exemplar

/-- A required part, optional groups, and whether the whole is optional for its parent. -/
structure Operation where
  triples : List TriplePattern := []
  required : List Pattern := []
  optionals : List Pattern := []
  isOptional : Bool := false
  deriving DecidableEq

namespace Operation

def isEmpty (o : Operation) : Bool :=
  o.triples.isEmpty && o.required.isEmpty && o.optionals.isEmpty

def withTriple (o : Operation) (t : TriplePattern) : Operation :=
  { o with triples := o.triples ++ [t] }

/-- The operation with a triple pattern that links it to its parent, before all others. -/
def withLink (o : Operation) (t : TriplePattern) : Operation :=
  { o with triples := t :: o.triples }

def withRequired (o : Operation) (p : Pattern) : Operation :=
  { o with required := o.required ++ [p] }

def asOptional (o : Operation) : Operation := { o with isOptional := true }

/-- The triple patterns as one pattern, if there are any. -/
def bgp (o : Operation) : List Pattern := if o.triples.isEmpty then [] else [.bgp o.triples]

def joinAll : List Pattern → Pattern
  | [] => .unit
  | p :: rest => rest.foldl .join p

/-- The pattern of the required part. -/
def requiredPattern (o : Operation) : Pattern := joinAll (o.bgp ++ o.required)

/-- The pattern of an operation, whether it is optional or not. -/
def build (o : Operation) : Pattern :=
  o.optionals.foldl (fun left right => .leftJoin left right none) o.requiredPattern

/-- Joins an operation to this one: as one more optional group, or part by part. -/
def join (o other : Operation) : Operation :=
  if other.isEmpty then o -- even an optional group would only repeat the solutions
  else if other.isOptional then { o with optionals := o.optionals ++ [other.build] }
  else
    { o with
      triples := o.triples ++ other.triples
      required := o.required ++ other.required
      optionals := o.optionals ++ other.optionals }

/-- The pattern of a whole query. An optional one has a solution even if nothing matches. -/
def toPattern (o : Operation) : Pattern :=
  if o.isOptional && !o.isEmpty then .leftJoin .unit o.build none else o.build

end Operation

end Exemplar
