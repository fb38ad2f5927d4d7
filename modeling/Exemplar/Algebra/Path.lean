import Exemplar.Algebra.Solution
import Exemplar.Rdf.Graph

/-!
# Paths in a graph

The terms that a path leads to, forwards from its start or backwards from its end. A path that may
be repeated is followed in rounds, each from the terms that the round before it found first.
-/

namespace Exemplar

namespace Graph

/-- The terms that occur as subject or object. -/
def terms (g : Graph) : List Term :=
  (g.triples.flatMap fun t => [.node t.subject, t.object]).eraseDups

/-- The objects of the triples with a subject and a predicate. -/
def objects (g : Graph) (subject : Term) (predicate : Iri) : List Term :=
  g.triples.filterMap fun t =>
    if Term.node t.subject = subject ∧ t.predicate = predicate then some t.object else none

/-- The subjects of the triples that are found by their object and have a predicate. -/
def subjects (g : Graph) (predicate : Iri) (object : Term) : List Term :=
  (g.mentioning object).filterMap fun t =>
    if t.predicate = predicate then some (.node t.subject) else none

/-- The ends of the triples whose predicate is accepted. -/
def ends (g : Graph) (accepted : Iri → Bool) : List (Term × Term) :=
  g.triples.filterMap fun t =>
    if accepted t.predicate then some (.node t.subject, t.object) else none

end Graph

/-- The end of a path from which it is followed. -/
inductive Direction
  | forward
  | backward
  deriving DecidableEq

def Direction.flip : Direction → Direction
  | forward => backward
  | backward => forward

/-- Adds what `step` reaches from the frontier, for at most the given number of rounds. -/
def saturate (step : Term → List Term) : Nat → List Term → List Term → List Term
  | 0, reached, _ => reached
  | rounds + 1, reached, frontier =>
    -- only what is new has neighbours that are not known yet
    match (frontier.flatMap step).eraseDups.filter fun t => t ∉ reached with
    | [] => reached
    | fresh => saturate step rounds (reached ++ fresh) fresh

/-- Everything that `step` reaches from some terms, themselves included. A graph has no more rounds
in it than terms. Rounds list what is nearer first. A search that goes on from the term found last
lists the same terms in another order; the order of solutions is not promised to anyone. -/
def Graph.closure (g : Graph) (step : Term → List Term) (start : List Term) : List Term :=
  saturate step g.terms.length start.eraseDups start.eraseDups

namespace Path

/-- The neighbours of a term by one triple with a predicate. -/
def linked (g : Graph) (predicate : Iri) : Direction → Term → List Term
  | .forward, t => g.objects t predicate
  | .backward, t => g.subjects predicate t

/-- The neighbours of a term by one triple whose predicate is not excluded. -/
def linkedOtherwise (g : Graph) (excluded : List Iri) : Direction → Term → List Term
  | .forward, t => ((g.about t).filter (·.predicate ∉ excluded)).map (·.object)
  | .backward, t => ((g.mentioning t).filter (·.predicate ∉ excluded)).map (.node ·.subject)

/-- The terms that a path leads to from a term, in a direction. -/
def reach (g : Graph) : Path → Direction → Term → List Term
  | link predicate, d, t => linked g predicate d t
  | reverse p, d, t => p.reach g d.flip t
  | sequence p q, .forward, t => ((p.reach g .forward t).flatMap (q.reach g .forward)).eraseDups
  | sequence p q, .backward, t =>
    ((q.reach g .backward t).flatMap (p.reach g .backward)).eraseDups
  | alternative p q, d, t => (p.reach g d t ++ q.reach g d t).eraseDups
  | zeroOrMore p, d, t => g.closure (p.reach g d) [t]
  | oneOrMore p, d, t => g.closure (p.reach g d) (p.reach g d t)
  | zeroOrOne p, d, t => (t :: p.reach g d t).eraseDups
  | negated excluded, d, t => (linkedOtherwise g excluded d t).eraseDups

/-- The pairs of terms that a path connects. Paths of one link list the triples; others start from
every term of the graph. -/
def pairs (g : Graph) : Path → List (Term × Term)
  | link predicate => g.ends (· = predicate)
  | negated excluded => g.ends (· ∉ excluded)
  | p => g.terms.flatMap fun start => (p.reach g .forward start).map (start, ·)

/-- The pairs of terms that a path connects and whose given ends are fixed. -/
def pairsBetween (g : Graph) (p : Path) : Option Term → Option Term → List (Term × Term)
  | some start, some stop => if stop ∈ p.reach g .forward start then [(start, stop)] else []
  | some start, none => (p.reach g .forward start).map (start, ·)
  | none, some stop => (p.reach g .backward stop).map (·, stop)
  | none, none => p.pairs g

/-- The extensions of a solution in which a path leads from one position to another. -/
def solutions (g : Graph) (subject : PatternTerm) (p : Path) (object : PatternTerm)
    (s : Solution) : List Solution :=
  (p.pairsBetween g (s.resolve? subject) (s.resolve? object)).filterMap fun (start, stop) =>
    (s.unify? subject start).bind fun s => s.unify? object stop

end Path

end Exemplar
