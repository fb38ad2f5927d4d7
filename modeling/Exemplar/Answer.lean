import Exemplar.Algebra.Table
import Exemplar.Compilation.Query
import Exemplar.Template.Folding
import Exemplar.Template.Result

/-!
# Answers

Answering a document: it is compiled, its pattern is evaluated by a source of data, and the
solutions are folded into its template, in the order in which the source delivers them. Without data
that matches, there is no answer.
-/

namespace Exemplar

/-- Why a document has no answer. -/
inductive QueryError
  | compile (error : CompileError)
  | evaluation (error : EvaluationError)
  | answer (error : AnswerError)

/-- What evaluates patterns. -/
inductive Source
  /-- The triples of a graph, whose solutions are delivered as they are listed. -/
  | graph (g : Graph)
  /-- Solutions that are given in some order, and possibly a failure after them. -/
  | rows (solutions : List Solution) (failure : Option String)

/-- The solutions of a pattern, and the failure after them. -/
def Source.evaluate (p : Pattern) :
    Source → Except EvaluationError (List Solution × Option String)
  | graph g => (Table.evaluate g p).map fun table => (table.solutions, none)
  | rows solutions failure => .ok (solutions, failure)

/-- Whether a source delivers the solutions of a pattern in a graph, each of them as often as it is
found, in any order. No source of the triples of a graph promises more. -/
def Source.Delivers (source : Source) (g : Graph) (p : Pattern) : Prop :=
  ∃ found rows, p.evaluate g [] = .ok found ∧ rows.Perm (Table.ofSolutions p found).solutions ∧
    source.evaluate p = .ok (rows, none)

/-- The answer to a document, and the warnings about it. -/
structure Response where
  /-- The document with its placeholders filled in, or nothing if no data matches. -/
  data : Option Json
  warnings : List Warning

def Response.toJson (r : Response) : Json :=
  .object [("data", r.data.getD .null), ("warnings", .array (r.warnings.map Warning.toJson))]

/-- The data of an answer: an incomplete one has none. -/
def completeData : Except AnswerError Json → Except AnswerError (Option Json)
  | .ok data => .ok (some data)
  | .error error => if error.isIncomplete then .ok none else .error error

/-- Folds solutions into a template and takes its result. -/
def Template.answer (t : Template) (solutions : List Solution) : Except AnswerError Json := do
  t.result (← t.addAll solutions t.start)

def Query.answer (q : Query) (source : Source) : Except QueryError Response := do
  let (solutions, failure) ← (source.evaluate q.algebra).mapError QueryError.evaluation
  let filling ← (q.template.addAll solutions q.template.start).mapError QueryError.answer
  if let some message := failure then throw (.evaluation (.source message))
  let data ← (completeData (q.template.result filling)).mapError QueryError.answer
  return ⟨data, q.warnings⟩

def Grammar.answer (g : Grammar) (context : Context) (source : Source) (document : Json) :
    Except QueryError Response := do
  (← (g.compile context document).mapError QueryError.compile).answer source

/-- Whether a document has an answer over a graph, the same one in whatever order the solutions of
its pattern are delivered. -/
def Grammar.AnswersAlways (g : Grammar) (context : Context) (graph : Graph) (document : Json)
    (r : Response) : Prop :=
  g.answer context (.graph graph) document = .ok r ∧
    ∀ q source, g.compile context document = .ok q → source.Delivers graph q.algebra →
      q.answer source = .ok r

end Exemplar
