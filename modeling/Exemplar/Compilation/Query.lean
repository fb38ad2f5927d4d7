import Exemplar.Compilation.Array
import Exemplar.Compilation.NodeObject
import Exemplar.Compilation.Scalar

/-!
# Compiling documents

A document is compiled level by level: the rules for a value use a compiler for the values inside
it. The depth of the document bounds the number of levels.
-/

namespace Exemplar

section

variable (g : Grammar) (inner : Compiler)

/-- Compiles an object by a rule that does not lead to an array. -/
def compilePlainObject : ObjectRule → Entries → Scope → Except CompileError Fragment
  | .nodeObject, entries, s => compileNodeObject g inner entries s
  | .linkedList, entries, s => compileLinkedList g inner entries s
  | .indexedList, entries, s => compileIndexedList g inner entries s
  | .graphContainer, _, _ => .error (.templateCardinality 0)
  | .graphObject, entries, _ => .ok (.echo (.object entries) .graphObject)
  | .valueObject, entries, _ => .ok (.echo (.object entries) .valueObject)
  | .setObject, entries, _ => .ok (.echo (.object entries) .setObject)

/-- Compiles an array. An array that stands for a list is compiled as the object it stands for,
which has no `@graph` entry. -/
def compileArray : ArrayRule → List Json → Scope → Except CompileError Fragment
  | .nodeArray, items, s => compileNodeArray g inner items s
  | .listArray, items, s =>
    (compilePlainObject g inner g.listObject (wrapList items) s).map unwrapList

/-- The elements of a graph: those of an array, or the value itself. -/
def graphItems : Json → List Json
  | .array items => items
  | value => [value]

/-- The fragment of a graph container from its array. -/
def graphFragment (declaration : Option Json) (f : Fragment) : Fragment where
  template := .object declaration [("@graph", f.template)]
  operation := f.operation
  projections := addVariables [] f.projections
  warnings := f.warnings.map (.nested (.key "@graph"))

/-- Compiles an object that only consists of `@graph` and possibly a declaration. -/
def compileGraphContainer (entries : Entries) (s : Scope) : Except CompileError Fragment := do
  let context ← g.extendContext s.context (declaration? entries)
  match entries.get? "@graph" with
  | none => throw (.templateCardinality 0)
  | some value =>
    return graphFragment (declaration? entries)
      (← compileArray g inner g.nodeArray (graphItems value) { s with context })

/-- Compiles an object. -/
def compileObject : ObjectRule → Entries → Scope → Except CompileError Fragment
  | .graphContainer, entries, s => compileGraphContainer g inner entries s
  | rule, entries, s => compilePlainObject g inner rule entries s

/-- Whether an object only consists of `@graph` and possibly a declaration. -/
def isGraphContainer (entries : Entries) : Bool :=
  entries.has "@graph" && entries.all fun entry => entry.1 == "@context" || entry.1 == "@graph"

/-- Compiles a whole document. -/
def compileDocument (value : Json) (s : Scope) : Except CompileError Fragment :=
  match value with
  | .array items => compileArray g inner g.nodeArray items s
  | .object entries =>
    if isGraphContainer entries then compileObject g inner g.graphContainer entries s
    else compileObject g inner g.nodeObject entries s
  | value => .ok (.echo value .notDocument)

def compileScalar (value : Json) (s : Scope) : Except CompileError Fragment :=
  match g.primitive with
  | .document => compileDocument g inner value s
  | .resource => .error .endless -- `compileResource` would come back here with the same scalar
  | .primitive => compilePrimitive value s
  | .typeEntry => compileType value s

/-- Compiles the value of an entry, by its kind. -/
def compileResource (value : Json) (s : Scope) : Except CompileError Fragment :=
  match Kind.of s value with
  | .null => .ok (.echo .null .nullValue)
  | .placeholder => compileScalar g inner value s
  | .primitive => compileScalar g inner value s
  | .nodeObject entries => compileObject g inner g.nodeObject entries s
  | .nodeArray items => compileArray g inner g.nodeArray items s
  | .listArray items => compileArray g inner g.listArray items s
  | .listObject entries => compileObject g inner g.listObject entries s
  | .graphObject entries => compileObject g inner g.graphObject entries s
  | .valueObject entries => compileObject g inner g.valueObject entries s
  | .setObject entries => compileObject g inner g.setObject entries s

/-- Compiles a value by a rule. -/
def compileValue : Compiler
  | .document, value, s => compileDocument g inner value s
  | .resource, value, s => compileResource g inner value s
  | .primitive, value, s => compilePrimitive value s
  | .typeEntry, value, s => compileType value s

end

/-- Compiles values that are nested in at most the given number of levels. -/
def compileLevels (g : Grammar) : Nat → Compiler
  | 0 => fun _ _ _ => .error .endless
  | levels + 1 => compileValue g (compileLevels g levels)

/-- A compiled document. -/
structure Query where
  template : Template
  /-- The pattern of the document, projected to the variables that the template uses. -/
  algebra : Pattern
  projections : List Variable
  warnings : List Warning

/-- The query of a fragment. Variables that no pattern mentions are never bound. -/
def Fragment.toQuery (f : Fragment) : Query :=
  let pattern := f.operation.toPattern
  let mentioned := pattern.mentioned
  let projections := f.projections.filter fun v => v ∈ mentioned
  ⟨f.template, .project pattern projections, projections, f.warnings⟩

/-- Compiles a document in a context. -/
def Grammar.compile (g : Grammar) (context : Context) (document : Json) :
    Except CompileError Query :=
  (compileLevels g document.depth g.document document (.root context)).map Fragment.toQuery

end Exemplar
