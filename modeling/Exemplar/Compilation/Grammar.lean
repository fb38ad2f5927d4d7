import Exemplar.Compilation.Scope

/-!
# Grammars

The rules by which the parts of a document are compiled, as a table that can be changed. Rules
refer to each other through the table only.
-/

namespace Exemplar

/-- Rules for values of any kind. -/
inductive ValueRule
  | document
  | resource
  | primitive
  | typeEntry
  deriving DecidableEq

inductive ObjectRule
  | nodeObject
  | linkedList
  | indexedList
  | graphContainer
  | graphObject
  | valueObject
  | setObject
  deriving DecidableEq

inductive ArrayRule
  | nodeArray
  | listArray
  deriving DecidableEq

/-- The predicates of indexed lists, and the position of their first item. -/
structure ListVocabulary where
  item : Iri := .listItem
  index : Iri := .listIndex
  content : Iri := .listItemContent
  origin : Int := 1

/-- The rule for each construct. -/
structure Grammar where
  document : ValueRule := .document
  resource : ValueRule := .resource
  primitive : ValueRule := .primitive
  typeEntry : ValueRule := .typeEntry
  nodeObject : ObjectRule := .nodeObject
  listObject : ObjectRule := .linkedList
  graphContainer : ObjectRule := .graphContainer
  graphObject : ObjectRule := .graphObject
  valueObject : ObjectRule := .valueObject
  setObject : ObjectRule := .setObject
  nodeArray : ArrayRule := .nodeArray
  listArray : ArrayRule := .listArray
  contexts : ContextLoader := .inline
  lists : ListVocabulary := {}

namespace Grammar

/-- The grammar in which lists are chains of slots. -/
def standard : Grammar := {}

/-- The grammar in which the slots of a list have positions. -/
def withIndexedLists : Grammar := { listObject := .indexedList }

/-- Applies the declaration of an object to the context around it. -/
def extendContext (g : Grammar) (around : Context) (declaration : Option Json) :
    Except CompileError Context :=
  match g.contexts.extend around declaration with
  | .ok context => .ok context
  | .error error => .error (.context error)

end Grammar

/-- Compiles a value by a rule. -/
abbrev Compiler := ValueRule → Json → Scope → Except CompileError Fragment

end Exemplar
