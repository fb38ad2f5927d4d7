import Exemplar.Algebra.Solution
import Exemplar.Context.Compaction
import Exemplar.Json.Basic

/-!
# Templates

A template is the shape of an answer: a document in which variables stand for what is filled in
from solutions. What has been filled in so far is kept in a *filling*, whose type follows the
template: a placeholder is empty or has a value, and a set has one filling for each member.
-/

namespace Exemplar

/-- The shape of an answer. -/
inductive Template
  /-- A value that does not depend on solutions. -/
  | constant (value : Json)
  /-- The JSON scalar of a term. -/
  | native (v : Variable)
  /-- The compacted name of an IRI. -/
  | name (v : Variable) (context : Context) (mode : IriMode)
  /-- The lexical form of a literal of a datatype. -/
  | typed (v : Variable) (datatype : Iri)
  /-- An object; a declaration is repeated as the entry `@context`. -/
  | object (declaration : Option Json) (entries : List (String × Template))
  /-- An array with one member for each term of a variable. -/
  | set (v : Variable) (member : Template)
  /-- An array whose members have positions, counted from `origin`. -/
  | indexed (index : Variable) (origin : Int) (member : Template)
  /-- An array whose members are slots of a chain that starts at a list. -/
  | linked (list slot rest : Variable) (member : Template)
  /-- An entry of an object, without the object. -/
  | unwrapped (key : String) (inner : Template)

/-- Why an answer cannot be given. -/
inductive AnswerError
  /-- No solution binds a variable. -/
  | incomplete (v : Variable)
  /-- A term has no representation where its variable stands. -/
  | badNativeValue (v : Variable) (term : Term)
  /-- A term that has to be an IRI is none. -/
  | notNamed (v : Variable) (term : Term)
  /-- A literal stands where a node is expected. -/
  | badName (term : Term)
  /-- The result that is unwrapped has no such entry. -/
  | badUnwrap (key : String)
  /-- A slot is missing, has no successor, or comes again. -/
  | brokenChain (term : Term)
  deriving DecidableEq

namespace AnswerError

def message : AnswerError → String
  | incomplete v => "No value has been bound to " ++ v.text
  | badNativeValue v t =>
    s!"The term {t.text} bound to {v.text} has no native JSON representation"
  | notNamed v t => s!"Expected {v.text} to be bound to an IRI, found {t.text}"
  | badName t => s!"The literal {t.text} cannot name a node"
  | badUnwrap key => s!"Expected a result object with the entry '{key}'"
  | brokenChain t => "The list chain is broken at " ++ t.text

/-- Whether data is missing, rather than malformed. -/
def isIncomplete : AnswerError → Bool
  | incomplete _ => true
  | _ => false

end AnswerError

/-! ### Fillings -/

/-- The position of an indexed list: its first index term and what is filled in. -/
structure IndexedSlot (α : Type) where
  index : Term
  item : α

/-- The slot of a chain: its successor, if known, and what is filled in. -/
structure LinkedSlot (α : Type) where
  rest : Option Term
  item : α

/-- A chain: the list it starts at, if known, and its slots. -/
structure Chain (α : Type) where
  head : Option Term
  slots : List (Term × LinkedSlot α)

mutual

/-- What has been filled in for a template. -/
def Template.Filling : Template → Type
  | .constant _ => Unit
  | .native _ => Option Json
  | .name _ _ _ => Option Json
  | .typed _ _ => Option Json
  | .object _ entries => Template.Fillings entries
  | .set _ member => List (Term × member.Filling)
  | .indexed _ _ member => List (Nat × IndexedSlot member.Filling)
  | .linked _ _ _ member => Chain member.Filling
  | .unwrapped _ inner => inner.Filling

/-- What has been filled in for the entries of an object. -/
def Template.Fillings : List (String × Template) → Type
  | [] => Unit
  | (_, entry) :: rest => entry.Filling × Template.Fillings rest

end

mutual

/-- Nothing is filled in. -/
def Template.start : (t : Template) → t.Filling
  | .constant _ => ()
  | .native _ => none
  | .name _ _ _ => none
  | .typed _ _ => none
  | .object _ entries => Template.startEntries entries
  | .set _ _ => []
  | .indexed _ _ _ => []
  | .linked _ _ _ _ => ⟨none, []⟩
  | .unwrapped _ inner => inner.start

/-- Nothing is filled in for any entry. -/
def Template.startEntries : (entries : List (String × Template)) → Template.Fillings entries
  | [] => ()
  | (_, entry) :: rest => (entry.start, Template.startEntries rest)

end

end Exemplar
