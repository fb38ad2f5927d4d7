import Exemplar.Context.Terms
import Exemplar.Iri.Resolution

/-!
# Contexts

A context says what the names in a document stand for. Names are expanded either relative to the
vocabulary, as keys and types are, or relative to the base, as identifiers are.
-/

namespace Exemplar

/-- What a relative name is relative to. -/
inductive IriMode
  | vocab
  | base
  deriving DecidableEq

/-- The base and the vocabulary of relative names, and the terms. -/
structure Context where
  base : Option Iri
  vocabulary : Option String
  terms : Terms

/-! ### Text -/

/-- Splits a text at its first colon. -/
def splitColon? (text : String) : Option (String × String) :=
  match text.toList.dropWhile (· != ':') with
  | [] => none
  | _ :: after => some (String.ofList (text.toList.takeWhile (· != ':')), String.ofList after)

/-- What follows `start` in a text that starts with it. -/
def afterStart? (start text : String) : Option String :=
  if start.toList.isPrefixOf text.toList then
    some (String.ofList (text.toList.drop start.toList.length))
  else none

namespace Context

def empty : Context := ⟨none, none, .empty⟩

instance : Inhabited Context := ⟨empty⟩

/-- The context in which only the base is given. -/
def ofBase (base : Iri) : Context := { empty with base := some base }

def term? (c : Context) (term : String) : Option TermDefinition := c.terms.get? term

/-- The IRI in front of the colon of a compact IRI. What starts with two slashes after the colon
is no compact IRI. -/
def prefixIri? (c : Context) (name suffix : String) : Option Iri :=
  if (afterStart? "//" suffix).isSome then none
  else (c.term? name).bind fun definition => definition.mapping.iri?

/-- The IRI of a relative name. -/
def expandRelative? (c : Context) (mode : IriMode) (value : String) : Option Iri :=
  match mode with
  | .vocab => c.vocabulary.bind fun vocabulary => Iri.parse? (vocabulary ++ value)
  | .base => c.base.bind fun base => (base.resolve value).toOption

/-- The expansion of a name that is no term: a compact IRI, an absolute IRI or a relative name.
Blank nodes have none. -/
def expandName? (c : Context) (mode : IriMode) (value : String) : Option Iri :=
  match splitColon? value with
  | none => c.expandRelative? mode value
  | some (name, suffix) =>
    if name = "_" then none -- a blank node
    else match c.prefixIri? name suffix with
      | some iri => Iri.parse? (iri.text ++ suffix)
      | none => (Iri.parse? value).or (c.expandRelative? mode value)

/-- The definition that decides how a name expands. Identifiers do not use terms. -/
def exactTerm? (c : Context) (mode : IriMode) (value : String) : Option TermDefinition :=
  match mode with
  | .vocab => c.term? value
  | .base => none

/-- What a name stands for. Words of the form of a keyword are keywords or stand for nothing. -/
def expand? (c : Context) (mode : IriMode) (value : String) : Option Expansion :=
  if Keyword.hasForm value then (Keyword.ofText? value).map .keyword
  else match c.exactTerm? mode value with
    | some definition => some definition.mapping
    | none => (c.expandName? mode value).map .iri

/-- Whether a key stands for a keyword. -/
def isKeyword (c : Context) (keyword : Keyword) (key : String) : Bool :=
  c.expand? .vocab key == some (.keyword keyword)

/-! ### Equality -/

/-- Contexts are equivalent if they agree on the base, the vocabulary and every term. -/
def Equivalent (a b : Context) : Prop :=
  a.base = b.base ∧ a.vocabulary = b.vocabulary ∧ ∀ term, a.term? term = b.term? term

theorem equivalent_iff (a b : Context) :
    a.Equivalent b ↔ a.base = b.base ∧ a.vocabulary = b.vocabulary ∧
      ∀ term ∈ a.terms.names ++ b.terms.names, a.term? term = b.term? term := by
  refine and_congr_right fun _ => and_congr_right fun _ =>
    ⟨fun h term _ => h term, fun h term => ?_⟩
  by_cases hmem : term ∈ a.terms.names ++ b.terms.names
  · exact h term hmem
  · rw [List.mem_append, not_or] at hmem
    exact (Terms.get?_eq_none hmem.1).trans (Terms.get?_eq_none hmem.2).symm

instance (a b : Context) : Decidable (a.Equivalent b) :=
  decidable_of_iff _ (equivalent_iff a b).symm

end Context

end Exemplar
