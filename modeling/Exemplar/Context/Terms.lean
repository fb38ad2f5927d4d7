import Exemplar.Context.Keyword
import Exemplar.Iri.Basic

/-!
# Term definitions

What a term of a context stands for, and the table of the terms of a context.
-/

namespace Exemplar

/-- What a term or a compact IRI expands to. -/
inductive Expansion
  | keyword (keyword : Keyword)
  | iri (iri : Iri)
  deriving DecidableEq

/-- The IRI of an expansion, if it is no keyword. -/
def Expansion.iri? : Expansion → Option Iri
  | .iri i => some i
  | .keyword _ => none

/-- How the string values of a term are read. -/
inductive Coercion
  /-- As IRIs relative to the base. -/
  | id
  /-- As IRIs relative to the vocabulary. -/
  | vocab
  /-- As literals of a datatype. -/
  | datatype (iri : Iri)
  deriving DecidableEq

/-- How the array values of a term are read. -/
inductive Container
  | list
  | set
  deriving DecidableEq

/-- What a term stands for, and how its values are read. -/
structure TermDefinition where
  mapping : Expansion
  coercion : Option Coercion := none
  container : Option Container := none
  deriving DecidableEq

/-- The definitions of a context, at most one for each term. -/
structure Terms where
  entries : List (String × TermDefinition)
  nodup : (entries.map Prod.fst).Nodup

namespace Terms

def empty : Terms := ⟨[], List.nodup_nil⟩

def names (ts : Terms) : List String := ts.entries.map Prod.fst

def get? (ts : Terms) (term : String) : Option TermDefinition := ts.entries.lookup term

/-- The table without a definition of `term`. -/
def erase (ts : Terms) (term : String) : Terms :=
  ⟨ts.entries.filter (·.1 ≠ term),
    ts.nodup.sublist (List.Sublist.map Prod.fst List.filter_sublist)⟩

/-- The table in which `term` has the given definition, or none. -/
def set (ts : Terms) (term : String) : Option TermDefinition → Terms
  | none => ts.erase term
  | some definition =>
    ⟨(term, definition) :: (ts.erase term).entries, by
      simp [(ts.erase term).nodup]; simp [erase]⟩

private theorem lookup_filter_self (l : List (String × TermDefinition)) (term : String) :
    (l.filter (·.1 ≠ term)).lookup term = none := by
  induction l with
  | nil => rfl
  | cons e l ih => grind

private theorem lookup_filter_ne (l : List (String × TermDefinition)) {term other : String}
    (h : other ≠ term) : (l.filter (·.1 ≠ term)).lookup other = l.lookup other := by
  induction l with
  | nil => rfl
  | cons e l ih => grind

theorem get?_erase_self (ts : Terms) (term : String) : (ts.erase term).get? term = none :=
  lookup_filter_self ts.entries term

theorem get?_erase_ne (ts : Terms) {term other : String} (h : other ≠ term) :
    (ts.erase term).get? other = ts.get? other :=
  lookup_filter_ne ts.entries h

theorem get?_set_self (ts : Terms) (term : String) (definition : Option TermDefinition) :
    (ts.set term definition).get? term = definition := by
  cases definition with
  | none => exact get?_erase_self ts term
  | some definition => simp [set, get?]

theorem get?_set_ne (ts : Terms) {term other : String} (definition : Option TermDefinition)
    (h : other ≠ term) : (ts.set term definition).get? other = ts.get? other := by
  cases definition with
  | none => exact get?_erase_ne ts h
  | some definition =>
    have hne : (other == term) = false := by simpa using h
    simpa [set, get?, List.lookup_cons, hne] using get?_erase_ne ts h

theorem get?_eq_none {ts : Terms} {term : String} (h : term ∉ ts.names) : ts.get? term = none := by
  unfold get?
  unfold names at h
  generalize ts.entries = l at h
  induction l with
  | nil => rfl
  | cons e l ih => grind

end Terms

end Exemplar
