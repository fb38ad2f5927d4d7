import Exemplar.Context.Basic
import Exemplar.Json.Text

/-!
# Context declarations

Reading a declaration on top of the context around it. Definitions may refer to other terms of the
same declaration in any order: a term is defined when it is first needed. The terms on the way to
a definition form a path, and meeting one of them again is a cycle.
-/

namespace Exemplar

/-- Why a declaration is no context. -/
inductive ContextFault
  | unexpectedValue (value : Json)
  | baseNotText
  | vocabularyNotText
  | unsupportedEntry (key : String)

/-- Why a term cannot be defined. -/
inductive TermFault
  | notDefinition
  | reverse
  | idNotText
  | typeNotText
  | containerNotText
  | unsupportedType (keyword : Keyword)
  | notExpandable (value : String)

/-- Why a declaration cannot be applied. -/
inductive ContextError
  | invalidContext (fault : ContextFault)
  | remote (iri : String)
  | invalidTerm (term : String) (fault : TermFault)
  | cyclic (term : String)
  | invalidBase (text : String) (error : IriError)
  | invalidVocabulary (text : String)

def ContextFault.message : ContextFault → String
  | unexpectedValue value => "unexpected context value " ++ value.text
  | baseNotText => "@base must be a string or null"
  | vocabularyNotText => "@vocab must be a string or null"
  | unsupportedEntry key => "unsupported context entry " ++ key

def TermFault.message : TermFault → String
  | notDefinition => "must be a string, an object, or null"
  | reverse => "reverse properties are not supported"
  | idNotText => "@id must be a string"
  | typeNotText => "@type must be a string"
  | containerNotText => "@container must be a string or an array"
  | unsupportedType keyword => "unsupported type " ++ keyword.text
  | notExpandable value => s!"'{value}' does not expand to an IRI"

def ContextError.message : ContextError → String
  | invalidContext fault => "Invalid context: " ++ fault.message
  | remote iri => s!"Remote context '{iri}' cannot be loaded by this context normalizer"
  | invalidTerm term fault => s!"Invalid definition for term '{term}': " ++ fault.message
  | cyclic term => s!"Cyclic definition for term '{term}'"
  | invalidBase text error => s!"Invalid base IRI '{text}': " ++ error.message
  | invalidVocabulary text => s!"Invalid vocabulary mapping '{text}'"

namespace Declaration

/-- A context that is being built, and the terms of the declaration that are finished. -/
structure Progress where
  context : Context
  defined : List String

/-! ### One definition -/

/-- The container of this name; other names stand for none. -/
def containerOf? (name : String) : Option Container :=
  if name = "@list" then some .list
  else if name = "@set" then some .set
  else none

/-- Reads the entry `@container`. Of an array the first known name counts. -/
def readContainer (term : String) : Option Json → Except ContextError (Option Container)
  | none => .ok none
  | some (.string name) => .ok (containerOf? name)
  | some (.array names) => .ok (names.findSome? fun name => name.string?.bind containerOf?)
  | some _ => .error (.invalidTerm term .containerNotText)

section

-- `refer` expands a name in the definition of a term, after the terms it depends on.
variable (refer : String → Progress → Except ContextError (Expansion × Progress))

/-- Reads the entry `@id`, which is the term itself if it is missing. -/
def readMapping (term : String) (st : Progress) :
    Option Json → Except ContextError (Expansion × Progress)
  | some (.string value) => refer value st
  | none => refer term st
  | some _ => .error (.invalidTerm term .idNotText)

/-- Reads the entry `@type`. -/
def readCoercion (term : String) (st : Progress) :
    Option Json → Except ContextError (Option Coercion × Progress)
  | none => .ok (none, st)
  | some (.string kind) =>
    if kind = "@id" then .ok (some .id, st)
    else if kind = "@vocab" then .ok (some .vocab, st)
    else do
      match ← refer kind st with
      | (.iri datatype, st) => return (some (.datatype datatype), st)
      | (.keyword keyword, _) => throw (.invalidTerm term (.unsupportedType keyword))
  | some _ => .error (.invalidTerm term .typeNotText)

/-- Reads a definition that is an object. -/
def readDefinition (term : String) (entries : Entries) (st : Progress) :
    Except ContextError (TermDefinition × Progress) := do
  if entries.has "@reverse" then throw (.invalidTerm term .reverse)
  let (mapping, st) ← readMapping refer term st (entries.get? "@id")
  let (coercion, st) ← readCoercion refer term st (entries.get? "@type")
  let container ← readContainer term (entries.get? "@container")
  return (⟨mapping, coercion, container⟩, st)

/-- Reads what a declaration says about a term; `null` removes the term. -/
def readTerm (term : String) (st : Progress) :
    Json → Except ContextError (Option TermDefinition × Progress)
  | .null => .ok (none, st)
  | .string value => do
    let (mapping, st) ← refer value st
    return (some { mapping }, st)
  | .object entries => do
    let (definition, st) ← readDefinition refer term entries st
    return (some definition, st)
  | _ => .error (.invalidTerm term .notDefinition)

end

/-- The context with a definition that is finished. -/
def Progress.finish (st : Progress) (term : String) (definition : Option TermDefinition) :
    Progress :=
  { context := { st.context with terms := st.context.terms.set term definition }
    defined := term :: st.defined }

/-! ### Terms in the order of their dependencies -/

/-- The number of entries that are not on a path. -/
def remaining (entries : Entries) (path : List String) : Nat :=
  (entries.filter fun entry => entry.1 ∉ path).length

theorem remaining_cons_lt {entries : Entries} {path : List String} {term : String}
    (hpath : term ∉ path) {value : Json} (hget : entries.get? term = some value) :
    remaining entries (term :: path) < remaining entries path := by
  unfold remaining
  unfold Entries.get? at hget
  induction entries with
  | nil => simp at hget
  | cons entry entries ih =>
    obtain ⟨key, v⟩ := entry
    by_cases hkey : term = key
    · subst hkey
      have hle : (entries.filter fun e => e.1 ∉ term :: path).length
          ≤ (entries.filter fun e => e.1 ∉ path).length := by
        rw [← List.countP_eq_length_filter, ← List.countP_eq_length_filter]
        refine List.countP_mono_left fun e _ he => ?_
        simp only [List.mem_cons, not_or, decide_eq_true_eq] at he ⊢
        exact he.2
      simp only [List.filter_cons, List.mem_cons, true_or, not_true_eq_false, decide_false,
        hpath, not_false_eq_true, decide_true, if_true, List.length_cons]
      simp only [List.mem_cons] at hle
      simp only [Bool.false_eq_true, if_false]
      omega
    · have hlook : List.lookup term entries = some value := by
        have : (term == key) = false := by simpa using hkey
        simpa [List.lookup_cons, this] using hget
      have := ih hlook
      by_cases hmem : key ∈ path
      · simpa [List.filter_cons, hmem] using this
      · have hne : ¬ key = term := fun h => hkey h.symm
        simpa [List.filter_cons, hmem, hne] using this

mutual

/-- Defines a term of the declaration, unless that is done. The terms on the path wait for it. -/
def define (entries : Entries) (path : List String) (term : String) (st : Progress) :
    Except ContextError Progress :=
  if term ∈ st.defined then .ok st
  else if hpath : term ∈ path then .error (.cyclic term)
  else
    match hget : entries.get? term with
    | none => .ok st
    | some value => do
      have _ := remaining_cons_lt hpath hget -- fewer entries are off the path
      let refer := fun name st => reference entries (term :: path) term name st
      let (definition, st) ← readTerm refer term st value
      return st.finish term definition
termination_by (remaining entries path, 0)
decreasing_by exact Prod.Lex.left _ _ (by assumption)

/-- Expands a name in the definition of `term`, the first on the path. If the name or what precedes
its colon is another term of the declaration, that term is defined first. -/
def reference (entries : Entries) (path : List String) (term name : String) (st : Progress) :
    Except ContextError (Expansion × Progress) := do
  let st ← if name ≠ term ∧ entries.has name then define entries path name st else .ok st
  let st ←
    match splitColon? name with
    | some (start, _) =>
      if start ≠ term ∧ entries.has start then define entries path start st else .ok st
    | none => .ok st
  match st.context.expand? .vocab name with
  | some expansion => return (expansion, st)
  | none => throw (.invalidTerm term (.notExpandable name))
termination_by (remaining entries path, 1)
decreasing_by
  · exact Prod.Lex.right _ Nat.zero_lt_one
  · exact Prod.Lex.right _ Nat.zero_lt_one

end

/-! ### Whole declarations -/

/-- Reads the entry `@base`, which is relative to the base around it. -/
def readBase (c : Context) : Option Json → Except ContextError Context
  | none => .ok c
  | some .null => .ok { c with base := none }
  | some (.string text) =>
    let resolved :=
      match c.base with
      | some base => base.resolve text
      | none => Iri.parse text
    match resolved with
    | .ok base => .ok { c with base := some base }
    | .error error => .error (.invalidBase text error)
  | some _ => .error (.invalidContext .baseNotText)

/-- Reads the entry `@vocab`, which is expanded in the context around it. -/
def readVocabulary (c : Context) : Option Json → Except ContextError Context
  | none => .ok c
  | some .null => .ok { c with vocabulary := none }
  | some (.string text) =>
    match c.expand? .vocab text with
    | some (.iri iri) => .ok { c with vocabulary := some iri.text }
    | _ => .error (.invalidVocabulary text)
  | some _ => .error (.invalidContext .vocabularyNotText)

/-- Keywords that a declaration may have for an entry. -/
def isEntryKeyword (key : String) : Bool :=
  ["@base", "@vocab", "@version", "@language", "@direction", "@protected", "@propagate",
    "@import"].contains key

/-- Refuses entries that have the form of a keyword and are not supported. -/
def checkEntries (entries : Entries) : Except ContextError Unit :=
  match entries.find? fun entry => Keyword.hasForm entry.1 && !isEntryKeyword entry.1 with
  | some (key, _) => .error (.invalidContext (.unsupportedEntry key))
  | none => .ok ()

/-- The keys of a declaration that are terms. -/
def termKeys (entries : Entries) : List String :=
  (entries.map Prod.fst).filter fun key => !Keyword.hasForm key

/-- Applies a declaration that is an object. -/
def applyEntries (entries : Entries) (around : Context) : Except ContextError Context := do
  -- terms may use the new base and vocabulary, but not the other way round
  let c ← readBase around (entries.get? "@base")
  let c ← readVocabulary c (entries.get? "@vocab")
  checkEntries entries
  let st ← (termKeys entries).foldlM (fun st term => define entries [] term st) ⟨c, []⟩
  return st.context

mutual

/-- Applies a declaration to the context around it. -/
def apply : Json → Context → Except ContextError Context
  | .null, _ => .ok .empty
  | .array declarations, around => applyAll declarations around
  | .string iri, _ => .error (.remote iri)
  | .object entries, around => applyEntries entries around
  | .bool value, _ => .error (.invalidContext (.unexpectedValue (.bool value)))
  | .number value, _ => .error (.invalidContext (.unexpectedValue (.number value)))

/-- Applies declarations one after the other. -/
def applyAll : List Json → Context → Except ContextError Context
  | [], around => .ok around
  | declaration :: rest, around => do applyAll rest (← apply declaration around)

end

end Declaration

/-- How declarations are read: a declaration that is the name of a document stands for it. -/
structure ContextLoader where
  documents : List (String × Json)

namespace ContextLoader

/-- Reads no documents. -/
def inline : ContextLoader := ⟨[]⟩

/-- The declaration that is read in place of the given one. -/
def fetch (l : ContextLoader) : Json → Json
  | .string name => (l.documents.lookup name).getD (.string name)
  | declaration => declaration

/-- Applies a declaration to the context around it. Without a declaration that context stays. -/
def extend (l : ContextLoader) (around : Context) : Option Json → Except ContextError Context
  | none => .ok around
  | some declaration => Declaration.apply (l.fetch declaration) around

end ContextLoader

end Exemplar
