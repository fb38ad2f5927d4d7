import Exemplar.Compilation.Grammar

/-!
# Node objects

Every entry whose key stands for an IRI is a required triple pattern from the node of the object
to the value of the entry. Entries are compiled one by one; only the choice of their variables
shows whether two of them collide.
-/

namespace Exemplar

/-- How an object identifies its node. -/
inductive Identity
  /-- Every node matches. -/
  | free
  /-- Every node matches, and its IRI is filled in. -/
  | placeholder
  /-- Only this node matches. -/
  | fixed (iri : Iri)

/-- The compiled entry of a node object. -/
structure EntryPart where
  key : String
  template : Template
  operation : Operation := {}
  projections : List Variable := []
  warnings : List Warning := []
  /-- The variable of the value, if the entry becomes a pattern. -/
  child : Option Variable := none

def declaration? (entries : Entries) : Option Json := entries.get? "@context"

/-- The entries of an object other than its declaration. -/
def ownEntries (entries : Entries) : Entries := entries.filter fun entry => entry.1 ≠ "@context"

/-- How an object identifies its node, by the entry that stands for `@id`. -/
def identityOf (s : Scope) (entries : Entries) : Except CompileError Identity :=
  match (ownEntries entries).filter fun entry => s.context.isKeyword .id entry.1 with
  | [] => .ok .free
  | [(_, .string id)] =>
    if id = placeholderText then .ok .placeholder
    else do return .fixed (← s.expandIri .base id)
  | [(_, value)] => .error (.invalidId value)
  | (first, _) :: (second, _) :: _ => .error (.collidingIds first second)

/-- What denotes the node of an object. -/
def Identity.term (s : Scope) : Identity → PatternTerm
  | .fixed iri => .constant (.iri iri)
  | .free => .variable s.v
  | .placeholder => .variable s.v

/-- An entry that is repeated in the answer, with a warning. -/
def EntryPart.echo (key : String) (value : Json) (remark : Remark) : EntryPart :=
  { key, template := .constant value, warnings := [{ remark, path := [.key key] }] }

/-- The entry that identifies the node. -/
def EntryPart.id (s : Scope) (identity : Identity) (key : String) (value : Json) : EntryPart :=
  match identity with
  | .placeholder => { key, template := .name s.v s.context .base, projections := [s.v] }
  | .free => { key, template := .constant value }
  | .fixed _ => { key, template := .constant value }

/-- The entry whose compiled value is linked to the node by a predicate. A value without a term is
not linked. -/
def EntryPart.link (node : PatternTerm) (key : String) (predicate : Iri) (v : Variable)
    (f : Fragment) : EntryPart where
  key
  template := f.template
  operation :=
    match f.term with
    | some t => f.operation.withLink ⟨node, .constant (.iri predicate), t⟩
    | none => f.operation
  projections := f.projections
  warnings := f.warnings.map (.nested (.key key))
  child := some v

/-- Compiles an entry, by what its key stands for. -/
def compileEntry (g : Grammar) (inner : Compiler) (s : Scope) (identity : Identity)
    (entry : String × Json) : Except CompileError EntryPart :=
  let (key, value) := entry
  let child := { s.child key with definition := s.context.term? key }
  let node := identity.term s
  match s.context.expand? .vocab key with
  | some (.keyword .id) => .ok (.id s identity key value)
  | some (.keyword .type) => do
    return .link node key Iri.rdfType child.v (← inner g.typeEntry value child)
  | some (.keyword keyword) => .ok (.echo key value (.unsupportedKeyword keyword))
  | some (.iri predicate) => do
    return .link node key predicate child.v (← inner g.resource value child)
  | none => .ok (.echo key value (.undefinedKey key))

/-- The warnings of entries. The variables of the entries before are known with their last keys. -/
def entryWarnings (known : List (Variable × String)) : List EntryPart → List Warning
  | [] => []
  | part :: rest =>
    match part.child with
    | none => part.warnings ++ entryWarnings known rest
    | some v =>
      let collision :=
        match known.lookup v with
        | some previous =>
          [{ remark := .sharedVariable previous part.key v, path := [.key part.key] }]
        | none => []
      collision ++ part.warnings ++ entryWarnings ((v, part.key) :: known) rest

/-- The fragment of a node object from its entries. -/
def nodeFragment (declaration : Option Json) (node : PatternTerm) (parts : List EntryPart) :
    Fragment where
  template := .object declaration (parts.map fun part => (part.key, part.template))
  operation := parts.foldl (fun operation part => operation.join part.operation) {}
  projections := parts.foldl (fun vs part => addVariables vs part.projections) []
  warnings := entryWarnings [] parts
  term := some node

def compileNodeObject (g : Grammar) (inner : Compiler) (entries : Entries) (s : Scope) :
    Except CompileError Fragment := do
  let context ← g.extendContext s.context (declaration? entries)
  let s : Scope := { v := s.v, context } -- the definition of its key ends here
  let identity ← identityOf s entries
  let parts ← (ownEntries entries).mapM (compileEntry g inner s identity)
  return nodeFragment (declaration? entries) (identity.term s) parts

end Exemplar
