import Exemplar.Compilation.Grammar
import Exemplar.Rdf.Native

/-!
# Scalars

Placeholders, constants and types.
-/

namespace Exemplar

/-- The template of a placeholder, by the coercion of its key. -/
def placeholderTemplate (s : Scope) : Template :=
  match s.coercion? with
  | some .id => .name s.v s.context .base
  | some .vocab => .name s.v s.context .vocab
  | some (.datatype datatype) => .typed s.v datatype
  | none => .native s.v

/-- The term that a constant has to match, if there is one. Strings are read by the coercion of
their key. -/
def constantTerm (s : Scope) (value : Json) : Except CompileError (Option Term) :=
  match value, s.coercion? with
  | .string name, some .id => do return some (.iri (← s.expandIri .base name))
  | .string name, some .vocab => do return some (.iri (← s.expandIri .vocab name))
  | .string lexical, some (.datatype datatype) => .ok (some (.literal (.typed lexical datatype)))
  | _, _ => .ok ((Literal.ofNative? value).map .literal)

def isPlaceholder : Json → Bool
  | .string text => text == placeholderText
  | _ => false

/-- Compiles a scalar: a placeholder, or a constant that has to match. -/
def compilePrimitive (value : Json) (s : Scope) : Except CompileError Fragment :=
  if isPlaceholder value then .ok (.placeholder (placeholderTemplate s) s.v)
  else do
    match ← constantTerm s value with
    | some t => return .fixed value t
    | none => return .echo value .notScalar

/-- Compiles the type of a node. Types are relative to the vocabulary. -/
def compileType (value : Json) (s : Scope) : Except CompileError Fragment :=
  match value with
  | .string name =>
    if name = placeholderText then .ok (.placeholder (.name s.v s.context .vocab) s.v)
    else do return .fixed value (.iri (← s.expandIri .vocab name))
  | _ => .error (.invalidType value)

end Exemplar
