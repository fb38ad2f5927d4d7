import Exemplar.Compilation.Scope
import Exemplar.Iri.Resolution
import Exemplar.Rdf.Native
import Exemplar.Proofs.Outcome

/-!
# Constant documents

Documents that ask for nothing: nodes that are given by their identifiers, with the values of their
properties. Each of them denotes a term and states triples.
-/

namespace Exemplar.Json

/-- A constant: a scalar other than the placeholder, an array of one constant, or a node object
whose identifier, keys and types are absolute IRIs and whose values are constants. -/
inductive IsConstant : Json → Prop
  | scalar {value : Json} {l : Literal} (hliteral : Literal.ofNative? value = some l)
    (hfixed : value ≠ .string placeholderText) : IsConstant value
  | array {item : Json} (h : IsConstant item) : IsConstant (.array [item])
  | node {entries : Entries} {id : String}
    (hid : ∀ value, ("@id", value) ∈ entries ↔ value = .string id)
    (habsolute : (Iri.parse? id).isSome)
    (htype : ∀ value, ("@type", value) ∈ entries →
      ∃ type, value = .string type ∧ (Iri.parse? type).isSome)
    (hkey : ∀ e ∈ entries, e.1 ≠ "@id" → e.1 ≠ "@type" → (Iri.parse? e.1).isSome)
    (hvalue : ∀ key value, (key, value) ∈ entries → key ≠ "@id" → key ≠ "@type" →
      IsConstant value) : IsConstant (.object entries)

/-- The term that a constant stands for: an array stands for its only element. -/
def denoted? : Json → Option Term
  | .array [item] => item.denoted?
  | .array _ => none
  | .object entries => ((Entries.get? entries "@id").bind string?).map fun id => .iri ⟨id⟩
  | value => (Literal.ofNative? value).map .literal

/-- The triple that an entry of a node states. -/
def link? (node : Node) (key : String) (value : Json) : Option Triple :=
  if key = "@id" then none
  else if key = "@type" then value.string?.map fun type => ⟨node, Iri.rdfType, .iri ⟨type⟩⟩
  else value.denoted?.map fun t => ⟨node, ⟨key⟩, t⟩

mutual

/-- The triples that a constant states. -/
def stated : Json → List Triple
  | .array items => statedItems items
  | .object entries =>
    match denoted? (.object entries) with
    | some (.node node) => statedEntries node entries
    | _ => []
  | _ => []

def statedItems : List Json → List Triple
  | [] => []
  | item :: rest => item.stated ++ statedItems rest

def statedEntries (node : Node) : List (String × Json) → List Triple
  | [] => []
  | (key, value) :: rest =>
    (link? node key value).toList ++ value.stated ++ statedEntries node rest

end

lemma denoted?_scalar {value : Json} {l : Literal} (h : Literal.ofNative? value = some l) :
    value.denoted? = some (.literal l) := by
  cases value with
  | array | object => cases h
  | _ => rw [denoted?, h] <;> simp

lemma mem_statedEntries {node : Node} {entries : Entries} {triple : Triple} :
    triple ∈ statedEntries node entries ↔
      ∃ key value, (key, value) ∈ entries ∧
        (link? node key value = some triple ∨ triple ∈ value.stated) := by
  induction entries with
  | nil => simp [statedEntries]
  | cons e rest ih =>
    obtain ⟨key, value⟩ := e
    simp only [statedEntries, List.mem_append, Option.mem_toList, ih,
      List.mem_cons, Prod.mk.injEq]
    constructor
    · rintro (h | ⟨k, d, hmem, h⟩)
      · exact ⟨key, value, .inl ⟨rfl, rfl⟩, h⟩
      · exact ⟨k, d, .inr hmem, h⟩
    · rintro ⟨k, d, ⟨rfl, rfl⟩ | hmem, h⟩
      · exact .inl h
      · exact .inr ⟨k, d, hmem, h⟩

section

variable {entries : Entries} {id : String}
  (hid : ∀ value, ("@id", value) ∈ entries ↔ value = .string id)

include hid

lemma denoted?_node : denoted? (.object entries) = some (.iri ⟨id⟩) := by
  have hget : entries.get? "@id" = some (.string id) := by
    cases hlookup : entries.get? "@id" with
    | none =>
      have hne := List.lookup_eq_none_iff.mp hlookup _ ((hid _).mpr rfl)
      simp at hne
    | some value => rw [(hid value).mp (mem_of_lookup_eq_some hlookup)]
  simp [denoted?, hget, string?]

lemma stated_node : stated (.object entries) = statedEntries (.iri ⟨id⟩) entries := by
  simp [stated, denoted?_node hid, Term.iri]

end

lemma stated_array (item : Json) : stated (.array [item]) = item.stated := by
  simp [stated, statedItems]

end Exemplar.Json
