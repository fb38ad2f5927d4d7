import Exemplar.Proofs.Compilation.Freshness
import Exemplar.Proofs.Context.Empty

/-!
# Compiling without contexts

What the productions yield for documents without declarations and without warnings. Keywords are
then the keys that are written as keywords, and every other key of a node is a predicate.
-/

namespace Exemplar

/-! ### Kinds in the empty context -/

/-- Whether an object stands for a node, by the keywords that it does not have. -/
def IsNodeObject (entries : Entries) : Prop :=
  ∀ e ∈ entries, e.1 ∉ ["@value", "@list", "@set", "@graph"]

instance (entries : Entries) : Decidable (IsNodeObject entries) :=
  inferInstanceAs (Decidable (∀ e ∈ entries, e.1 ∉ ["@value", "@list", "@set", "@graph"]))

/-- The scope of a part of a document without declarations. -/
def plainScope (v : Variable) : Scope := ⟨v, .empty, none⟩

lemma hasKeyword_empty_iff {entries : Entries} {keyword : Keyword} :
    hasKeyword .empty entries keyword ↔ ∃ e ∈ entries, e.1 = keyword.text := by
  rw [hasKeyword, List.any_eq_true]
  exact exists_congr fun e => and_congr_right fun _ => Context.isKeyword_empty_iff

lemma kind_of_isNodeObject {entries : Entries} (h : IsNodeObject entries) (v : Variable) :
    Kind.of (plainScope v) (.object entries) = .nodeObject entries := by
  have hno : ∀ keyword : Keyword, keyword.text ∈ ["@value", "@list", "@set", "@graph"] →
      ¬ hasKeyword (plainScope v).context entries keyword := by
    intro keyword hmem hhas
    obtain ⟨e, he, heq⟩ := hasKeyword_empty_iff.mp hhas
    exact h e he (heq ▸ hmem)
  simp only [Kind.of, hno .value (by decide), hno .list (by decide), hno .set (by decide),
    hno .graph (by decide)]
  rfl

lemma kind_of_array (items : List Json) (v : Variable) :
    Kind.of (plainScope v) (.array items) = .nodeArray items := rfl

lemma kind_of_list {entries : Entries} (v : Variable) (hlist : ∃ e ∈ entries, e.1 = "@list") :
    Kind.of (plainScope v) (.object entries) = .valueObject entries ∨
      Kind.of (plainScope v) (.object entries) = .listObject entries := by
  have hhas : hasKeyword (plainScope v).context entries .list := hasKeyword_empty_iff.mpr hlist
  simp only [Kind.of, hhas, if_true]
  split <;> simp

/-! ### Nodes in the empty context -/

/-- A node object without declarations: its identity and its entries, which all have a meaning. -/
lemma compile_node_plain {g : Grammar} (hg : g.Usual) {inner : Compiler}
    (hinner : ∀ value s f, inner .resource value s = .ok f → Compiled g value s f)
    (htype : ∀ value s f, inner .typeEntry value s = .ok f → compileType value s = .ok f)
    {entries : Entries} {v : Variable} {f : Fragment}
    (h : compileNodeObject g inner entries (plainScope v) = .ok f)
    (hcontext : (Json.object entries).Contextless) (hwarnings : f.warnings = []) :
    ∃ identity parts, identityOf (plainScope v) entries = .ok identity ∧
      List.Forall₂ (CompiledEntry (Compiled g) (plainScope v) identity) entries parts ∧
      (∀ part ∈ parts, part.warnings = []) ∧ (parts.filterMap (·.child)).Nodup ∧
      f = nodeFragment none (identity.term (plainScope v)) parts := by
  obtain ⟨context, identity, parts, hextend, hidentity, hparts, rfl⟩ :=
    compileNodeObject_eq_ok hg hinner htype h
  rw [declaration?_of_contextless hcontext] at hextend ⊢
  obtain rfl := g.extendContext_none hextend
  rw [ownEntries_of_contextless hcontext] at hparts
  obtain ⟨hnone, hnodup, -⟩ := entryWarnings_eq_nil hwarnings
  exact ⟨identity, parts, hidentity, hparts, hnone, hnodup, rfl⟩

/-- An entry without a warning is the identifier, a type, or linked by its key. -/
lemma plain_entry_cases {g : Grammar} {v : Variable} {identity : Identity} {key : String}
    {value : Json} {part : EntryPart}
    (h : CompiledEntry (Compiled g) (plainScope v) identity (key, value) part)
    (hwarnings : part.warnings = []) :
    (key = "@id" ∧ part = .id (plainScope v) identity key value) ∨
    (key = "@type" ∧ ∃ f, compileType value (plainScope (v.child key)) = .ok f ∧
      part = .link (identity.term (plainScope v)) key Iri.rdfType (v.child key) f) ∨
    (¬ Keyword.hasForm key ∧ ∃ f, Compiled g value (plainScope (v.child key)) f ∧
      f.warnings = [] ∧
      part = .link (identity.term (plainScope v)) key ⟨key⟩ (v.child key) f) := by
  have hkeyword : ∀ {keyword : Keyword},
      (plainScope v).context.expand? .vocab key = some (.keyword keyword) → key = keyword.text :=
    fun hkey => Context.isKeyword_empty_iff.mp (beq_iff_eq.mpr hkey)
  cases h with
  | id hkey => exact .inl ⟨hkeyword hkey, rfl⟩
  | type hkey h => exact .inr (.inl ⟨hkeyword hkey, _, h, rfl⟩)
  | keyword => simp [EntryPart.echo] at hwarnings
  | undefined => simp [EntryPart.echo] at hwarnings
  | @link _ _ predicate f hkey h =>
    have hform : ¬ Keyword.hasForm key := by
      intro hform
      rw [Context.expand?, if_pos hform, Option.map_eq_some_iff] at hkey
      obtain ⟨k, -, hk⟩ := hkey
      cases hk
    cases Context.expand?_empty hform hkey
    exact .inr (.inr ⟨hform, f, h, by simpa [EntryPart.link] using hwarnings, rfl⟩)

lemma CompiledEntry.key_eq {R : Json → Scope → Fragment → Prop} {s : Scope} {identity : Identity}
    {entry : String × Json} {part : EntryPart} (h : CompiledEntry R s identity entry part) :
    part.key = entry.1 := by
  cases h with
  | id => cases identity <;> rfl
  | _ => rfl

/-! ### Derivations in the empty context -/

section

variable {g : Grammar} (hg : g.Usual) {v : Variable} {f : Fragment}

include hg

/-- A node object is compiled from its identity and its entries. -/
lemma Compiled.node_plain {entries : Entries}
    (h : Compiled g (.object entries) (plainScope v) f) (hnode : IsNodeObject entries)
    (hcontext : (Json.object entries).Contextless) (hwarnings : f.warnings = []) :
    ∃ identity parts, identityOf (plainScope v) entries = .ok identity ∧
      List.Forall₂ (CompiledEntry (Compiled g) (plainScope v) identity) entries parts ∧
      (∀ part ∈ parts, part.warnings = []) ∧ (parts.filterMap (·.child)).Nodup ∧
      f = nodeFragment none (identity.term (plainScope v)) parts := by
  obtain ⟨inner, hinner, htype, hcompile⟩ := h.yields_of_eq (kind_of_isNodeObject hnode v)
  exact compile_node_plain hg hinner htype hcompile hcontext hwarnings

/-- An array is compiled from its only element. -/
lemma Compiled.array_plain {items : List Json} (h : Compiled g (.array items) (plainScope v) f) :
    ∃ template f', items = [template] ∧ Compiled g template (plainScope v) f' ∧
      f = arrayFragment v f' := by
  obtain ⟨inner, hinner, hcompile⟩ := h.yields
  exact compileNodeArray_eq_ok hg hinner hcompile

/-- A document that is not wrapped in a graph is compiled like a value. -/
lemma CompiledDocument.compiled_plain {document : Json}
    (h : CompiledDocument g document (.root .empty) f) (hcontext : document.Contextless)
    (hwarnings : f.warnings = [])
    (hcontainer : ∀ entries, document = .object entries → ¬ isGraphContainer entries) :
    Compiled g document (plainScope .root) f := by
  cases h with
  | array inner hinner h => exact .array (kind_of_array _ _) inner hinner h
  | graph hgraph => exact absurd hgraph (hcontainer _ rfl)
  | node _ inner hinner htype h =>
    obtain ⟨identity, parts, -, hparts, hnone, -, -⟩ :=
      compile_node_plain hg hinner htype h hcontext hwarnings
    refine .node (kind_of_isNodeObject (fun e he hkey => ?_) _) inner hinner htype h
    obtain ⟨part, hpart, hentry⟩ := exists_mem_right hparts he
    rcases plain_entry_cases hentry (hnone part hpart) with ⟨heq, -⟩ | ⟨heq, -⟩ | ⟨hform, -⟩
    · rw [heq] at hkey
      exact absurd hkey (by decide)
    · rw [heq] at hkey
      exact absurd hkey (by decide)
    · refine hform ?_
      simp only [List.mem_cons, List.not_mem_nil, or_false] at hkey
      rcases hkey with hkey | hkey | hkey | hkey <;> rw [hkey] <;> decide
  | scalar => simp [Fragment.echo] at hwarnings

end

/-! ### Identifiers -/

/-- The only identifier of a node is a string, and a placeholder is filled in. -/
lemma identityOf_of_mem {entries : Entries} {v : Variable} {identity : Identity} {value : Json}
    (hcontext : (Json.object entries).Contextless)
    (h : identityOf (plainScope v) entries = .ok identity) (hid : ("@id", value) ∈ entries) :
    ∃ id, value = .string id ∧ entries.filter (fun e => e.1 = "@id") = [("@id", .string id)] ∧
      (id = placeholderText → identity = .placeholder) := by
  have hfilter : (ownEntries entries).filter (fun e => (plainScope v).context.isKeyword .id e.1) =
      entries.filter fun e => e.1 = "@id" := by
    rw [ownEntries_of_contextless hcontext]
    refine List.filter_congr fun e _ => ?_
    rw [Bool.eq_iff_iff, decide_eq_true_iff]
    exact Context.isKeyword_empty_iff
  rw [← ownEntries_of_contextless hcontext] at hid
  obtain ⟨heq, id, rfl, hidentity⟩ := identityOf_of_mem_own h hid (Context.expand?_keyword .id)
  refine ⟨id, rfl, hfilter ▸ heq, fun hplaceholder => ?_⟩
  rcases hidentity with ⟨-, hidentity⟩ | ⟨hne, -⟩
  · exact hidentity
  · exact absurd hplaceholder hne

end Exemplar
