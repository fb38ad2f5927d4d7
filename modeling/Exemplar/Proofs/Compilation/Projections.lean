import Exemplar.Proofs.Compilation.Freshness
import Exemplar.Proofs.Compilation.Composition
import Exemplar.Proofs.Template.Positions

/-!
# Projected variables

A query is projected to the variables that its template consumes and its pattern mentions. Every
production keeps the projections of a fragment equal to what its template consumes.
-/

namespace Exemplar

/-! ### Occurrences -/

/-- Whether a variable occurs in a pattern: in a triple pattern, at the end of a path, in a table
or in a condition. The header of a projection only chooses among the variables that occur. -/
def Pattern.Uses (x : Variable) : Pattern → Prop
  | bgp triples => ∃ t ∈ triples, x ∈ t.vars
  | path subject _ object => x ∈ subject.vars ∨ x ∈ object.vars
  | join left right => left.Uses x ∨ right.Uses x
  | leftJoin left right condition => left.Uses x ∨ right.Uses x ∨ condition = some x
  | values header _ => x ∈ header
  | project inner _ => inner.Uses x
  | distinct inner => inner.Uses x
  | union left right => left.Uses x ∨ right.Uses x
  | minus left right => left.Uses x ∨ right.Uses x
  | filter inner condition => inner.Uses x ∨ x = condition
  | slice inner => inner.Uses x
  | reduced inner => inner.Uses x

/-- The variables that occur in a pattern that can be evaluated are those that it mentions. -/
lemma Pattern.uses_iff_mem_mentioned {p : Pattern} (hp : p.isSupported) {x : Variable} :
    p.Uses x ↔ x ∈ p.mentioned := by
  induction p with
  | bgp triples => simp [Uses, mentioned]
  | path subject path object => simp [Uses, mentioned]
  | values header rows => rfl
  | join left right ihl ihr =>
    obtain ⟨hl, hr⟩ := Bool.and_eq_true_iff.mp hp
    simp [Uses, mentioned, ihl hl, ihr hr]
  | leftJoin left right condition ihl ihr =>
    cases condition with
    | some v => cases hp
    | none =>
      obtain ⟨hl, hr⟩ := Bool.and_eq_true_iff.mp hp
      simp [Uses, mentioned, ihl hl, ihr hr]
  | project inner header ih => exact ih hp
  | distinct inner ih => exact ih hp
  | union | minus | filter | slice | reduced => cases hp

/-! ### Fragments -/

lemma nodup_addVariables {vs ws : List Variable} (h : vs.Nodup) : (addVariables vs ws).Nodup := by
  induction ws generalizing vs with
  | nil => exact h
  | cons w ws ih =>
    apply ih
    unfold addVariable
    split
    · exact h
    · next hw => simpa [List.nodup_append, h] using fun v hv (heq : v = w) => hw (heq ▸ hv)

/-- Whether the projections of a fragment are what its template consumes, each once. -/
structure Fragment.Projects (f : Fragment) : Prop where
  nodup : f.projections.Nodup
  mem_iff (x : Variable) : x ∈ f.projections ↔ f.template.Consumes x

lemma projects_echo (value : Json) (remark : Remark) : (Fragment.echo value remark).Projects :=
  ⟨List.nodup_nil, fun x => by simp [Fragment.echo]⟩

lemma projects_fixed (value : Json) (t : Term) : (Fragment.fixed value t).Projects :=
  ⟨List.nodup_nil, fun x => by simp [Fragment.fixed]⟩

lemma projects_placeholder {t : Template} {v : Variable} (ht : ∀ x, t.Consumes x ↔ x = v) :
    (Fragment.placeholder t v).Projects :=
  ⟨List.nodup_cons.mpr ⟨List.not_mem_nil, List.nodup_nil⟩, fun x => by
    simp [Fragment.placeholder, ht]⟩

lemma projects_scalar {value : Json} {s : Scope} {f : Fragment}
    (h : compilePrimitive value s = .ok f) : f.Projects := by
  rcases compilePrimitive_eq_ok h with ⟨-, rfl⟩ | ⟨t, -, -, rfl⟩ | ⟨-, rfl⟩
  · refine projects_placeholder fun x => ?_
    unfold placeholderTemplate
    split <;> simp
  · exact projects_fixed _ _
  · exact projects_echo _ _

lemma projects_type {value : Json} {s : Scope} {f : Fragment} (h : compileType value s = .ok f) :
    f.Projects := by
  rcases compileType_eq_ok h with ⟨-, rfl⟩ | ⟨name, iri, -, -, -, rfl⟩
  · exact projects_placeholder fun x => Template.consumes_name
  · exact projects_fixed _ _

lemma mem_projections_entry {s : Scope} {identity : Identity} {entry : String × Json}
    {part : EntryPart} (h : CompiledEntry (fun _ _ f => f.Projects) s identity entry part)
    (x : Variable) : x ∈ part.projections ↔ part.template.Consumes x := by
  cases h with
  | id => cases identity <;> simp [EntryPart.id]
  | type _ h => exact (projects_type h).mem_iff x
  | keyword => simp [EntryPart.echo]
  | link _ h => exact h.mem_iff x
  | undefined => simp [EntryPart.echo]

lemma projects_node {s : Scope} {identity : Identity} {entries : Entries} {parts : List EntryPart}
    (declaration : Option Json)
    (h : List.Forall₂ (CompiledEntry (fun _ _ f => f.Projects) s identity) entries parts) :
    (nodeFragment declaration (identity.term s) parts).Projects := by
  have hfold : ∀ (parts : List EntryPart) (vs : List Variable), vs.Nodup →
      (parts.foldl (fun vs part => addVariables vs part.projections) vs).Nodup := by
    intro parts
    induction parts with
    | nil => exact fun vs hvs => hvs
    | cons part rest ih => exact fun vs hvs => ih _ (nodup_addVariables hvs)
  refine ⟨hfold parts [] List.nodup_nil, fun x => ?_⟩
  rw [mem_projections_nodeFragment]
  simp only [nodeFragment, Template.consumes_object, List.mem_map, exists_exists_and_eq_and]
  refine exists_congr fun part => and_congr_right fun hpart => ?_
  obtain ⟨entry, -, hentry⟩ := exists_mem_left h hpart
  exact mem_projections_entry hentry x

lemma projects_array {v : Variable} {f : Fragment} (h : f.Projects) :
    (arrayFragment v f).Projects := by
  refine ⟨nodup_addVariables (by simp), fun x => ?_⟩
  simp [arrayFragment, mem_addVariables, Template.consumes_set, h.mem_iff]

/-- The list is one of the entries of a list object, and the others are constants. -/
lemma consumes_listEntries {entries : Entries} {key : String} {value : Json} {list : Template}
    (hkey : (key, value) ∈ entries) {x : Variable} :
    (Template.object none (listEntries entries key list)).Consumes x ↔ list.Consumes x := by
  rw [Template.consumes_object]
  constructor
  · rintro ⟨entry, hentry, hx⟩
    obtain ⟨⟨k, d⟩, -, rfl⟩ := List.mem_map.mp hentry
    dsimp only at hx
    split at hx
    · exact hx
    · exact absurd hx Template.consumes_constant
  · intro hx
    exact ⟨(key, list), List.mem_map.mpr ⟨(key, value), hkey, by simp⟩, hx⟩

lemma projects_list {g : Grammar} {entries : Entries} {key : String} {value : Json} {v : Variable}
    {item : PatternTerm} {f f' : Fragment} (hkey : (key, value) ∈ entries) (h : f.Projects)
    (hlist : ListFragment g entries key v item f f') : f'.Projects := by
  cases hlist with
  | linked =>
    refine ⟨nodup_addVariables (nodup_addVariables List.nodup_nil), fun x => ?_⟩
    simp [listFragment, mem_addVariables, consumes_listEntries hkey, Template.consumes_linked,
      h.mem_iff]
  | indexed =>
    refine ⟨nodup_addVariables (nodup_addVariables List.nodup_nil), fun x => ?_⟩
    simp [listFragment, mem_addVariables, consumes_listEntries hkey, Template.consumes_indexed,
      h.mem_iff]

lemma projects_unwrapList {f : Fragment} (h : f.Projects) : (unwrapList f).Projects :=
  ⟨h.nodup, fun _ => (h.mem_iff _).trans Template.consumes_unwrapped.symm⟩

lemma projects_graph (declaration : Option Json) {f : Fragment} (h : f.Projects) :
    (graphFragment declaration f).Projects := by
  refine ⟨nodup_addVariables List.nodup_nil, fun x => ?_⟩
  simp [graphFragment, mem_addVariables, Template.consumes_object, h.mem_iff]

/-! ### Documents -/

section

variable {g : Grammar} (hg : g.Usual)

include hg

lemma Compiled.projects {value : Json} {s : Scope} {f : Fragment} (h : Compiled g value s f) :
    f.Projects := by
  induction h with
  | null => exact projects_echo _ _
  | scalar _ h => exact projects_scalar h
  | node _ inner _ htype h ih =>
    obtain ⟨context, identity, parts, -, -, hparts, rfl⟩ := compileNodeObject_eq_ok hg ih htype h
    exact projects_node _ hparts
  | array _ inner _ h ih =>
    obtain ⟨template, f', -, hf', rfl⟩ := compileNodeArray_eq_ok hg ih h
    exact projects_array hf'
  | list _ inner _ h ih =>
    obtain ⟨key, value, template, f', hentry, -, hf', hlist⟩ := compileList_eq_ok hg ih h
    exact projects_list (List.mem_of_find?_eq_some hentry) hf' hlist
  | listArray _ inner _ h ih =>
    obtain ⟨key, value, template, f', hentry, -, hf', hlist⟩ := compileList_eq_ok hg ih h
    exact projects_unwrapList (projects_list (List.mem_of_find?_eq_some hentry) hf' hlist)
  | unsupported => exact projects_echo _ _

lemma CompiledDocument.projects {document : Json} {s : Scope} {f : Fragment}
    (h : CompiledDocument g document s f) : f.Projects := by
  have hinner : ∀ {inner : Compiler},
      (∀ value s f, inner .resource value s = .ok f → Compiled g value s f) →
      ∀ value s f, inner .resource value s = .ok f → f.Projects :=
    fun h value s f hf => (h value s f hf).projects hg
  cases h with
  | array inner hcompiled h =>
    obtain ⟨template, f', -, hf', rfl⟩ := compileNodeArray_eq_ok hg (hinner hcompiled) h
    exact projects_array hf'
  | graph _ _ _ inner hcompiled h =>
    obtain ⟨template, f', -, hf', rfl⟩ := compileNodeArray_eq_ok hg (hinner hcompiled) h
    exact projects_graph _ (projects_array hf')
  | node _ inner hcompiled htype h =>
    obtain ⟨context, identity, parts, -, -, hparts, rfl⟩ :=
      compileNodeObject_eq_ok hg (hinner hcompiled) htype h
    exact projects_node _ hparts
  | scalar => exact projects_echo _ _

end

/-- A compiled query projects its pattern to the variables that its template consumes, as far as
they occur in the pattern, and to each of them once. -/
theorem Grammar.compile_projections {g : Grammar} (hg : g.Usual) {context : Context}
    {document : Json} {q : Query} (hq : g.compile context document = .ok q) :
    ∃ pattern, q.algebra = .project pattern q.projections ∧ q.projections.Nodup ∧
      ∀ x, x ∈ q.projections ↔ q.template.Consumes x ∧ pattern.Uses x := by
  obtain ⟨f, hf, rfl⟩ := hg.compile_eq_ok hq
  have hprojects := hf.projects hg
  have hsupported : f.operation.toPattern.isSupported := hf.isSupported hg
  refine ⟨f.operation.toPattern, rfl, hprojects.nodup.filter _, fun x => ?_⟩
  rw [Pattern.uses_iff_mem_mentioned hsupported]
  change _ ↔ f.template.Consumes x ∧ _
  simp [Fragment.toQuery, hprojects.mem_iff]

section

/-- Asks for a list of nodes with all their values. The array of a value that is not supported
consumes a variable that no pattern uses. -/
def listedNodes : Json :=
  .object [("ex:l", .object [("@list", .array [.object [("ex:p", .array [.string "?"])]])]),
    ("ex:q", .array [.null]), ("@id", .string "?")]

/-- The variables of a node, of a list with its slots and of the values of its items are
projected. -/
theorem Grammar.compile_projections_list :
    ∃ q pattern, Grammar.standard.compile .empty listedNodes = .ok q ∧
      q.projections.length = 5 ∧ q.algebra = .project pattern q.projections ∧
      q.projections.Nodup ∧
      ∀ x, x ∈ q.projections ↔ q.template.Consumes x ∧ pattern.Uses x := by
  obtain ⟨q, hq, hlength⟩ : ∃ q, Grammar.standard.compile .empty listedNodes = .ok q ∧
      q.projections.length = 5 := ⟨_, rfl, rfl⟩
  obtain ⟨pattern, halgebra, hnodup, hmem⟩ :=
    Grammar.compile_projections Grammar.standard_usual hq
  exact ⟨q, pattern, hq, hlength, halgebra, hnodup, hmem⟩

end

end Exemplar
