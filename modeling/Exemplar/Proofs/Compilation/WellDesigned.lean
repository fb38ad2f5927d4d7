import Exemplar.Proofs.Compilation.Nesting

/-!
# Queries are well designed

The pattern of a document is well designed if the node at its root is known or has a required
triple pattern, and if no list has arrays as its items. Whatever evaluates it then finds the same
solutions, whether it passes solutions on from left to right or joins them from the bottom up.
-/

namespace Exemplar

open Pattern (inTriples)

/-- The node object inside any number of arrays. -/
inductive MemberNode (s : Scope) : Json → Entries → Prop
  | node {value : Json} {entries : Entries} (hkind : Kind.of s value = .nodeObject entries) :
    MemberNode s value entries
  | array {template value : Json} {entries : Entries}
    (hkind : Kind.of s value = .nodeArray [template]) (h : MemberNode s template entries) :
    MemberNode s value entries

/-- The node object at the root of a document, inside any number of arrays. -/
inductive RootNode (context : Context) : Json → Entries → Prop
  | document {entries : Entries} (hcontainer : ¬ isGraphContainer entries) :
    RootNode context (.object entries) entries
  | array {template : Json} {entries : Entries}
    (h : MemberNode (.root context) template entries) :
    RootNode context (.array [template]) entries

/-- Whether the node of an object is known, or has an entry that becomes a required triple pattern:
a type, or a value that is not an array of any number of values. -/
def RequiresNode (g : Grammar) (s : Scope) (entries : Entries) : Prop :=
  ∃ context, g.extendContext s.context (declaration? entries) = .ok context ∧
    ((∃ iri, identityOf ⟨s.v, context, none⟩ entries = .ok (.fixed iri)) ∨
      ∃ key value, (key, value) ∈ ownEntries entries ∧
        (context.expand? .vocab key = some (.keyword .type) ∨
          (∃ predicate, context.expand? .vocab key = some (.iri predicate)) ∧
            ∀ items, Kind.of (entryScope ⟨s.v, context, none⟩ key) value ≠ .nodeArray items))

/-! ### Required entries -/

/-- What is compiled without a warning is denoted by something. -/
lemma Compiled.exists_term {g : Grammar} (hg : g.Usual) {value : Json} {s : Scope} {f : Fragment}
    (h : Compiled g value s f) (hwarnings : f.warnings = []) : ∃ t, f.term = some t := by
  have hlist : ∀ {inner : Compiler} {entries : Entries} {s : Scope} {f : Fragment},
      compileList g inner entries s = .ok f → ∃ t, f.term = some t := by
    intro inner entries s f h
    obtain ⟨key, value, template, f', -, -, -, hlist⟩ :=
      compileList_eq_ok hg (R := fun _ _ _ => True) (fun _ _ _ _ => trivial) h
    cases hlist <;> exact ⟨_, rfl⟩
  induction h with
  | null => cases hwarnings
  | scalar _ h =>
    rcases compilePrimitive_eq_ok h with ⟨-, rfl⟩ | ⟨t, -, -, rfl⟩ | ⟨-, rfl⟩
    · exact ⟨_, rfl⟩
    · exact ⟨_, rfl⟩
    · cases hwarnings
  | node _ inner hinner htype h =>
    obtain ⟨context, identity, parts, -, -, -, rfl⟩ := compileNodeObject_eq_ok hg hinner htype h
    exact ⟨_, rfl⟩
  | array _ inner _ h ih =>
    obtain ⟨template, f', -, hterm, rfl⟩ := compileNodeArray_eq_ok hg ih h
    exact hterm (by simpa [arrayFragment] using hwarnings)
  | list _ inner _ h => exact hlist h
  | listArray _ inner _ h =>
    obtain ⟨t, ht⟩ := hlist h
    exact ⟨t, ht⟩
  | unsupported => cases hwarnings

/-- A type, and a value that is not an array of any number of values, is required. -/
lemma CompiledEntry.mem_triples {g : Grammar} (hg : g.Usual) {s : Scope} {identity : Identity}
    {key : String} {value : Json} {part : EntryPart}
    (h : CompiledEntry (Compiled g) s identity (key, value) part) (hwarnings : part.warnings = [])
    (hkey : s.context.expand? .vocab key = some (.keyword .type) ∨
      (∃ predicate, s.context.expand? .vocab key = some (.iri predicate)) ∧
        ∀ items, Kind.of (entryScope s key) value ≠ .nodeArray items) :
    part.operation.isOptional = false ∧
      ∃ predicate t, ⟨identity.term s, predicate, t⟩ ∈ part.operation.triples := by
  have hlink : ∀ {predicate : Iri} {f : Fragment} {t : PatternTerm}, f.term = some t →
      f.operation.isOptional = false →
      (EntryPart.link (identity.term s) key predicate (s.v.child key) f).operation.isOptional =
          false ∧
        ∃ predicate' t', ⟨identity.term s, predicate', t'⟩ ∈
          (EntryPart.link (identity.term s) key predicate (s.v.child key) f).operation.triples := by
    intro predicate f t hterm hoptional
    rw [Operation.isOptional_link]
    exact ⟨hoptional, _, _, Operation.mem_triples_link.mpr (.inl ⟨t, hterm, rfl⟩)⟩
  cases h with
  | id hid => simp [hid] at hkey
  | keyword => cases hwarnings
  | undefined => cases hwarnings
  | type _ h =>
    rcases compileType_eq_ok h with ⟨-, rfl⟩ | ⟨name, iri, -, -, -, rfl⟩ <;> exact hlink rfl rfl
  | @link _ _ _ f hiri h =>
    have hf : f.warnings = [] := by simpa [EntryPart.link] using hwarnings
    obtain ⟨t, hterm⟩ := h.exists_term hg hf
    refine hlink hterm ?_
    by_contra hoptional
    obtain ⟨items, harray⟩ := h.kind_of_isOptional hg (by simpa using hoptional)
    rcases hkey with htype | ⟨-, hnot⟩
    · simp [hiri] at htype
    · exact hnot items harray

/-- The node of an object is known, or in a triple pattern if something is required of it. -/
lemma exists_triple_of_requires {g : Grammar} (hg : g.Usual) {s : Scope} {identity : Identity}
    {entries : Entries} {declaration : Option Json} {parts : List EntryPart} {x : Variable}
    (hidentity : identityOf s entries = .ok identity)
    (hparts : List.Forall₂ (CompiledEntry (Compiled g) s identity) (ownEntries entries) parts)
    (hwarnings : ∀ p ∈ parts, p.warnings = [])
    (hrequires : (∃ iri, identityOf s entries = .ok (.fixed iri)) ∨
      ∃ key value, (key, value) ∈ ownEntries entries ∧
        (s.context.expand? .vocab key = some (.keyword .type) ∨
          (∃ predicate, s.context.expand? .vocab key = some (.iri predicate)) ∧
            ∀ items, Kind.of (entryScope s key) value ≠ .nodeArray items))
    (hx : x ∈ (identity.term s).vars) :
    ∃ t ∈ (nodeFragment declaration (identity.term s) parts).operation.triples, x ∈ t.vars := by
  rcases hrequires with ⟨iri, hfixed⟩ | ⟨key, value, hmem, hkey⟩
  · cases hidentity.symm.trans hfixed
    cases hx
  · obtain ⟨p, hp, hentry⟩ := exists_mem_right hparts hmem
    obtain ⟨hoptional, predicate, t, ht⟩ := hentry.mem_triples hg (hwarnings p hp) hkey
    exact ⟨_, Operation.mem_triples_foldl_join (.inr ⟨p, hp, hoptional, ht⟩),
      by simp [TriplePattern.vars, hx]⟩

/-- Whether the groups of a fragment leave nothing to their surroundings. -/
def Fragment.Closed (f : Fragment) (v : Variable) : Prop :=
  f.Nested v ∧ ∀ q ∈ f.operation.optionals, v ∈ q.mentioned →
    v ∈ inTriples f.operation.requiredPattern

lemma Fragment.Closed.nested {f : Fragment} {v : Variable} (h : f.Closed v) :
    f.operation.Nested [] := by
  refine h.1.nested.change_free fun q hq x hx hfree => ?_
  obtain rfl := List.mem_singleton.mp (hfree.resolve_right List.not_mem_nil)
  exact h.2 q hq hx

lemma closed_array {v : Variable} {f : Fragment} (h : f.Closed v) :
    (arrayFragment v f).Closed v := by
  refine ⟨nested_array h.1, fun q hq hv => ?_⟩
  have hq : q ∈ f.operation.optionals := by simpa [arrayFragment, Operation.asOptional] using hq
  show v ∈ inTriples (memberOperation v f).requiredPattern
  rcases Operation.memberOperation_cases v f with heq | ⟨t, hfixed, -⟩
  · rw [heq]
    exact h.2 q hq hv
  · -- a fixed member leaves no groups with the variable of the array
    rw [h.1.free q hq hv] at hfixed
    cases hfixed

section

variable {g : Grammar} (hg : g.Usual) {inner : Compiler}
  (hinner : ∀ value s f, inner .resource value s = .ok f → Compiled g value s f)
  (htype : ∀ value s f, inner .typeEntry value s = .ok f → compileType value s = .ok f)

include hg hinner htype

lemma closed_node {entries : Entries} {s : Scope} {f : Fragment}
    (h : compileNodeObject g inner entries s = .ok f) (hwarnings : f.warnings = [])
    (hrequires : RequiresNode g s entries)
    (hitems : ∀ value s', NodeEntry g entries s value s' → NoArrayItems g value s') :
    f.Closed s.v := by
  have hnested := g.preserves_nested.nodeObject hg hinner htype h hwarnings hitems
  obtain ⟨context, identity, parts, hcontext, hidentity, hparts, rfl⟩ :=
    compileNodeObject_eq_ok hg hinner htype h
  refine ⟨hnested, fun q hq hv => ?_⟩
  have hterm : identity.term ⟨s.v, context, none⟩ = .variable s.v :=
    Option.some.inj (hnested.free q hq hv)
  obtain ⟨context', hcontext', hrequires⟩ := hrequires
  cases hcontext.symm.trans hcontext'
  obtain ⟨hnone, -, -⟩ := entryWarnings_eq_nil hwarnings
  rw [Operation.mem_inTriples_requiredPattern]
  exact .inl (exists_triple_of_requires hg hidentity hparts hnone hrequires
    (by simp [hterm, PatternTerm.vars]))

end

/-- The node object at the root of a document, inside the arrays around it. -/
lemma closed_member {g : Grammar} (hg : g.Usual) {value : Json} {s : Scope} {entries : Entries}
    (hmember : MemberNode s value entries) {f : Fragment} (h : Compiled g value s f)
    (hwarnings : f.warnings = []) (hrequires : RequiresNode g s entries)
    (hitems : NoArrayItems g value s) : f.Closed s.v := by
  induction hmember generalizing f with
  | node hkind =>
    obtain ⟨inner, hinner, htype, hcompile⟩ := h.yields_of_eq hkind
    refine closed_node hg hinner htype hcompile hwarnings hrequires ?_
    exact fun value' s' hentry template hi => hitems template (.entry hkind hentry hi)
  | array hkind _ ih =>
    obtain ⟨inner, hinner, hcompile⟩ := h.yields_of_eq hkind
    obtain ⟨template, f', heq, hf', rfl⟩ := compileNodeArray_eq_ok hg hinner hcompile
    cases heq
    apply closed_array
    apply ih hf' _ hrequires
    · exact fun inner hi => hitems inner (.member hkind hi)
    · simpa [arrayFragment] using hwarnings

lemma Operation.Nested.wellDesigned_toPattern {o : Operation} (h : o.Nested []) :
    o.toPattern.WellDesigned inTriples [] := by
  have hbuild : o.build.WellDesigned inTriples [] :=
    h.wellDesigned_build fun q _ x _ hx => absurd hx List.not_mem_nil
  unfold toPattern
  split
  · exact ⟨fun v _ hv => absurd hv List.not_mem_nil, trivial, hbuild⟩
  · exact hbuild

/-- The groups of a document that is compiled without a warning leave nothing to their surroundings:
if the node at its root is known or has a required entry, and if no item of a list is an array. -/
theorem CompiledDocument.closed {g : Grammar} (hg : g.Usual) {context : Context}
    {document : Json} {f : Fragment} (hf : CompiledDocument g document (.root context) f)
    (hwarnings : f.warnings = []) {root : Entries} (hroot : RootNode context document root)
    (hrequires : RequiresNode g (.root context) root)
    (hitems : ∀ template, ItemOfDocument g context document template →
      ∀ items, template ≠ .array items) : f.Closed .root := by
  cases hroot with
  | document hcontainer =>
    cases hf with
    | graph hgraph => exact absurd hgraph hcontainer
    | scalar => cases hwarnings
    | node _ inner hinner htype h =>
      refine closed_node hg hinner htype h hwarnings hrequires ?_
      exact fun value s hentry template hi => hitems template (.node hcontainer hentry hi)
  | array hmember =>
    cases hf with
    | scalar => cases hwarnings
    | array inner hinner h =>
      obtain ⟨template, f', heq, hf', rfl⟩ := compileNodeArray_eq_ok hg hinner h
      cases heq
      apply closed_array
      refine closed_member hg hmember hf' ?_ hrequires ?_
      · simpa [arrayFragment] using hwarnings
      · exact fun inner hi => hitems inner (.array hi)

/-- In the pattern of a document that is compiled without a warning, the left side of every left
join has triple patterns with all variables that its right side shares with the rest: if the node
at the root is known or has a required entry, and if no item of a list is an array. -/
theorem Grammar.compile_wellDesigned {g : Grammar} (hg : g.Usual) {context : Context}
    {document : Json} {q : Query} (hq : g.compile context document = .ok q)
    (hwarnings : q.warnings = []) {root : Entries} (hroot : RootNode context document root)
    (hrequires : RequiresNode g (.root context) root)
    (hitems : ∀ template, ItemOfDocument g context document template →
      ∀ items, template ≠ .array items) :
    q.algebra.WellDesigned inTriples [] := by
  obtain ⟨f, hf, rfl⟩ := hg.compile_eq_ok hq
  exact (hf.closed hg hwarnings hroot hrequires hitems).nested.wellDesigned_toPattern

section

/-- Asks for a value of a node, and for the nodes that it is linked to, each with all values of one
kind and a list. -/
def nestedNode : Entries :=
  [("@id", .string "?"), ("ex:p", .string "?"),
    ("ex:q", .array [.object [("ex:r", .array [.string "?"]),
      ("ex:l", .object [("@list", .array [.object [("ex:s", .array [.string "?"])]])])]])]

/-- A query with groups in groups, one of them at the items of a list. -/
theorem Grammar.compile_wellDesigned_nested :
    ∃ q, Grammar.standard.compile .empty (.array [.object nestedNode]) = .ok q ∧
      q.warnings = [] ∧ q.algebra.WellDesigned inTriples [] := by
  obtain ⟨q, hq, hwarnings⟩ :
      ∃ q, Grammar.standard.compile .empty (.array [.object nestedNode]) = .ok q ∧
        q.warnings = [] := ⟨_, rfl, rfl⟩
  refine ⟨q, hq, hwarnings, Grammar.compile_wellDesigned Grammar.standard_usual hq hwarnings
    (.array (.node rfl)) ⟨.empty, rfl, .inr ⟨"ex:p", .string "?", ?_, .inr ⟨⟨⟨"ex:p"⟩, rfl⟩, ?_⟩⟩⟩
    fun template hi => hi.apart ?_⟩
  · exact List.mem_cons_of_mem _ List.mem_cons_self
  · exact fun items hkind => nomatch hkind
  · simp [Json.ArraysApart, Json.ItemsApart, Json.EntriesApart, nestedNode]

end

end Exemplar
