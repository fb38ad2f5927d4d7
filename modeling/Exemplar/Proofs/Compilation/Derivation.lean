import Exemplar.Compilation.Query
import Exemplar.Proofs.Outcome

/-!
# Derivations

How the fragment of a value comes about, without the levels and the table of the grammar. A value
is compiled by one production, whose inner compiler only yields fragments that are derived as well,
so what all productions preserve holds for every fragment.
-/

namespace Exemplar

/-- The grammars whose rules are the given ones, with lists of either kind. -/
structure Grammar.Usual (g : Grammar) : Prop where
  document : g.document = .document
  resource : g.resource = .resource
  primitive : g.primitive = .primitive
  typeEntry : g.typeEntry = .typeEntry
  nodeObject : g.nodeObject = .nodeObject
  listObject : g.listObject = .linkedList ∨ g.listObject = .indexedList
  graphContainer : g.graphContainer = .graphContainer
  graphObject : g.graphObject = .graphObject
  valueObject : g.valueObject = .valueObject
  setObject : g.setObject = .setObject
  nodeArray : g.nodeArray = .nodeArray
  listArray : g.listArray = .listArray

lemma Grammar.standard_usual : Grammar.standard.Usual := by
  constructor <;> simp [Grammar.standard]

lemma Grammar.withIndexedLists_usual (lists : ListVocabulary) :
    Grammar.Usual { Grammar.withIndexedLists with lists } := by
  constructor <;> simp [Grammar.withIndexedLists]

/-- Compiles a list object by the rule of the grammar. -/
def compileList (g : Grammar) (inner : Compiler) (entries : Entries) (s : Scope) :
    Except CompileError Fragment :=
  compilePlainObject g inner g.listObject entries s

/-- The fragments of values, each by the production of its kind. -/
inductive Compiled (g : Grammar) : Json → Scope → Fragment → Prop
  | null {value : Json} {s : Scope} (hkind : Kind.of s value = .null) :
    Compiled g value s (.echo .null .nullValue)
  | scalar {value : Json} {s : Scope} {f : Fragment}
    (hkind : Kind.of s value = .placeholder ∨ Kind.of s value = .primitive)
    (h : compilePrimitive value s = .ok f) : Compiled g value s f
  | node {value : Json} {s : Scope} {f : Fragment} {entries : Entries}
    (hkind : Kind.of s value = .nodeObject entries) (inner : Compiler)
    (hinner : ∀ value s f, inner .resource value s = .ok f → Compiled g value s f)
    (htype : ∀ value s f, inner .typeEntry value s = .ok f → compileType value s = .ok f)
    (h : compileNodeObject g inner entries s = .ok f) : Compiled g value s f
  | array {value : Json} {s : Scope} {f : Fragment} {items : List Json}
    (hkind : Kind.of s value = .nodeArray items) (inner : Compiler)
    (hinner : ∀ value s f, inner .resource value s = .ok f → Compiled g value s f)
    (h : compileNodeArray g inner items s = .ok f) : Compiled g value s f
  | list {value : Json} {s : Scope} {f : Fragment} {entries : Entries}
    (hkind : Kind.of s value = .listObject entries) (inner : Compiler)
    (hinner : ∀ value s f, inner .resource value s = .ok f → Compiled g value s f)
    (h : compileList g inner entries s = .ok f) : Compiled g value s f
  | listArray {value : Json} {s : Scope} {f : Fragment} {items : List Json}
    (hkind : Kind.of s value = .listArray items) (inner : Compiler)
    (hinner : ∀ value s f, inner .resource value s = .ok f → Compiled g value s f)
    (h : compileList g inner (wrapList items) s = .ok f) : Compiled g value s (unwrapList f)
  | unsupported {value : Json} {s : Scope} {entries : Entries} {remark : Remark}
    (hkind : Kind.of s value = .graphObject entries ∨ Kind.of s value = .valueObject entries ∨
      Kind.of s value = .setObject entries) : Compiled g value s (.echo (.object entries) remark)

/-- By what production a value of a kind has a fragment. -/
def Kind.Yields (g : Grammar) (value : Json) (s : Scope) (f : Fragment) : Kind → Prop
  | .null => f = .echo .null .nullValue
  | .placeholder => compilePrimitive value s = .ok f
  | .primitive => compilePrimitive value s = .ok f
  | .nodeObject entries => ∃ inner : Compiler,
    (∀ value s f, inner .resource value s = .ok f → Compiled g value s f) ∧
    (∀ value s f, inner .typeEntry value s = .ok f → compileType value s = .ok f) ∧
    compileNodeObject g inner entries s = .ok f
  | .nodeArray items => ∃ inner : Compiler,
    (∀ value s f, inner .resource value s = .ok f → Compiled g value s f) ∧
    compileNodeArray g inner items s = .ok f
  | .listObject entries => ∃ inner : Compiler,
    (∀ value s f, inner .resource value s = .ok f → Compiled g value s f) ∧
    compileList g inner entries s = .ok f
  | .listArray items => ∃ (inner : Compiler) (f' : Fragment),
    (∀ value s f, inner .resource value s = .ok f → Compiled g value s f) ∧
    compileList g inner (wrapList items) s = .ok f' ∧ f = unwrapList f'
  | .graphObject entries => ∃ remark, f = .echo (.object entries) remark
  | .valueObject entries => ∃ remark, f = .echo (.object entries) remark
  | .setObject entries => ∃ remark, f = .echo (.object entries) remark

/-- The kind of a value determines its production. -/
lemma Compiled.yields {g : Grammar} {value : Json} {s : Scope} {f : Fragment}
    (h : Compiled g value s f) : (Kind.of s value).Yields g value s f := by
  cases h with
  | null hkind =>
    rw [hkind]
    rfl
  | scalar hkind h => rcases hkind with hkind | hkind <;> rwa [hkind]
  | node hkind inner hinner htype h =>
    rw [hkind]
    exact ⟨inner, hinner, htype, h⟩
  | array hkind inner hinner h =>
    rw [hkind]
    exact ⟨inner, hinner, h⟩
  | list hkind inner hinner h =>
    rw [hkind]
    exact ⟨inner, hinner, h⟩
  | listArray hkind inner hinner h =>
    rw [hkind]
    exact ⟨inner, _, hinner, h, rfl⟩
  | unsupported hkind => rcases hkind with hkind | hkind | hkind <;> rw [hkind] <;> exact ⟨_, rfl⟩

lemma Compiled.yields_of_eq {g : Grammar} {value : Json} {s : Scope} {f : Fragment} {kind : Kind}
    (h : Compiled g value s f) (hkind : Kind.of s value = kind) : kind.Yields g value s f :=
  hkind ▸ h.yields

section

variable {g : Grammar} (hg : g.Usual)

lemma compileType_of_levels {n : Nat} {value : Json} {s : Scope} {f : Fragment}
    (h : compileLevels g n .typeEntry value s = .ok f) : compileType value s = .ok f := by
  cases n with
  | zero => cases h
  | succ n => exact h

include hg

lemma compileObject_nodeObject (inner : Compiler) (entries : Entries) (s : Scope) :
    compileObject g inner g.nodeObject entries s = compileNodeObject g inner entries s := by
  rw [hg.nodeObject]
  rfl

lemma compileObject_listObject (inner : Compiler) (entries : Entries) (s : Scope) :
    compileObject g inner g.listObject entries s = compileList g inner entries s := by
  unfold compileList
  rcases hg.listObject with h | h <;> rw [h] <;> rfl

/-- The fragments of all levels are derived. -/
theorem compiled_of_levels {n : Nat} {value : Json} {s : Scope} {f : Fragment}
    (h : compileLevels g n .resource value s = .ok f) : Compiled g value s f := by
  induction n generalizing value s f with
  | zero => cases h
  | succ n ih =>
    have hinner : ∀ value s f, compileLevels g n .resource value s = .ok f →
        Compiled g value s f := fun _ _ _ => ih
    have htype : ∀ value s f, compileLevels g n .typeEntry value s = .ok f →
        compileType value s = .ok f := fun _ _ _ => compileType_of_levels
    change compileResource g (compileLevels g n) value s = .ok f at h
    unfold compileResource at h
    split at h
    · next hkind =>
      cases h
      exact .null hkind
    · next hkind =>
      rw [compileScalar, hg.primitive] at h
      exact .scalar (.inl hkind) h
    · next hkind =>
      rw [compileScalar, hg.primitive] at h
      exact .scalar (.inr hkind) h
    · next hkind =>
      rw [compileObject_nodeObject hg] at h
      exact .node hkind _ hinner htype h
    · next hkind =>
      rw [hg.nodeArray] at h
      exact .array hkind _ hinner h
    · next hkind =>
      rw [hg.listArray] at h
      obtain ⟨f', hf', rfl⟩ := map_eq_ok.mp h
      exact .listArray hkind _ hinner hf'
    · next hkind =>
      rw [compileObject_listObject hg] at h
      exact .list hkind _ hinner h
    · next hkind =>
      rw [hg.graphObject] at h
      cases h
      exact .unsupported (.inl hkind)
    · next hkind =>
      rw [hg.valueObject] at h
      cases h
      exact .unsupported (.inr (.inl hkind))
    · next hkind =>
      rw [hg.setObject] at h
      cases h
      exact .unsupported (.inr (.inr hkind))

end

/-! ### Scalars -/

lemma isPlaceholder_iff {value : Json} : isPlaceholder value ↔ value = .string placeholderText := by
  cases value <;> simp [isPlaceholder]

/-- A scalar is a placeholder, a constant that has to match, or only repeated. -/
lemma compilePrimitive_eq_ok {value : Json} {s : Scope} {f : Fragment}
    (h : compilePrimitive value s = .ok f) :
    (value = .string placeholderText ∧ f = .placeholder (placeholderTemplate s) s.v) ∨
    (∃ t, value ≠ .string placeholderText ∧ constantTerm s value = .ok (some t) ∧
      f = .fixed value t) ∨
    (constantTerm s value = .ok none ∧ f = .echo value .notScalar) := by
  unfold compilePrimitive at h
  split at h
  · next hplaceholder =>
    cases h
    exact .inl ⟨isPlaceholder_iff.mp hplaceholder, rfl⟩
  · next hplaceholder =>
    obtain ⟨term?, hterm, h⟩ := bind_eq_ok.mp h
    cases term? with
    | none =>
      cases h
      exact .inr (.inr ⟨hterm, rfl⟩)
    | some t =>
      cases h
      exact .inr (.inl ⟨t, fun heq => hplaceholder (isPlaceholder_iff.mpr heq), hterm, rfl⟩)

/-- A type is a placeholder or a constant name. -/
lemma compileType_eq_ok {value : Json} {s : Scope} {f : Fragment}
    (h : compileType value s = .ok f) :
    (value = .string placeholderText ∧ f = .placeholder (.name s.v s.context .vocab) s.v) ∨
    ∃ name iri, value = .string name ∧ name ≠ placeholderText ∧
      s.expandIri .vocab name = .ok iri ∧ f = .fixed value (.iri iri) := by
  unfold compileType at h
  split at h
  · next name =>
    split at h
    · next hname =>
      cases h
      exact .inl ⟨by rw [hname], rfl⟩
    · next hname =>
      obtain ⟨iri, hiri, heq⟩ := bind_eq_ok.mp h
      cases heq
      exact .inr ⟨name, iri, rfl, hname, hiri, rfl⟩
  · cases h

/-! ### Identifiers -/

/-- An entry that stands for `@id` is the only one. It is a string, which is filled in if it is a
placeholder, and else names the node. -/
lemma identityOf_of_mem_own {s : Scope} {entries : Entries} {identity : Identity} {key : String}
    {value : Json} (h : identityOf s entries = .ok identity)
    (hmem : (key, value) ∈ ownEntries entries)
    (hkey : s.context.expand? .vocab key = some (.keyword .id)) :
    (ownEntries entries).filter (fun entry => s.context.isKeyword .id entry.1) = [(key, value)] ∧
      ∃ id, value = .string id ∧ ((id = placeholderText ∧ identity = .placeholder) ∨
        (id ≠ placeholderText ∧
          ∃ iri, s.expandIri .base id = .ok iri ∧ identity = .fixed iri)) := by
  have hmem : (key, value) ∈
      (ownEntries entries).filter fun entry => s.context.isKeyword .id entry.1 :=
    List.mem_filter.mpr ⟨hmem, beq_iff_eq.mpr hkey⟩
  unfold identityOf at h
  split at h
  · next heq =>
    rw [heq] at hmem
    cases hmem
  · next _ id heq =>
    rw [heq] at hmem ⊢
    cases List.mem_singleton.mp hmem
    refine ⟨rfl, id, rfl, ?_⟩
    split at h
    · next hid =>
      cases h
      exact .inl ⟨hid, rfl⟩
    · next hid =>
      obtain ⟨iri, hiri, heq⟩ := bind_eq_ok.mp h
      cases heq
      exact .inr ⟨hid, iri, hiri, rfl⟩
  · cases h
  · cases h

/-! ### Productions -/

/-- The scope of an entry. -/
def entryScope (s : Scope) (key : String) : Scope :=
  { s.child key with definition := s.context.term? key }

/-- The compiled entries of a node object, by what their keys stand for. The fragment of a linked
value has the property that all fragments of values have. -/
inductive CompiledEntry (R : Json → Scope → Fragment → Prop) (s : Scope) (identity : Identity) :
    String × Json → EntryPart → Prop
  | id {key : String} {value : Json}
    (hkey : s.context.expand? .vocab key = some (.keyword .id)) :
    CompiledEntry R s identity (key, value) (.id s identity key value)
  | type {key : String} {value : Json} {f : Fragment}
    (hkey : s.context.expand? .vocab key = some (.keyword .type))
    (h : compileType value (entryScope s key) = .ok f) :
    CompiledEntry R s identity (key, value)
      (.link (identity.term s) key Iri.rdfType (s.v.child key) f)
  | keyword {key : String} {value : Json} {keyword : Keyword}
    (hkey : s.context.expand? .vocab key = some (.keyword keyword))
    (hid : keyword ≠ .id) (htype : keyword ≠ .type) :
    CompiledEntry R s identity (key, value) (.echo key value (.unsupportedKeyword keyword))
  | link {key : String} {value : Json} {predicate : Iri} {f : Fragment}
    (hkey : s.context.expand? .vocab key = some (.iri predicate))
    (h : R value (entryScope s key) f) :
    CompiledEntry R s identity (key, value)
      (.link (identity.term s) key predicate (s.v.child key) f)
  | undefined {key : String} {value : Json} (hkey : s.context.expand? .vocab key = none) :
    CompiledEntry R s identity (key, value) (.echo key value (.undefinedKey key))

lemma CompiledEntry.imp_value {R R' : Json → Scope → Fragment → Prop} {s : Scope}
    {identity : Identity} {entry : String × Json} {part : EntryPart}
    (hR : ∀ s f, R entry.2 s f → R' entry.2 s f) (h : CompiledEntry R s identity entry part) :
    CompiledEntry R' s identity entry part := by
  cases h with
  | id hkey => exact .id hkey
  | type hkey h => exact .type hkey h
  | keyword hkey hid htype => exact .keyword hkey hid htype
  | link hkey h => exact .link hkey (hR _ _ h)
  | undefined hkey => exact .undefined hkey

lemma CompiledEntry.imp {R R' : Json → Scope → Fragment → Prop}
    (hR : ∀ value s f, R value s f → R' value s f) {s : Scope} {identity : Identity}
    {entry : String × Json} {part : EntryPart} (h : CompiledEntry R s identity entry part) :
    CompiledEntry R' s identity entry part :=
  h.imp_value fun _ _ => hR _ _ _

section

variable {g : Grammar} (hg : g.Usual) {R : Json → Scope → Fragment → Prop} {inner : Compiler}
  (hinner : ∀ value s f, inner .resource value s = .ok f → R value s f)

include hg hinner

lemma compileEntry_eq_ok (htype : ∀ value s f, inner .typeEntry value s = .ok f →
      compileType value s = .ok f) {s : Scope} {identity : Identity} {entry : String × Json}
    {part : EntryPart} (h : compileEntry g inner s identity entry = .ok part) :
    CompiledEntry R s identity entry part := by
  obtain ⟨key, value⟩ := entry
  simp only [compileEntry] at h
  split at h
  · next hkey =>
    cases h
    exact .id hkey
  · next hkey =>
    obtain ⟨f, hf, heq⟩ := bind_eq_ok.mp h
    cases heq
    rw [hg.typeEntry] at hf
    exact .type hkey (htype _ _ _ hf)
  · next keyword hid htype hkey =>
    cases h
    exact .keyword hkey hid htype
  · next predicate hkey =>
    obtain ⟨f, hf, heq⟩ := bind_eq_ok.mp h
    cases heq
    rw [hg.resource] at hf
    exact .link hkey (hinner _ _ _ hf)
  · next hkey =>
    cases h
    exact .undefined hkey

/-- A node object in its own scope, with its identity and its entries. -/
lemma compileNodeObject_eq_ok (htype : ∀ value s f, inner .typeEntry value s = .ok f →
      compileType value s = .ok f) {entries : Entries} {s : Scope} {f : Fragment}
    (h : compileNodeObject g inner entries s = .ok f) :
    ∃ context identity parts,
      g.extendContext s.context (declaration? entries) = .ok context ∧
      identityOf ⟨s.v, context, none⟩ entries = .ok identity ∧
      List.Forall₂ (CompiledEntry R ⟨s.v, context, none⟩ identity) (ownEntries entries) parts ∧
      f = nodeFragment (declaration? entries) (identity.term ⟨s.v, context, none⟩) parts := by
  obtain ⟨context, hcontext, h⟩ := bind_eq_ok.mp h
  obtain ⟨identity, hidentity, h⟩ := bind_eq_ok.mp h
  obtain ⟨parts, hparts, h⟩ := bind_eq_ok.mp h
  cases h
  refine ⟨context, identity, parts, hcontext, hidentity, ?_, rfl⟩
  exact (mapM_eq_ok.mp hparts).imp fun _ _ => compileEntry_eq_ok hg hinner htype

lemma compileNodeArray_eq_ok {items : List Json} {s : Scope} {f : Fragment}
    (h : compileNodeArray g inner items s = .ok f) :
    ∃ template f', items = [template] ∧ R template s f' ∧ f = arrayFragment s.v f' := by
  unfold compileNodeArray at h
  split at h
  · next template =>
    obtain ⟨f', hf', heq⟩ := bind_eq_ok.mp h
    cases heq
    rw [hg.resource] at hf'
    exact ⟨template, f', rfl, hinner _ _ _ hf', rfl⟩
  · cases h

end

/-- What a list object is compiled to, from its item: a chain of slots or slots with positions. -/
inductive ListFragment (g : Grammar) (entries : Entries) (listKey : String) (v : Variable)
    (item : PatternTerm) (f : Fragment) : Fragment → Prop
  | linked (hlist : g.listObject = .linkedList) : ListFragment g entries listKey v item f
      (listFragment entries listKey v
        (chainOperation v (v.child "slot") (v.child "rest") item)
        (.linked v (v.child "slot") (v.child "rest") f.template)
        [v, v.child "slot", v.child "rest"] f)
  | indexed (hlist : g.listObject = .indexedList) : ListFragment g entries listKey v item f
      (listFragment entries listKey v
        (slotOperation g.lists v (v.child "slot") (v.child "index") item)
        (.indexed (v.child "index") g.lists.origin f.template) [v.child "index"] f)

lemma compileList_eq_ok {g : Grammar} (hg : g.Usual) {R : Json → Scope → Fragment → Prop}
    {inner : Compiler} (hinner : ∀ value s f, inner .resource value s = .ok f → R value s f)
    {entries : Entries} {s : Scope} {f : Fragment} (h : compileList g inner entries s = .ok f) :
    ∃ key value template f', keywordEntry? s.context entries .list = some (key, value) ∧
      itemTemplate value = .ok template ∧ R template (itemScope s) f' ∧
      ListFragment g entries key s.v (f'.term.getD (itemScope s).v.term) f' f := by
  unfold compileList at h
  rcases hg.listObject with hlist | hlist
  · rw [hlist, compilePlainObject, compileLinkedList] at h
    split at h
    · cases h
    · next key value hentry =>
      obtain ⟨template, htemplate, h⟩ := bind_eq_ok.mp h
      obtain ⟨f', hf', heq⟩ := bind_eq_ok.mp h
      cases heq
      rw [hg.resource] at hf'
      exact ⟨key, value, template, f', hentry, htemplate, hinner _ _ _ hf', .linked hlist⟩
  · rw [hlist, compilePlainObject, compileIndexedList] at h
    split at h
    · cases h
    · next key value hentry =>
      obtain ⟨template, htemplate, h⟩ := bind_eq_ok.mp h
      obtain ⟨f', hf', heq⟩ := bind_eq_ok.mp h
      cases heq
      rw [hg.resource] at hf'
      exact ⟨key, value, template, f', hentry, htemplate, hinner _ _ _ hf', .indexed hlist⟩

/-! ### Documents -/

/-- The fragments of whole documents. -/
inductive CompiledDocument (g : Grammar) : Json → Scope → Fragment → Prop
  | array {items : List Json} {s : Scope} {f : Fragment} (inner : Compiler)
    (hinner : ∀ value s f, inner .resource value s = .ok f → Compiled g value s f)
    (h : compileNodeArray g inner items s = .ok f) : CompiledDocument g (.array items) s f
  | graph {entries : Entries} {value : Json} {s : Scope} {context : Context} {f : Fragment}
    (hcontainer : isGraphContainer entries) (hvalue : entries.get? "@graph" = some value)
    (hcontext : g.extendContext s.context (declaration? entries) = .ok context)
    (inner : Compiler)
    (hinner : ∀ value s f, inner .resource value s = .ok f → Compiled g value s f)
    (h : compileNodeArray g inner (graphItems value) { s with context } = .ok f) :
    CompiledDocument g (.object entries) s (graphFragment (declaration? entries) f)
  | node {entries : Entries} {s : Scope} {f : Fragment}
    (hcontainer : ¬ isGraphContainer entries) (inner : Compiler)
    (hinner : ∀ value s f, inner .resource value s = .ok f → Compiled g value s f)
    (htype : ∀ value s f, inner .typeEntry value s = .ok f → compileType value s = .ok f)
    (h : compileNodeObject g inner entries s = .ok f) : CompiledDocument g (.object entries) s f
  | scalar {value : Json} {s : Scope} (harray : ∀ items, value ≠ .array items)
    (hobject : ∀ entries, value ≠ .object entries) :
    CompiledDocument g value s (.echo value .notDocument)

/-- The fragment of a whole document is derived. -/
theorem Grammar.Usual.compiledDocument {g : Grammar} (hg : g.Usual) {document : Json} {s : Scope}
    {f : Fragment} (hf : compileLevels g document.depth g.document document s = .ok f) :
    CompiledDocument g document s f := by
  rw [hg.document] at hf
  cases hn : document.depth with
  | zero =>
    rw [hn] at hf
    cases hf
  | succ n =>
    rw [hn] at hf
    have hinner : ∀ value s f, compileLevels g n .resource value s = .ok f →
        Compiled g value s f := fun _ _ _ => compiled_of_levels hg
    change compileDocument g (compileLevels g n) document s = .ok f at hf
    unfold compileDocument at hf
    split at hf
    · rw [hg.nodeArray] at hf
      exact .array _ hinner hf
    · next entries =>
      split at hf
      · next hcontainer =>
        rw [hg.graphContainer] at hf
        obtain ⟨context', hcontext, hf⟩ := bind_eq_ok.mp hf
        split at hf
        · cases hf
        · next value hvalue =>
          obtain ⟨f', hf', heq⟩ := bind_eq_ok.mp hf
          cases heq
          rw [hg.nodeArray] at hf'
          exact .graph hcontainer hvalue hcontext _ hinner hf'
      · next hcontainer =>
        rw [compileObject_nodeObject hg] at hf
        exact .node hcontainer _ hinner (fun _ _ _ => compileType_of_levels) hf
    · next harray hobject =>
      cases hf
      exact .scalar harray hobject

/-- Every compiled document is the query of a derived fragment. -/
theorem Grammar.Usual.compile_eq_ok {g : Grammar} (hg : g.Usual) {context : Context}
    {document : Json} {q : Query} (h : g.compile context document = .ok q) :
    ∃ f, CompiledDocument g document (.root context) f ∧ q = f.toQuery := by
  obtain ⟨f, hf, rfl⟩ := map_eq_ok.mp h
  exact ⟨f, hg.compiledDocument hf, rfl⟩

end Exemplar
