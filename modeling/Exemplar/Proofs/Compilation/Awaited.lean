import Exemplar.Proofs.Compilation.Guards
import Exemplar.Proofs.Compilation.Preservation
import Exemplar.Proofs.Template.Awaited

/-!
# Awaited variables of fragments

What the result of a fragment awaits is in its required triple patterns, or denotes the fragment
and is bound by its link. So whatever binds the variable of an array binds what its members await:
the link and the required part of a member are in the same group.
-/

namespace Exemplar

/-- Whether what a fragment and the members of its arrays await is projected, and is bound by what
is required of the fragment or together with the variable of the members. -/
structure Fragment.Binds (g : Graph) (f : Fragment) (v : Variable) : Prop where
  awaited (y : Variable) (hy : y ∈ f.template.awaited) : y ∈ f.projections ∧
    (f.term = some (.variable y) ∨ ∃ t ∈ f.operation.triples, y ∈ t.vars)
  optional (h : f.operation.isOptional) : f.template.awaited = []
  inside (m : Variable × Template) (hm : m ∈ f.template.memberTemplates) : m.1.Inside v
  members (m : Variable × Template) (hm : m ∈ f.template.memberTemplates) (y : Variable)
    (hy : y ∈ m.2.awaited) : y ∈ f.projections ∧
      (y = m.1 ∨ ∃ t, y ∈ t.vars ∧ f.operation.Guards g m.1 t ∧
        (m.1 = v → t ∈ f.operation.triples))

variable {g : Graph}

/-! ### Scalars -/

lemma binds_constant {f : Fragment} {value : Json} (h : f.template = .constant value)
    (v : Variable) : f.Binds g v := by
  constructor <;> simp [h, Template.awaited, Template.memberTemplates]

lemma binds_placeholder {template : Template} {v : Variable} (h : template.awaited = [v])
    (hmembers : template.memberTemplates = []) : (Fragment.placeholder template v).Binds g v := by
  constructor <;> simp [Fragment.placeholder, h, hmembers]

lemma binds_scalar {value : Json} {s : Scope} {f : Fragment}
    (h : compilePrimitive value s = .ok f) : f.Binds g s.v := by
  rcases compilePrimitive_eq_ok h with ⟨-, rfl⟩ | ⟨t, -, -, rfl⟩ | ⟨-, rfl⟩
  · apply binds_placeholder <;> unfold placeholderTemplate <;> split <;> rfl
  · exact binds_constant rfl _
  · exact binds_constant rfl _

lemma binds_type {value : Json} {s : Scope} {f : Fragment}
    (h : compileType value s = .ok f) : f.Binds g s.v := by
  rcases compileType_eq_ok h with ⟨-, rfl⟩ | ⟨name, iri, -, -, -, rfl⟩
  · exact binds_placeholder rfl rfl
  · exact binds_constant rfl _

/-! ### Entries -/

/-- Whether what an entry and the members of its arrays await is bound with the node of the entry,
by what is required of the entry, or together with the variable of the members. -/
structure EntryPart.Binds (g : Graph) (part : EntryPart) (node : PatternTerm) (v : Variable) :
    Prop where
  awaited (y : Variable) (hy : y ∈ part.template.awaited) : y ∈ part.projections ∧
    (node = .variable y ∨
      part.operation.isOptional = false ∧ ∃ t ∈ part.operation.triples, y ∈ t.vars)
  members (m : Variable × Template) (hm : m ∈ part.template.memberTemplates) :
    ∃ key, part.child = some (v.child key) ∧ m.1.Inside (v.child key) ∧
      ∀ y ∈ m.2.awaited, y ∈ part.projections ∧
        (y = m.1 ∨ ∃ t, y ∈ t.vars ∧ part.operation.Guards g m.1 t)

lemma binds_link {s : Scope} {identity : Identity} {key : String} {predicate : Iri} {f : Fragment}
    (hlocal : f.Local (s.v.child key)) (h : f.Binds g (s.v.child key)) :
    (EntryPart.link (identity.term s) key predicate (s.v.child key) f).Binds g (identity.term s)
      s.v := by
  have htriples : ∀ {t}, t ∈ f.operation.triples →
      t ∈ (EntryPart.link (identity.term s) key predicate (s.v.child key) f).operation.triples :=
    fun ht => Operation.mem_triples_link.mpr (.inr ht)
  constructor
  · intro y hy
    obtain ⟨hprojected, hbound⟩ := h.awaited y hy
    refine ⟨hprojected, .inr ⟨?_, ?_⟩⟩
    · rw [Operation.isOptional_link]
      by_contra htrue
      have hnone := h.optional (by simpa using htrue)
      change y ∈ f.template.awaited at hy
      simp [hnone] at hy
    · rcases hbound with hterm | ⟨t, ht, hyt⟩
      · refine ⟨.link (identity.term s) predicate (.variable y), ?_, ?_⟩
        · exact Operation.mem_triples_link.mpr (.inl ⟨_, hterm, rfl⟩)
        · simp [TriplePattern.link, TriplePattern.vars, PatternTerm.vars]
      · exact ⟨t, htriples ht, hyt⟩
  · intro m hm
    refine ⟨key, rfl, h.inside m hm, fun y hy => ?_⟩
    obtain ⟨hprojected, heq | ⟨t, hyt, hguards, hown⟩⟩ := h.members m hm y hy
    · exact ⟨hprojected, .inl heq⟩
    · refine ⟨hprojected, .inr ⟨t, hyt, ?_⟩⟩
      by_cases hne : m.1 = s.v.child key
      · exact .inl (htriples (hown hne))
      · exact guards_entry hlocal (h.inside m hm) hne hguards

lemma binds_entry {s : Scope} {identity : Identity} {entry : String × Json} {part : EntryPart}
    (h : CompiledEntry (fun _ s f => f.Local s.v ∧ f.Binds g s.v) s identity entry part) :
    part.Binds g (identity.term s) s.v := by
  have hconstant : ∀ {part : EntryPart} {value : Json}, part.template = .constant value →
      part.Binds g (identity.term s) s.v := by
    intro part value heq
    constructor <;> simp [heq, Template.awaited, Template.memberTemplates]
  cases h with
  | id =>
    cases identity with
    | placeholder =>
      constructor <;> simp [EntryPart.id, Identity.term, Template.awaited, Template.memberTemplates]
    | free | fixed => exact hconstant rfl
  | type _ h => exact binds_link (local_type h) (binds_type h)
  | keyword => exact hconstant rfl
  | link _ h => exact binds_link h.1 h.2
  | undefined => exact hconstant rfl

lemma binds_node (s : Scope) (declaration : Option Json) {identity : Identity} {entries : Entries}
    {parts : List EntryPart}
    (hparts : List.Forall₂ (CompiledEntry (fun _ s f => f.Local s.v ∧ f.Binds g s.v) s identity)
      entries parts)
    (hnodup : (parts.filterMap (·.child)).Nodup) :
    (nodeFragment declaration (identity.term s) parts).Binds g s.v := by
  have hbinds : ∀ part ∈ parts, part.Binds g (identity.term s) s.v := by
    intro part hpart
    obtain ⟨entry, -, hentry⟩ := exists_mem_left hparts hpart
    exact binds_entry hentry
  have hmember : ∀ m ∈ (nodeFragment declaration (identity.term s) parts).template.memberTemplates,
      ∃ part ∈ parts, m ∈ part.template.memberTemplates := by
    intro m hm
    obtain ⟨e, he, hm⟩ := Template.mem_entriesMemberTemplates.mp hm
    obtain ⟨part, hpart, rfl⟩ := List.mem_map.mp he
    exact ⟨part, hpart, hm⟩
  constructor
  · intro y hy
    obtain ⟨e, he, hy⟩ := Template.mem_entriesAwaited.mp hy
    obtain ⟨part, hpart, rfl⟩ := List.mem_map.mp he
    obtain ⟨hprojected, hbound⟩ := (hbinds part hpart).awaited y hy
    refine ⟨mem_projections_nodeFragment.mpr ⟨part, hpart, hprojected⟩, ?_⟩
    rcases hbound with hnode | ⟨hoptional, t, ht, hyt⟩
    · exact .inl (congrArg some hnode)
    · refine .inr ⟨t, Operation.mem_triples_foldl_join (.inr ⟨part, hpart, hoptional, ht⟩), hyt⟩
  · intro hoptional
    rw [nodeFragment_not_isOptional] at hoptional
    cases hoptional
  · intro m hm
    obtain ⟨part, hpart, hm⟩ := hmember m hm
    obtain ⟨key, -, hinside, -⟩ := (hbinds part hpart).members m hm
    exact hinside.trans (Variable.inside_child _ _)
  · intro m hm y hy
    obtain ⟨part, hpart, hm⟩ := hmember m hm
    obtain ⟨key, hchild, hinside, hbound⟩ := (hbinds part hpart).members m hm
    obtain ⟨hprojected, hbound⟩ := hbound y hy
    refine ⟨mem_projections_nodeFragment.mpr ⟨part, hpart, hprojected⟩, hbound.imp_right ?_⟩
    rintro ⟨t, hyt, hguards⟩
    refine ⟨t, hyt, ?_, fun heq => absurd heq (Variable.ne_of_inside_child hinside)⟩
    exact guards_nodeFragment declaration (hparts.imp fun _ _ h => h.imp fun _ _ _ hf => hf.1)
      hnodup hpart hchild hinside hguards

/-! ### Arrays -/

/-- What a member awaits is its own variable or in the group of the array. -/
lemma binds_array {v : Variable} {f : Fragment} (hlocal : f.Local v) (h : f.Binds g v) :
    (arrayFragment v f).Binds g v := by
  have hprojected : ∀ {y}, y ∈ f.projections → y ∈ (arrayFragment v f).projections :=
    fun hy => mem_addVariables.mpr (.inr hy)
  constructor
  · intro y hy
    cases hy
  · exact fun _ => rfl
  · intro m hm
    rcases List.mem_cons.mp hm with rfl | hm
    · exact .refl _
    · exact h.inside m hm
  · intro m hm y hy
    rcases List.mem_cons.mp hm with rfl | hm
    · obtain ⟨hy, hterm | ⟨t, ht, hyt⟩⟩ := h.awaited y hy
      · exact ⟨hprojected hy, .inl (hlocal.term y hterm)⟩
      · have ht : t ∈ (memberOperation v f).triples := by simpa using ht
        exact ⟨hprojected hy, .inr ⟨t, hyt, .inl ht, fun _ => ht⟩⟩
    · obtain ⟨hy, hbound⟩ := h.members m hm y hy
      refine ⟨hprojected hy, hbound.imp_right ?_⟩
      rintro ⟨t, hyt, hguards, hown⟩
      have hown : m.1 = v → t ∈ (memberOperation v f).triples := by simpa using hown
      refine ⟨t, hyt, ?_, hown⟩
      by_cases hne : m.1 = v
      · exact .inl (hown hne)
      · exact guards_memberOperation hne hguards

/-! ### Lists -/

section

variable {entries : Entries} {key : String} {list : Template}

lemma mem_awaited_listEntries {y : Variable}
    (h : y ∈ Template.entriesAwaited (listEntries entries key list)) : y ∈ list.awaited := by
  obtain ⟨e, he, hy⟩ := Template.mem_entriesAwaited.mp h
  obtain ⟨entry, -, rfl⟩ := List.mem_map.mp he
  by_cases hkey : entry.1 = key
  · simpa [hkey] using hy
  · simp [hkey, Template.awaited] at hy

lemma mem_memberTemplates_listEntries {m : Variable × Template}
    (h : m ∈ Template.entriesMemberTemplates (listEntries entries key list)) :
    m ∈ list.memberTemplates := by
  obtain ⟨e, he, hm⟩ := Template.mem_entriesMemberTemplates.mp h
  obtain ⟨entry, -, rfl⟩ := List.mem_map.mp he
  by_cases hkey : entry.1 = key
  · simpa [hkey] using hm
  · simp [hkey, Template.memberTemplates] at hm

end

/-- A triple pattern in a required group of triple patterns guards every variable. -/
lemma Operation.guards_build_of_mem {o : Operation} {ts : List TriplePattern} {t : TriplePattern}
    (hts : .bgp ts ∈ o.required) (ht : t ∈ ts) (x : Variable) : o.build.Guards g x t := by
  have hall : ∀ {ps : List Pattern}, .bgp ts ∈ ps → ∀ {s s'}, Pattern.MatchesAll g ps s s' →
      t.Holds g s'.get? := by
    intro ps hmem
    induction ps with
    | nil => cases hmem
    | cons p rest ih =>
      rintro s s' ⟨m, hm, hrest⟩
      rcases List.mem_cons.mp hmem with rfl | hmem
      · exact ((matchTriples_spec hm).2 t ht).mono hrest.extendsBy.1
      · exact ih hmem hrest
  intro s s' hmatch _ _
  obtain ⟨m, m', -, hm', hrest⟩ := matches_build.mp hmatch
  exact (hall hts hm').mono hrest.extendsBy.1

/-- What an item requires holds with each of its slots. -/
lemma guards_listFragment_of_mem {entries : Entries} {key : String} {v x : Variable}
    {slot : Operation} {template : Template} {own : List Variable} {f : Fragment}
    {t : TriplePattern} (hoptional : f.operation.isOptional = false)
    (ht : t ∈ f.operation.triples) :
    (listFragment entries key v slot template own f).operation.Guards g x t := by
  have hbuild : (slot.join f.operation).build.Guards g x t := by
    rw [Operation.join_of_not_optional hoptional]
    exact Operation.Guards.build (.inl (List.mem_append_right _ ht))
  exact Operation.guards_join_group rfl hbuild (by simp)

/-- What the item of a list awaits is bound with its slot: it denotes the item and is linked to the
slot, or is required of the item and hence of the slot. -/
lemma binds_listFragment {entries : Entries} {key k : String} {s : Scope} {slot : Operation}
    {template : Template} {own : List Variable} {f : Fragment} (predicate : Iri)
    (hoptional : f.operation.isOptional = false) (h : f.Binds g (itemScope s).v)
    (hawaited : ∀ y ∈ template.awaited, y = s.v ∧ y ∈ own)
    (hmembers : template.memberTemplates = (s.v.child k, f.template) :: f.template.memberTemplates)
    (hguards : (slot.join f.operation).build.Guards g (s.v.child k)
      (.link (s.v.child "slot").term predicate (f.term.getD (itemScope s).v.term)))
    (hother : ∀ x t, x.Inside (itemScope s).v → x ≠ (itemScope s).v → f.operation.Guards g x t →
      (listFragment entries key s.v slot template own f).operation.Guards g x t) :
    (listFragment entries key s.v slot template own f).Binds g s.v := by
  have hprojected : ∀ {y}, y ∈ f.projections →
      y ∈ (listFragment entries key s.v slot template own f).projections :=
    fun hy => mem_addVariables.mpr (.inr hy)
  have hchild : ∀ {key x}, x.Inside (s.v.child key) → x.Inside s.v ∧ x ≠ s.v :=
    fun hx => ⟨hx.trans (Variable.inside_child _ _), Variable.ne_of_inside_child hx⟩
  have hmember : ∀ m ∈ (listFragment entries key s.v slot template own f).template.memberTemplates,
      m = (s.v.child k, f.template) ∨ m ∈ f.template.memberTemplates := by
    intro m hm
    have hm := mem_memberTemplates_listEntries hm
    rwa [hmembers, List.mem_cons] at hm
  constructor
  · intro y hy
    obtain ⟨rfl, hown⟩ := hawaited y (mem_awaited_listEntries hy)
    exact ⟨mem_addVariables.mpr (.inl (mem_addVariables.mpr (.inr hown))), .inl rfl⟩
  · intro hgroup
    unfold listFragment at hgroup
    have hcases := @Operation.join_cases {} (slot.join f.operation).asOptional
    rcases hcases with hjoin | hjoin <;> simp [hjoin, Operation.append] at hgroup
  · intro m hm
    rcases hmember m hm with rfl | hm
    · exact Variable.inside_child _ _
    · exact (hchild (h.inside m hm)).1
  · intro m hm y hy
    rcases hmember m hm with rfl | hm
    · obtain ⟨hy, hbound⟩ := h.awaited y hy
      refine ⟨hprojected hy, .inr ?_⟩
      have hne : s.v.child k ≠ s.v := (hchild (.refl _)).2
      rcases hbound with hterm | ⟨t, ht, hyt⟩
      · refine ⟨_, ?_, Operation.guards_join_group rfl hguards (by simp), ?_⟩
        · simp [hterm, TriplePattern.link, TriplePattern.vars, PatternTerm.vars]
        · exact fun heq => absurd heq hne
      · refine ⟨t, hyt, guards_listFragment_of_mem hoptional ht, ?_⟩
        exact fun heq => absurd heq hne
    · have hinside := h.inside m hm
      obtain ⟨hy, hbound⟩ := h.members m hm y hy
      refine ⟨hprojected hy, hbound.imp_right ?_⟩
      rintro ⟨t, hyt, ht, hown⟩
      refine ⟨t, hyt, ?_, fun heq => absurd heq (hchild hinside).2⟩
      by_cases hne : m.1 = (itemScope s).v
      · exact guards_listFragment_of_mem hoptional (hown hne)
      · exact hother _ _ hinside hne ht

lemma binds_list {gr : Grammar} {entries : Entries} {key : String} {s : Scope} {f f' : Fragment}
    (hlocal : f.Local (itemScope s).v) (hoptional : f.operation.isOptional = false)
    (h : f.Binds g (itemScope s).v)
    (hlist : ListFragment gr entries key s.v (f.term.getD (itemScope s).v.term) f f') :
    f'.Binds g s.v := by
  cases hlist with
  | linked hl =>
    refine binds_listFragment Iri.rdfFirst hoptional h (by simp [Template.awaited]) rfl ?_
      fun x t hx hne ht => guards_list hlocal hx hne ht (.linked hl)
    rw [Operation.join_of_not_optional hoptional]
    apply Operation.guards_build_of_mem
    · exact List.mem_append_left _ (List.mem_cons_of_mem _ List.mem_cons_self)
    · exact List.mem_cons_self
  | indexed hl =>
    refine binds_listFragment gr.lists.content hoptional h (by simp [Template.awaited]) rfl ?_
      fun x t hx hne ht => guards_list hlocal hx hne ht (.indexed hl)
    rw [Operation.join_of_not_optional hoptional]
    apply Operation.Guards.build
    refine .inl (List.mem_append_left _ ?_)
    exact List.mem_cons_of_mem _ (List.mem_cons_of_mem _ List.mem_cons_self)

/-! ### Documents -/

/-- What fragments await is bound with them. -/
theorem Grammar.preserves_binds (gr : Grammar) (g : Graph) :
    gr.Preserves fun v f => f.Binds g v where
  scalar := binds_scalar
  node s declaration _ _ _ hparts hnodup := binds_node s declaration hparts hnodup
  array := binds_array
  list := binds_list
  unwrapped h := ⟨h.awaited, h.optional, h.inside, h.members⟩

lemma binds_graph {v : Variable} {f : Fragment} (declaration : Option Json)
    (h : (arrayFragment v f).Binds g v) :
    (graphFragment declaration (arrayFragment v f)).Binds g v := by
  have hprojected : ∀ {y}, y ∈ (arrayFragment v f).projections →
      y ∈ (graphFragment declaration (arrayFragment v f)).projections :=
    fun hy => mem_addVariables.mpr (.inr hy)
  have hmembers : (graphFragment declaration (arrayFragment v f)).template.memberTemplates =
      (arrayFragment v f).template.memberTemplates :=
    List.append_nil _
  constructor
  · intro y hy
    cases hy
  · exact fun _ => rfl
  · rw [hmembers]
    exact h.inside
  · rw [hmembers]
    exact fun m hm y hy => (h.members m hm y hy).imp_left hprojected

/-- What the fragment of a document awaits is bound with it. -/
theorem CompiledDocument.binds {gr : Grammar} (hgr : gr.Usual) {context : Context}
    {document : Json} {f : Fragment} (h : CompiledDocument gr document (.root context) f)
    (hwarnings : f.warnings = [])
    (hitems : ∀ template, ItemOfDocument gr context document template →
      ∀ items, template ≠ .array items) : f.Binds g .root :=
  (gr.preserves_binds g).document hgr binds_graph h hwarnings hitems

end Exemplar
