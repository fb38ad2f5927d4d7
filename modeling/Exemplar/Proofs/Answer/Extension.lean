import Exemplar.Proofs.Algebra.Locality
import Exemplar.Proofs.Answer.Meaning
import Exemplar.Proofs.Compilation.Levels
import Mathlib.Data.List.Nodup

/-!
# One more array

An array entry may be added to the node object at the root of a document without any effect on
the solutions of the other entries. Its group only binds variables of its own, as the node is known
before.
-/

namespace Exemplar

/-! ### Operations -/

namespace Operation

variable {g : Graph} {a b : Operation} {q : Pattern}

/-- A group between others that binds no variable of those that follow it, and of the rest only
variables that are bound before, does not change what is found for other variables. -/
lemma restrict_reached_insert {V : Set Variable} {vs : List Variable} (hvs : ∀ x ∈ vs, x ∈ V)
    (hb : ∀ p ∈ b.optionals, p.isSupported) (hbV : ∀ p ∈ b.optionals, ∀ x ∈ p.mentioned, x ∈ V)
    (hq : ∀ x ∈ q.mentioned, x ∈ V → ∃ t ∈ (a.append b).triples, x ∈ t.vars) :
    Assignment.restrict vs '' reached ((a.append b).build.Matches g) [] =
      Assignment.restrict vs '' reached
        (({ a with optionals := a.optionals ++ [q] }.append b).build.Matches g) [] := by
  have hinsert : ∀ m m', m ∈ matchTriples g (a.append b).triples [] →
      Pattern.MatchesAll g (a.append b).required m m' → _ :=
    fun m m' hm hm' => @Pattern.matchesOptionals_insert g V a.optionals b.optionals q m' hb hbV
      fun n n' hn hn' x hx => by
        by_cases hxq : x ∈ q.mentioned
        · -- what the group has in common with the others is bound by a triple pattern
          obtain ⟨t, ht, hxt⟩ := hq x hxq hx
          have hbound := ((matchTriples_spec hm).2 t ht).binds hxt
          obtain ⟨u, hu⟩ := Option.ne_none_iff_exists'.mp hbound
          have hn := (hm'.extendsBy.1.trans hn.extendsBy.1) x u hu
          rw [hn, hn'.extendsBy.1 x u hn]
        · exact (hn'.extendsBy.get?_eq hxq).symm
  have hrestrict : ∀ {s t : Solution}, V.EqOn s.get? t.get? →
      Assignment.restrict vs s.get? = Assignment.restrict vs t.get? :=
    fun heq => Assignment.restrict_eq_iff.mpr fun x hx => heq (hvs x hx)
  ext μ
  constructor
  · rintro ⟨_, ⟨s', hs', rfl⟩, rfl⟩
    obtain ⟨m, m', hm, hm', hs'⟩ := matches_build.mp hs'
    obtain ⟨t', ht', heq⟩ := (hinsert m m' hm hm').1 s' hs'
    refine ⟨_, ⟨t', matches_build.mpr ⟨m, m', hm, hm', ?_⟩, rfl⟩, (hrestrict heq).symm⟩
    simpa [append] using ht'
  · rintro ⟨_, ⟨t', ht', rfl⟩, rfl⟩
    obtain ⟨m, m', hm, hm', ht'⟩ := matches_build.mp ht'
    obtain ⟨s', hs', heq⟩ := (hinsert m m' hm hm').2 t' (by simpa [append] using ht')
    exact ⟨_, ⟨s', matches_build.mpr ⟨m, m', hm, hm', hs'⟩, rfl⟩, hrestrict heq⟩

end Operation

/-! ### Node objects -/

section

variable {s : Scope} {identity : Identity} {declaration : Option Json} {node : PatternTerm}
  {before after parts : List EntryPart} {part : EntryPart} {x : Variable}

lemma toPattern_nodeFragment : (nodeFragment declaration node parts).operation.toPattern =
    (nodeFragment declaration node parts).operation.build := by
  have hoptional : (nodeFragment declaration node parts).operation.isOptional = false :=
    Operation.isOptional_foldl_join parts {}
  simp [Operation.toPattern, hoptional]

lemma mem_projections_toQuery : x ∈ (nodeFragment declaration node parts).toQuery.projections ↔
    (∃ p ∈ parts, x ∈ p.projections) ∧ ∃ p ∈ parts, x ∈ p.operation.mentioned := by
  have hmentioned : x ∈ (nodeFragment declaration node parts).operation.mentioned ↔
      ∃ p ∈ parts, x ∈ p.operation.mentioned := by
    rw [nodeFragment, Operation.mem_mentioned_foldl_join]
    simp
  simp [Fragment.toQuery, Operation.mem_mentioned_toPattern, hmentioned,
    mem_projections_nodeFragment]

lemma projections_insert
    (h : x ∈ (nodeFragment declaration node (before ++ after)).toQuery.projections) :
    x ∈ (nodeFragment declaration node (before ++ part :: after)).toQuery.projections := by
  have hmem : ∀ {p}, p ∈ before ++ after → p ∈ before ++ part :: after :=
    fun hp => List.perm_middle.mem_iff.mpr (List.mem_cons_of_mem part hp)
  obtain ⟨⟨p, hp, hx⟩, p', hp', hx'⟩ := mem_projections_toQuery.mp h
  exact mem_projections_toQuery.mpr ⟨⟨p, hmem hp, hx⟩, p', hmem hp', hx'⟩

/-- Without a warning, the other entries have none, and do not share the variable of an entry. -/
lemma apart_of_entryWarnings {v : Variable} (hchild : part.child = some v)
    (h : entryWarnings [] (before ++ part :: after) = []) :
    ∀ p ∈ before ++ after, p.warnings = [] ∧ p.child ≠ some v := by
  obtain ⟨hnone, hnodup, -⟩ := entryWarnings_eq_nil h
  rw [List.filterMap_append, List.filterMap_cons_some hchild, List.nodup_middle,
    ← List.filterMap_append, List.nodup_cons] at hnodup
  refine fun p hp => ⟨hnone p (List.perm_middle.mem_iff.mpr (List.mem_cons_of_mem part hp)), ?_⟩
  exact fun heq => hnodup.1 (List.mem_filterMap.mpr ⟨p, hp, heq⟩)

lemma operation_append : (nodeFragment declaration node (before ++ after)).operation =
    (nodeFragment declaration node before).operation.append
      (nodeFragment declaration node after).operation := by
  show (before ++ after).foldl _ _ = _
  rw [List.foldl_append, Operation.foldl_join_eq_append]
  rfl

lemma operation_insert (hoptional : part.operation.isOptional)
    (hempty : ¬ part.operation.isEmpty) :
    (nodeFragment declaration node (before ++ part :: after)).operation =
      { (nodeFragment declaration node before).operation with
        optionals := (nodeFragment declaration node before).operation.optionals ++
          [part.operation.build] }.append (nodeFragment declaration node after).operation := by
  show (before ++ part :: after).foldl _ _ = _
  rw [List.foldl_append, List.foldl_cons, Operation.join_of_optional hoptional hempty,
    Operation.foldl_join_eq_append]
  rfl

/-- Without a warning, the variables of an entry are not used by the others. -/
lemma not_inside_of_mentioned {entries : Entries} {key : String}
    (hparts : List.Forall₂ (CompiledEntry (fun _ s f => f.Local s.v) s identity) entries parts)
    (hapart : ∀ p ∈ parts, p.child ≠ some (s.v.child key))
    (hx : ∃ p ∈ parts, x ∈ p.operation.mentioned) : ¬ x.Inside (s.v.child key) := by
  intro hinside
  obtain ⟨p, hp, hx⟩ := hx
  obtain ⟨entry, -, hentry⟩ := exists_mem_left hparts hp
  rcases mentioned_entry hentry hx with hnode | ⟨key', hchild, hx'⟩
  · rw [Identity.mem_vars hnode] at hinside
    exact Variable.not_inside_child _ _ hinside
  · exact hapart p hp (hchild.trans (congrArg some (Variable.child_eq_of_inside hx' hinside)))

/-- An optional entry whose variables are not used by the others does not change what is found for
these, if the node is known or in a triple pattern. -/
lemma restrict_reached_nodeFragment {entries : Entries} {key : String}
    (hothers : List.Forall₂ (CompiledEntry (fun _ s f => f.Local s.v) s identity) entries
      (before ++ after))
    (hsupported : ∀ p ∈ after, p.operation.All (·.isSupported))
    (hapart : ∀ p ∈ before ++ after, p.child ≠ some (s.v.child key))
    (hoptional : part.operation.isOptional) (hempty : ¬ part.operation.isEmpty)
    (hpart : ∀ x ∈ part.operation.mentioned,
      x ∈ (identity.term s).vars ∨ x.Inside (s.v.child key))
    (hnode : ∀ x ∈ (identity.term s).vars,
      ∃ t ∈ (nodeFragment declaration (identity.term s) (before ++ after)).operation.triples,
        x ∈ t.vars) (g : Graph) {vs : List Variable}
    (hvs : ∀ x ∈ vs, ∃ p ∈ before ++ after, x ∈ p.operation.mentioned) :
    Assignment.restrict vs '' reached ((nodeFragment declaration (identity.term s)
        (before ++ after)).operation.toPattern.Matches g) [] =
      Assignment.restrict vs '' reached ((nodeFragment declaration (identity.term s)
        (before ++ part :: after)).operation.toPattern.Matches g) [] := by
  have hafter : (nodeFragment declaration (identity.term s) after).operation.All (·.isSupported) :=
    .foldl_join Pattern.composes_isSupported (Operation.all_of_triples [] false) hsupported
  rw [toPattern_nodeFragment, toPattern_nodeFragment, operation_append,
    operation_insert hoptional hempty]
  refine Operation.restrict_reached_insert (V := {x | ¬ x.Inside (s.v.child key)})
    (fun x hx => not_inside_of_mentioned hothers hapart (hvs x hx)) hafter.optionals ?_ ?_
  · intro q hq x hx
    have hx := Operation.mem_mentioned.mpr (.inr (.inr ⟨q, hq, hx⟩))
    obtain ⟨p, hp, hx⟩ := (Operation.mem_mentioned_foldl_join.mp hx).resolve_left (by simp)
    exact not_inside_of_mentioned hothers hapart ⟨p, List.mem_append_right _ hp, hx⟩
  · intro x hx hxV
    rw [← operation_append]
    exact hnode x ((hpart x (Operation.mem_mentioned_build.mp hx)).resolve_right hxV)

end

/-! ### Documents -/

section

variable {g : Grammar} {inner : Compiler} {s : Scope} {identity : Identity}
  {before after : Entries} {key : String} {value : Json}

lemma compileNodeObject_iff {entries : Entries} {f : Fragment} :
    compileNodeObject g inner entries s = .ok f ↔ ∃ context identity parts,
      g.extendContext s.context (declaration? entries) = .ok context ∧
      identityOf ⟨s.v, context, none⟩ entries = .ok identity ∧
      (ownEntries entries).mapM (compileEntry g inner ⟨s.v, context, none⟩ identity) = .ok parts ∧
      f = nodeFragment (declaration? entries) (identity.term ⟨s.v, context, none⟩) parts := by
  simp only [compileNodeObject, bind_eq_ok]
  constructor
  · rintro ⟨context, hcontext, identity, hidentity, parts, hparts, heq⟩
    cases heq
    exact ⟨context, identity, parts, hcontext, hidentity, hparts, rfl⟩
  · rintro ⟨context, identity, parts, hcontext, hidentity, hparts, rfl⟩
    exact ⟨context, hcontext, identity, hidentity, parts, hparts, rfl⟩

lemma declaration?_insert (hkey : key ≠ "@context") :
    declaration? (before ++ (key, value) :: after) = declaration? (before ++ after) := by
  have hne : ("@context" == key) = false := by simpa using hkey.symm
  simp [declaration?, Entries.get?, List.lookup_append, List.lookup_cons, hne]

lemma ownEntries_append : ownEntries (before ++ after) = ownEntries before ++ ownEntries after :=
  List.filter_append before after

lemma ownEntries_insert (hkey : key ≠ "@context") :
    ownEntries (before ++ (key, value) :: after) =
      ownEntries before ++ (key, value) :: ownEntries after := by
  rw [ownEntries_append]
  congr 1
  exact List.filter_cons_of_pos (by simpa using hkey)

/-- An entry for a predicate does not change how the node is identified. -/
lemma identityOf_insert {predicate : Iri}
    (hkey : s.context.expand? .vocab key = some (.iri predicate))
    (hne : key ≠ "@context") :
    identityOf s (before ++ (key, value) :: after) = identityOf s (before ++ after) := by
  have hid : s.context.isKeyword .id key = false := by simp [Context.isKeyword, hkey]
  unfold identityOf
  rw [ownEntries_insert hne, ownEntries_append, List.filter_append, List.filter_append,
    List.filter_cons_of_neg (by simp [hid])]

/-- The part of an array entry is an optional group with variables of the entry, apart from the
node. -/
lemma CompiledEntry.optional_of_array {predicate : Iri} {t : Json} {part : EntryPart} (hg : g.Usual)
    (hkey : s.context.expand? .vocab key = some (.iri predicate))
    (hcontainer : (entryScope s key).container? ≠ some .list)
    (h : CompiledEntry (Compiled g) s identity (key, .array [t]) part)
    (hwarnings : part.warnings = []) :
    part.child = some (s.v.child key) ∧ part.operation.isOptional ∧ ¬ part.operation.isEmpty ∧
      ∀ x ∈ part.operation.mentioned, x ∈ (identity.term s).vars ∨ x.Inside (s.v.child key) := by
  cases h with
  | id hid => simp [hkey] at hid
  | type htype => simp [hkey] at htype
  | keyword hkeyword => simp [hkey] at hkeyword
  | undefined hnone => simp [hkey] at hnone
  | @link _ _ predicate' f _ h =>
    have hkind : Kind.of (entryScope s key) (.array [t]) = .nodeArray [t] := by
      simp [Kind.of, hcontainer]
    obtain ⟨inner, hinner, harray⟩ := h.yields_of_eq hkind
    obtain ⟨template, f', -, -, rfl⟩ := compileNodeArray_eq_ok hg hinner harray
    obtain ⟨object, hobject⟩ := h.exists_term hg (by simpa [EntryPart.link] using hwarnings)
    refine ⟨rfl, Operation.isOptional_link, fun hempty => ?_, fun x hx => ?_⟩
    · have hlink : TriplePattern.link (identity.term s) predicate' object ∈
          (EntryPart.link (identity.term s) key predicate' (s.v.child key) _).operation.triples :=
        Operation.mem_triples_link.mpr (.inl ⟨object, hobject, rfl⟩)
      simp only [Operation.isEmpty, Bool.and_eq_true, List.isEmpty_iff] at hempty
      rw [hempty.1.1] at hlink
      cases hlink
    · exact mentioned_link (h.isLocal hg) hx

/-- With one more entry for a predicate, the other entries at the root of a document are compiled as
before. -/
lemma compile_insert (hg : g.Usual) {context inside : Context} {predicate : Iri} {q q' : Query}
    (hq : g.compile context (.object (before ++ after)) = .ok q)
    (hq' : g.compile context (.object (before ++ (key, value) :: after)) = .ok q')
    (hnode : ¬ isGraphContainer (before ++ after))
    (hinside : g.extendContext context (declaration? (before ++ after)) = .ok inside)
    (hkey : inside.expand? .vocab key = some (.iri predicate)) :
    ∃ identity partsBefore part partsAfter,
      identityOf (.root inside) (before ++ after) = .ok identity ∧
      List.Forall₂ (CompiledEntry (Compiled g) (.root inside) identity)
        (ownEntries (before ++ after)) (partsBefore ++ partsAfter) ∧
      CompiledEntry (Compiled g) (.root inside) identity (key, value) part ∧
      q = (nodeFragment (declaration? (before ++ after)) (identity.term (.root inside))
        (partsBefore ++ partsAfter)).toQuery ∧
      q' = (nodeFragment (declaration? (before ++ after)) (identity.term (.root inside))
        (partsBefore ++ part :: partsAfter)).toQuery := by
  have hcontext : key ≠ "@context" := by
    rintro rfl
    cases hkey
  have hnode' : ¬ isGraphContainer (before ++ (key, value) :: after) := by
    have hgraph : key ≠ "@graph" := by
      rintro rfl
      cases hkey
    simp [isGraphContainer, hcontext, hgraph]
  -- both documents are compiled at the levels of the deeper one
  generalize hn : max (Json.depthEntries (before ++ after))
    (Json.depthEntries (before ++ (key, value) :: after)) = n
  have hcompiled : ∀ value s f, compileLevels g n .resource value s = .ok f →
      Compiled g value s f := fun _ _ _ => compiled_of_levels hg
  have htype : ∀ value s f, compileLevels g n .typeEntry value s = .ok f →
      compileType value s = .ok f := fun _ _ _ => compileType_of_levels
  rw [hg.compile_eq_nodeObject hnode (hn ▸ Nat.le_max_left _ _)] at hq
  rw [hg.compile_eq_nodeObject hnode' (hn ▸ Nat.le_max_right _ _)] at hq'
  obtain ⟨f, hf, rfl⟩ := map_eq_ok.mp hq
  obtain ⟨f', hf', rfl⟩ := map_eq_ok.mp hq'
  obtain ⟨context₁, identity, parts, hcontext₁, hidentity, hparts, rfl⟩ :=
    compileNodeObject_iff.mp hf
  obtain ⟨context₂, identity', parts', hcontext₂, hidentity', hparts', rfl⟩ :=
    compileNodeObject_iff.mp hf'
  rw [declaration?_insert hcontext] at hcontext₂ ⊢
  cases hcontext₁.symm.trans hinside
  cases hcontext₂.symm.trans hinside
  rw [identityOf_insert hkey hcontext] at hidentity'
  cases hidentity.symm.trans hidentity'
  rw [ownEntries_insert hcontext, mapM_insert_eq_ok] at hparts'
  obtain ⟨partsBefore, part, partsAfter, hbefore, hpart, hafter, rfl⟩ := hparts'
  have hothers := mapM_append_eq_ok.mpr ⟨_, _, hbefore, hafter, rfl⟩
  rw [← ownEntries_append] at hothers
  cases hparts.symm.trans hothers
  exact ⟨identity, partsBefore, part, partsAfter, hidentity,
    (mapM_eq_ok.mp hothers).imp fun _ _ => compileEntry_eq_ok hg hcompiled htype,
    compileEntry_eq_ok hg hcompiled htype hpart, rfl, rfl⟩

/-- An array entry for a predicate may be added anywhere to the node object at the root of a
document without any effect on the solutions of the document: it drops none, filters none and adds
none, whatever its element is and whether anything matches it or not. Only the node must be known or
have a required entry, and the entries must not share variables. -/
theorem array_entry_conservative (hg : g.Usual) {context inside : Context} {predicate : Iri}
    {t : Json} {q q' : Query} (hq : g.compile context (.object (before ++ after)) = .ok q)
    (hq' : g.compile context (.object (before ++ (key, .array [t]) :: after)) = .ok q')
    (hnode : ¬ isGraphContainer (before ++ after)) (hwarnings : q'.warnings = [])
    (hinside : g.extendContext context (declaration? (before ++ after)) = .ok inside)
    (hkey : inside.expand? .vocab key = some (.iri predicate))
    (hcontainer : (entryScope (.root inside) key).container? ≠ some .list)
    (hrequires : RequiresNode g (.root context) (before ++ after)) (graph : Graph) :
    ∃ rows rows', (Source.graph graph).evaluate q.algebra = .ok (rows, none) ∧
      (Source.graph graph).evaluate q'.algebra = .ok (rows', none) ∧
      assignments rows = Assignment.restrict q.projections '' assignments rows' := by
  obtain ⟨identity, partsBefore, part, partsAfter, hidentity, hothers, hpart, rfl, rfl⟩ :=
    compile_insert hg hq hq' hnode hinside hkey
  have hsupported : ∀ {document : Json} {q : Query}, g.compile context document = .ok q →
      q.algebra.isSupported := by
    intro document q h
    obtain ⟨f, hf, rfl⟩ := hg.compile_eq_ok h
    exact hf.isSupported hg
  obtain ⟨rows, hrows, heq⟩ :=
    Fragment.assignments_of_delivers (Fragment.delivers_graph (hsupported hq) graph)
  obtain ⟨rows', hrows', heq'⟩ :=
    Fragment.assignments_of_delivers (Fragment.delivers_graph (hsupported hq') graph)
  refine ⟨rows, rows', hrows, hrows', ?_⟩
  have hnone : part.warnings = [] := (entryWarnings_eq_nil hwarnings).1 part (by simp)
  obtain ⟨hchild, hoptional, hempty, hmentioned⟩ :=
    hpart.optional_of_array hg hkey hcontainer hnone
  have hapart := apart_of_entryWarnings hchild hwarnings
  obtain ⟨context', hcontext', hrequires⟩ := hrequires
  cases hcontext'.symm.trans hinside
  have hparts : ∀ p ∈ partsAfter, p.operation.All (·.isSupported) := by
    intro p hp
    obtain ⟨entry, -, hentry⟩ := exists_mem_left hothers (List.mem_append_right _ hp)
    exact all_entry (hentry.imp fun _ _ _ h => h.isSupported hg)
  rw [heq, heq', Set.image_image]
  refine Eq.trans ?_ (Set.image_congr fun μ _ =>
    (Assignment.restrict_restrict fun x => projections_insert).symm)
  refine restrict_reached_nodeFragment (hothers.imp fun _ _ h => h.imp fun _ _ _ h => h.isLocal hg)
    hparts (fun p hp => (hapart p hp).2) hoptional hempty hmentioned (fun x hx => ?_) graph
    fun x hx => (mem_projections_toQuery.mp hx).2
  exact exists_triple_of_requires hg hidentity hothers (fun p hp => (hapart p hp).1) hrequires hx

end

section

/-- Asks for a value of nodes. -/
def ownValue : Entries := [("ex:p", .string "?")]

/-- Asks for the nodes that a node is linked to, with their values. -/
def valuesOfLinked : Entries := [("ex:r", .array [.object [("ex:s", .string "?")]])]

/-- Asks for all values of a node. -/
def allValues : Json := .object [("ex:t", .array [.string "?"])]

/-- Two nodes with a value, of which one is linked to two others. -/
def unevenNodes : Graph :=
  ⟨[⟨.iri ⟨"ex:a"⟩, ⟨"ex:p"⟩, .literal (.simple "x")⟩, ⟨.iri ⟨"ex:a"⟩, ⟨"ex:q"⟩, .iri ⟨"ex:c"⟩⟩,
    ⟨.iri ⟨"ex:a"⟩, ⟨"ex:q"⟩, .iri ⟨"ex:d"⟩⟩, ⟨.iri ⟨"ex:c"⟩, ⟨"ex:t"⟩, .literal (.simple "z")⟩,
    ⟨.iri ⟨"ex:b"⟩, ⟨"ex:p"⟩, .literal (.simple "y")⟩], by decide⟩

/-- An array with groups in it is added between two entries. -/
theorem array_entry_conservative_between :
    ∃ q q' rows rows',
      Grammar.standard.compile .empty (.object (ownValue ++ valuesOfLinked)) = .ok q ∧
      Grammar.standard.compile .empty
        (.object (ownValue ++ ("ex:q", .array [allValues]) :: valuesOfLinked)) = .ok q' ∧
      q.projections.length = 3 ∧ q'.projections.length = 5 ∧
      (Source.graph unevenNodes).evaluate q.algebra = .ok (rows, none) ∧
      (Source.graph unevenNodes).evaluate q'.algebra = .ok (rows', none) ∧
      assignments rows = Assignment.restrict q.projections '' assignments rows' := by
  obtain ⟨q, hq, hlength⟩ : ∃ q, Grammar.standard.compile .empty
      (.object (ownValue ++ valuesOfLinked)) = .ok q ∧ q.projections.length = 3 := ⟨_, rfl, rfl⟩
  obtain ⟨q', hq', hlength', hwarnings⟩ : ∃ q', Grammar.standard.compile .empty
      (.object (ownValue ++ ("ex:q", .array [allValues]) :: valuesOfLinked)) = .ok q' ∧
      q'.projections.length = 5 ∧ q'.warnings = [] := ⟨_, rfl, rfl, rfl⟩
  have hinside : Grammar.standard.extendContext .empty
      (declaration? (ownValue ++ valuesOfLinked)) = .ok .empty := rfl
  have hkey : Context.empty.expand? .vocab "ex:q" = some (.iri ⟨"ex:q"⟩) := rfl
  obtain ⟨rows, rows', hrows, hrows', heq⟩ := array_entry_conservative Grammar.standard_usual hq hq'
    (by decide) hwarnings hinside hkey (by decide)
    ⟨.empty, rfl, .inr ⟨"ex:p", .string "?", List.mem_cons_self,
      .inr ⟨⟨⟨"ex:p"⟩, rfl⟩, fun items hkind => nomatch hkind⟩⟩⟩ unevenNodes
  exact ⟨q, q', rows, rows', hq, hq', hlength, hlength', hrows, hrows', heq⟩

end

end Exemplar
