import Exemplar.Proofs.Answer.Rows
import Exemplar.Proofs.Compilation.Guards
import Exemplar.Proofs.Compilation.Plain
import Exemplar.Proofs.Template.Parts

/-!
# Links in answers

Every member of an array of an answer is linked to the node that the array belongs to, as long as
this node is determined by the members of the arrays around it. A node that several solutions bind
differently is reported by the first of them, while its arrays collect the members of all.
-/

namespace Exemplar

/-! ### Parts of a document and its answer -/

/-- The parts of a document next to the data that they are answered with: each has a variable and
the variables of the members of the arrays and of the slots of the lists around it. -/
inductive Part (document data : Json) : Json → Variable → List Variable → Json → Prop
  | document (h : ∀ entries, document = .object entries → ¬ isGraphContainer entries) :
    Part document data document .root [] data
  | graph {entries as : Entries} {value d : Json} (hdocument : document = .object entries)
    (hcontainer : isGraphContainer entries) (hvalue : entries.get? "@graph" = some value)
    (hdata : data = .object as) (hd : as.lookup "@graph" = some d) :
    Part document data (.array (graphItems value)) .root [] d
  | entry {entries as : Entries} {v : Variable} {enclosing : List Variable} {key : String}
    {value d : Json} (h : Part document data (.object entries) v enclosing (.object as))
    (hnode : IsNodeObject entries) (hvalue : (key, value) ∈ entries)
    (hkey : ¬ Keyword.hasForm key) (hd : as.lookup key = some d) :
    Part document data value (v.child key) enclosing d
  | member {template item : Json} {items : List Json} {v : Variable} {enclosing : List Variable}
    (h : Part document data (.array [template]) v enclosing (.array items))
    (hitem : item ∈ items) : Part document data template v (v :: enclosing) item
  | item {entries as : Entries} {v : Variable} {enclosing : List Variable}
    {value template item : Json} {items : List Json}
    (h : Part document data (.object entries) v enclosing (.object as))
    (hvalue : entries.lookup "@list" = some value) (htemplate : itemTemplate value = .ok template)
    (hitems : as.lookup "@list" = some (.array items)) (hitem : item ∈ items) :
    Part document data template (v.child "item") (v.child "slot" :: enclosing) item

/-- Whether the identifier of an object is a placeholder that is answered with an IRI. -/
def Reports (entries as : Entries) (iri : Iri) : Prop :=
  ("@id", .string placeholderText) ∈ entries ∧ as.lookup "@id" = some (.string iri.text)

/-! ### Tracing parts -/

section

-- the answer to a query over a graph: its pattern and the rows that are folded
variable (g : Graph) (whole : Pattern) (all : List Solution)

/-- How a part of an answer comes about: from some of the rows, which have the same members of the
arrays around, by a fragment whose guards are guards in the whole pattern. -/
structure Traced (value : Json) (v : Variable) (enclosing : List Variable) (rows : List Solution)
    (data : Json) (f : Fragment) : Prop where
  compiled : Compiled .standard value (plainScope v) f
  contextless : value.Contextless
  warnings : f.warnings = []
  guards (x : Variable) (t : TriplePattern) (hx : x.Inside v) (hne : x ≠ v)
    (h : f.operation.Guards g x t) : whole.Guards g x t
  sub (r : Solution) (h : r ∈ rows) : r ∈ all
  enclosed (x : Variable) (hx : x ∈ enclosing) (r s : Solution) (hr : r ∈ rows) (hs : s ∈ rows) :
    ∃ t, r.get? x = some t ∧ s.get? x = some t
  gives : f.template.Gives rows data

variable {g whole all} {v : Variable} {enclosing : List Variable} {rows : List Solution}
  {data : Json} {f : Fragment}

/-- The rows of one member have the same members of the arrays around it, and of its own array. -/
lemma Traced.enclosed_group {value : Json} (h : Traced g whole all value v enclosing rows data f)
    {w : Variable} {k : Term} (x : Variable) (hx : x ∈ w :: enclosing) (r s : Solution)
    (hr : r ∈ group (·.get? w) k rows) (hs : s ∈ group (·.get? w) k rows) :
    ∃ t, r.get? x = some t ∧ s.get? x = some t := by
  obtain ⟨hr, hrk⟩ := mem_group.mp hr
  obtain ⟨hs, hsk⟩ := mem_group.mp hs
  rcases List.mem_cons.mp hx with rfl | hx
  · exact ⟨k, hrk, hsk⟩
  · exact h.enclosed x hx r s hr hs

/-- The identity and the entries of a node object. -/
lemma Traced.node {entries : Entries}
    (h : Traced g whole all (.object entries) v enclosing rows data f)
    (hnode : IsNodeObject entries) :
    ∃ identity parts, identityOf (plainScope v) entries = .ok identity ∧
      List.Forall₂ (CompiledEntry (Compiled .standard) (plainScope v) identity) entries parts ∧
      (∀ part ∈ parts, part.warnings = []) ∧ (parts.filterMap (·.child)).Nodup ∧
      f = nodeFragment none (identity.term (plainScope v)) parts :=
  h.compiled.node_plain Grammar.standard_usual hnode h.contextless h.warnings

/-- An entry of a node object, and the link that guards its variable. -/
lemma Traced.entry {entries as : Entries}
    (h : Traced g whole all (.object entries) v enclosing rows (.object as) f)
    (hnode : IsNodeObject entries) {key : String} {value d : Json} (hvalue : (key, value) ∈ entries)
    (hkey : ¬ Keyword.hasForm key) (hd : as.lookup key = some d) :
    ∃ node f', f.term = some node ∧ Traced g whole all value (v.child key) enclosing rows d f' ∧
      ∀ t, f'.term = some t →
        whole.Guards g (v.child key) ⟨node, .constant (.iri ⟨key⟩), t⟩ := by
  obtain ⟨identity, parts, -, hparts, hwarnings, hnodup, rfl⟩ := h.node hnode
  have hlink : ∀ {value' : Json} {part : EntryPart}, part ∈ parts →
      CompiledEntry (Compiled .standard) (plainScope v) identity (key, value') part →
      ∃ f', Compiled .standard value' (plainScope (v.child key)) f' ∧ f'.warnings = [] ∧
        part = .link (identity.term (plainScope v)) key ⟨key⟩ (v.child key) f' := by
    intro value' part hpart hentry
    rcases plain_entry_cases hentry (hwarnings part hpart) with
      ⟨rfl, -⟩ | ⟨rfl, -⟩ | ⟨-, f', hf', hnone, heq⟩
    · exact absurd (by decide) hkey
    · exact absurd (by decide) hkey
    · exact ⟨f', hf', hnone, heq⟩
  obtain ⟨part, hpart, hentry⟩ := exists_mem_right hparts hvalue
  obtain ⟨f', hf', hnone, heq⟩ := hlink hpart hentry
  have hchild : part.child = some (v.child key) := by rw [heq]; rfl
  have hguards : ∀ {x t}, x.Inside (v.child key) → part.operation.Guards g x t →
      whole.Guards g x t := fun hx ht =>
    h.guards _ _ (hx.trans (Variable.inside_child v key)) (Variable.ne_of_inside_child hx)
      (guards_nodeFragment _ (hparts.imp fun _ _ h => h.imp fun _ _ _ hf =>
        hf.isLocal Grammar.standard_usual) hnodup hpart hchild hx ht)
  have hoperation : ∀ t, f'.term = some t → part.operation =
      f'.operation.withLink ⟨identity.term (plainScope v), .constant (.iri ⟨key⟩), t⟩ := by
    intro t ht
    rw [heq]
    simp only [EntryPart.link, ht]
  refine ⟨_, f', rfl, ⟨hf', ?_, hnone, fun x t hx hne ht => hguards hx ?_, h.sub, h.enclosed, ?_⟩,
    fun t ht => hguards (.refl _) ?_⟩
  · exact (Json.contextless_object.mp h.contextless _ hvalue).2
  · rw [heq]
    exact guards_entry (s := plainScope v) (hf'.isLocal Grammar.standard_usual) hx hne ht
  · obtain ⟨template, htemplate, hgives⟩ := h.gives.lookup hd
    obtain ⟨part', hpart', heq'⟩ := List.mem_map.mp htemplate
    cases heq'
    obtain ⟨⟨key', value'⟩, -, hentry'⟩ := exists_mem_left hparts hpart'
    obtain rfl : part'.key = key' := hentry'.key_eq
    obtain ⟨f'', -, -, heq''⟩ := hlink hpart' hentry'
    have hchild' : part'.child = some (v.child part'.key) := by rw [heq'']; rfl
    obtain rfl := eq_of_nodup_filterMap hnodup hpart hpart' hchild hchild'
    rwa [heq] at hgives
  · rw [hoperation t ht]
    exact Operation.guards_link _

/-- A member of an array, for the rows of one term. -/
lemma Traced.member {template item : Json} {items : List Json}
    (h : Traced g whole all (.array [template]) v enclosing rows (.array items) f)
    (hitem : item ∈ items) :
    ∃ k f', f = arrayFragment v f' ∧
      Traced g whole all template v (v :: enclosing) (group (·.get? v) k rows) item f' := by
  obtain ⟨template', f', heq, hf', rfl⟩ := h.compiled.array_plain Grammar.standard_usual
  cases heq
  obtain ⟨k, -, hgives⟩ := h.gives.set_item hitem
  refine ⟨k, f', rfl, hf', Json.contextless_array.mp h.contextless _ List.mem_cons_self,
    by simpa [arrayFragment] using h.warnings, fun x t hx hne ht => h.guards x t hx hne ?_,
    fun r hr => h.sub r (mem_group.mp hr).1, h.enclosed_group, hgives⟩
  · change (memberOperation v f').Guards g x t
    exact guards_memberOperation hne ht

/-- What a list object of a document without declarations is compiled to. -/
lemma Traced.list {entries : Entries} {value template : Json}
    (h : Traced g whole all (.object entries) v enclosing rows data f)
    (hvalue : entries.lookup "@list" = some value) (htemplate : itemTemplate value = .ok template) :
    ∃ f', Compiled .standard template (plainScope (v.child "item")) f' ∧
      f = listFragment entries "@list" v
        (chainOperation v (v.child "slot") (v.child "rest")
          (f'.term.getD (v.child "item").term))
        (.linked v (v.child "slot") (v.child "rest") f'.template)
        [v, v.child "slot", v.child "rest"] f' := by
  have hmem := mem_of_lookup_eq_some hvalue
  have hyields := h.compiled.yields
  rcases kind_of_list v ⟨_, hmem, rfl⟩ with hkind | hkind <;> rw [hkind] at hyields
  · obtain ⟨remark, rfl⟩ := hyields
    have hwarnings := h.warnings
    simp [Fragment.echo] at hwarnings
  · obtain ⟨inner, hinner, hcompile⟩ := hyields
    obtain ⟨key, value', template', f', hentry, htemplate', hf', hlist⟩ :=
      compileList_eq_ok Grammar.standard_usual hinner hcompile
    have hlookup := keywordEntry?_empty entries .list
    rw [show Keyword.list.text = "@list" from rfl, hvalue] at hlookup
    cases hentry.symm.trans hlookup
    rw [htemplate] at htemplate'
    cases htemplate'
    cases hlist with
    | linked => exact ⟨f', hf', rfl⟩
    | indexed hlist => cases hlist

/-- An item of a list, for the rows of one slot. -/
lemma Traced.item {entries as : Entries} {value template item : Json} {items : List Json}
    (h : Traced g whole all (.object entries) v enclosing rows (.object as) f)
    (hvalue : entries.lookup "@list" = some value) (htemplate : itemTemplate value = .ok template)
    (hitems : as.lookup "@list" = some (.array items)) (hitem : item ∈ items) :
    ∃ k f', Traced g whole all template (v.child "item") (v.child "slot" :: enclosing)
      (group (·.get? (v.child "slot")) k rows) item f' := by
  obtain ⟨f', hf', rfl⟩ := h.list hvalue htemplate
  obtain ⟨t, ht, hgives⟩ := h.gives.lookup hitems
  obtain rfl : t = .linked v (v.child "slot") (v.child "rest") f'.template := by
    obtain ⟨e, -, heq⟩ := List.mem_map.mp ht
    obtain ⟨hkey, rfl⟩ := Prod.mk.inj heq
    rw [if_pos hkey]
  obtain ⟨k, -, hgives⟩ := hgives.linked_item hitem
  have hlocal := hf'.isLocal Grammar.standard_usual
  refine ⟨k, f', hf', ?_, by simpa [listFragment] using h.warnings, fun x t hx hne ht => ?_,
    fun r hr => h.sub r (mem_group.mp hr).1, h.enclosed_group, hgives⟩
  · have hcontextless := Json.contextless_of_lookup h.contextless hvalue
    unfold itemTemplate at htemplate
    split at htemplate
    · cases htemplate
      exact Json.contextless_array.mp hcontextless _ List.mem_cons_self
    · cases htemplate
    · cases htemplate
      exact hcontextless
  · refine h.guards x t (hx.trans (Variable.inside_child v "item"))
      (Variable.ne_of_inside_child hx) ?_
    have hlist : ListFragment .standard entries "@list" v (f'.term.getD (v.child "item").term)
      f' _ := .linked rfl
    exact guards_list (s := plainScope v) hlocal hx hne ht hlist

end

/-! ### Whole answers -/

/-- A whole document as a part, with the fragment of its query. -/
lemma traced_document {g : Graph} {document data : Json} {f : Fragment} {rows : List Solution}
    (h : CompiledDocument .standard document (.root .empty) f) (hcontext : document.Contextless)
    (hwarnings : f.warnings = []) (hgives : f.template.Gives rows data) {value d : Json}
    {v : Variable} {enclosing : List Variable} (hpart : Part document data value v enclosing d) :
    ∃ rows' f', Traced g f.operation.toPattern rows value v enclosing rows' d f' := by
  have hroot : ∀ {value d : Json} {f' : Fragment}, Compiled .standard value (plainScope .root) f' →
      value.Contextless → f'.warnings = [] → f'.operation = f.operation →
      f'.template.Gives rows d →
      Traced g f.operation.toPattern rows value .root [] rows d f' :=
    fun hf' hvalue hnone heq hd => ⟨hf', hvalue, hnone, fun x t _ _ ht => (heq ▸ ht).toPattern,
      fun _ hr => hr, fun _ hx => absurd hx List.not_mem_nil, hd⟩
  induction hpart with
  | document hcontainer =>
    have hcompiled := h.compiled_plain Grammar.standard_usual hcontext hwarnings hcontainer
    exact ⟨rows, f, hroot hcompiled hcontext hwarnings rfl hgives⟩
  | @graph entries as value d hdocument hcontainer hvalue hdata hd =>
    subst hdocument
    subst hdata
    cases h with
    | node hnot => exact absurd hcontainer hnot
    | scalar => simp [Fragment.echo] at hwarnings
    | @graph _ _ _ context f' _ hvalue' hextend inner hinner h =>
      cases hvalue.symm.trans hvalue'
      rw [declaration?_of_contextless hcontext] at hextend hgives
      obtain rfl := Grammar.standard.extendContext_none hextend
      obtain ⟨t, ht, hgives⟩ := hgives.lookup hd
      obtain rfl : t = f'.template := by simpa using ht
      refine ⟨rows, f', hroot (.array (kind_of_array _ _) inner hinner h) ?_ ?_ rfl hgives⟩
      · have hitems := Json.contextless_of_lookup hcontext hvalue
        unfold graphItems
        split
        · exact hitems
        · exact Json.contextless_array.mpr fun item hitem => by
            rwa [List.mem_singleton.mp hitem]
      · simpa [graphFragment] using hwarnings
  | entry _ hnode hvalue hkey hd ih =>
    obtain ⟨rows', f', htraced⟩ := ih
    obtain ⟨-, f'', -, hentry, -⟩ := htraced.entry hnode hvalue hkey hd
    exact ⟨rows', f'', hentry⟩
  | member _ hitem ih =>
    obtain ⟨rows', f', htraced⟩ := ih
    obtain ⟨k, f'', -, hmember⟩ := htraced.member hitem
    exact ⟨_, f'', hmember⟩
  | item _ hvalue htemplate hitems hitem ih =>
    obtain ⟨rows', f', htraced⟩ := ih
    obtain ⟨k, f'', hitem⟩ := htraced.item hvalue htemplate hitems hitem
    exact ⟨_, f'', hitem⟩

/-! ### Members and their nodes -/

/-- An entry whose value is an array is linked by its key. -/
lemma Traced.not_hasForm {g : Graph} {whole : Pattern} {all rows : List Solution} {v : Variable}
    {enclosing : List Variable} {entries : Entries} {data : Json} {f : Fragment}
    (h : Traced g whole all (.object entries) v enclosing rows data f)
    (hnode : IsNodeObject entries) {key : String} {items : List Json}
    (hvalue : (key, .array items) ∈ entries) : ¬ Keyword.hasForm key := by
  obtain ⟨identity, parts, hidentity, hparts, hwarnings, -, rfl⟩ := h.node hnode
  obtain ⟨part, hpart, hentry⟩ := exists_mem_right hparts hvalue
  rcases plain_entry_cases hentry (hwarnings part hpart) with ⟨rfl, -⟩ | ⟨-, f, hf, -⟩ | ⟨hform, -⟩
  · obtain ⟨id, heq, -⟩ := identityOf_of_mem h.contextless hidentity hvalue
    cases heq
  · rcases compileType_eq_ok hf with ⟨heq, -⟩ | ⟨name, iri, heq, -⟩ <;> cases heq
  · exact hform

/-- The identifier that is reported for a node is its first term. -/
lemma Traced.reports {g : Graph} {whole : Pattern} {all rows : List Solution} {v : Variable}
    {enclosing : List Variable} {entries as : Entries} {f : Fragment} {iri : Iri}
    (h : Traced g whole all (.object entries) v enclosing rows (.object as) f)
    (hnode : IsNodeObject entries) (hreports : Reports entries as iri) :
    f.term = some (.variable v) ∧ firstTerm? v rows = some (.iri iri) := by
  obtain ⟨identity, parts, hidentity, hparts, hwarnings, -, rfl⟩ := h.node hnode
  obtain ⟨id, heq, -, hplaceholder⟩ := identityOf_of_mem h.contextless hidentity hreports.1
  cases heq
  obtain rfl := hplaceholder rfl
  refine ⟨rfl, ?_⟩
  obtain ⟨t, ht, hgives⟩ := h.gives.lookup hreports.2
  obtain ⟨part, hpart, heq⟩ := List.mem_map.mp ht
  obtain ⟨hkey, rfl⟩ := Prod.mk.inj heq
  obtain ⟨⟨key, value⟩, -, hentry⟩ := exists_mem_left hparts hpart
  obtain rfl : "@id" = key := hkey.symm.trans hentry.key_eq
  rcases plain_entry_cases hentry (hwarnings part hpart) with
    ⟨-, rfl⟩ | ⟨heq, -⟩ | ⟨hform, -⟩
  · obtain ⟨iri', hfirst, hstring⟩ := hgives.name
    have htext : iri.text = iri'.text := by
      simpa [plainScope, Context.compact_empty] using hstring
    obtain rfl : iri = iri' := by
      cases iri
      cases iri'
      cases htext
      rfl
    exact hfirst
  · exact absurd heq (by decide)
  · exact absurd (by decide) hform

/-- Without a declaration and without a warning, every member of an array is linked to the node
that the array belongs to, if the solutions with the same members of the arrays around agree on
the node. They do in particular if the node is itself a member of an array. The order in which the
solutions are delivered does not matter. -/
theorem member_linked {document data : Json} {q : Query} {g : Graph} {source : Source}
    {r : Response} (hcontext : document.Contextless)
    (hq : Grammar.standard.compile .empty document = .ok q) (hwarnings : q.warnings = [])
    (hsource : source.Delivers g q.algebra) (hr : q.answer source = .ok r)
    (hdata : r.data = some data)
    {node as : Entries} {v : Variable} {enclosing : List Variable} {i : Iri}
    (hpart : Part document data (.object node) v enclosing (.object as))
    (hnode : IsNodeObject node) (hi : Reports node as i)
    (hdetermined : ∀ found, q.algebra.evaluate g [] = .ok found → ∀ s ∈ found, ∀ s' ∈ found,
      (∀ x ∈ enclosing, ∃ t, s.get? x = some t ∧ s'.get? x = some t) →
        ∀ t t', s.get? v = some t → s'.get? v = some t' → t = t')
    {key : String} {template member : Entries} {items : List Json} {j : Iri}
    (harray : (key, .array [.object template]) ∈ node) (htemplate : IsNodeObject template)
    (hitems : as.lookup key = some (.array items)) (hmember : .object member ∈ items)
    (hj : Reports template member j) : ⟨.iri i, ⟨key⟩, .iri j⟩ ∈ g.triples := by
  obtain ⟨f, hf, rfl⟩ := Grammar.standard_usual.compile_eq_ok hq
  obtain ⟨found, all, hfound, hrows, -, filling, hfilling, hresult⟩ :=
    Fragment.rows_of_answer hsource hr
  rw [hdata] at hresult
  obtain ⟨rows, f₁, h₁⟩ := traced_document (g := g) hf hcontext hwarnings
    ⟨filling, hfilling, completeData_eq_some hresult⟩ hpart
  obtain ⟨hterm, hfirst⟩ := h₁.reports hnode hi
  have hkey := h₁.not_hasForm hnode harray
  obtain ⟨node', f₂, hnode', h₂, hguards⟩ := h₁.entry hnode harray hkey hitems
  obtain rfl : node' = .variable v := Option.some.inj (hnode'.symm.trans hterm)
  obtain ⟨k, f₃, rfl, h₃⟩ := h₂.member hmember
  obtain ⟨hterm', hfirst'⟩ := h₃.reports htemplate hj
  obtain ⟨row, hrow, hrowv⟩ := List.exists_of_findSome?_eq_some hfirst
  obtain ⟨row', hrow', hroww⟩ := List.exists_of_findSome?_eq_some hfirst'
  have hsub := (mem_group.mp hrow').1
  obtain ⟨s, hs, heq⟩ := hrows row (h₁.sub row hrow)
  obtain ⟨s', hs', heq'⟩ := hrows row' (h₁.sub row' hsub)
  rw [heq] at hrowv
  rw [heq'] at hroww
  obtain ⟨m₀, -, hrowOf₀⟩ := (Fragment.solutions_of_query hfound).1 s hs
  obtain ⟨m, hm, hrowOf⟩ := (Fragment.solutions_of_query hfound).1 s' hs'
  have hused : v ∈ f.toQuery.projections := by
    by_contra hnot
    rw [hrowOf₀, if_neg hnot] at hrowv
    cases hrowv
  have hmw : m.get? (v.child key) = some (.iri j) := by
    rw [hrowOf] at hroww
    split at hroww
    · exact hroww
    · cases hroww
  -- the match that binds the member binds the node as well, and to the same term
  obtain ⟨t, ht, hsubject, hpredicate, hobject⟩ :=
    hguards _ hterm' [] m hm rfl (by simp [hmw])
  have hmv : s'.get? v = some (.node t.subject) := by
    rw [hrowOf, if_pos hused]
    exact hsubject
  have hnode : Term.iri i = .node t.subject := by
    refine hdetermined found hfound s hs s' hs' (fun x hx => ?_) _ _ hrowv hmv
    rw [← heq, ← heq']
    exact h₁.enclosed x hx row row' hrow hsub
  have hobject' : Term.iri j = t.object := Option.some.inj (hmw.symm.trans hobject)
  obtain ⟨subject, predicate, object⟩ := t
  cases hnode
  cases hobject'
  cases hpredicate
  exact ht

section

/-- Two nodes, each with a link of its own. -/
def twoLinks : Graph :=
  ⟨[⟨.iri ⟨"ex:a"⟩, ⟨"ex:p"⟩, .iri ⟨"ex:b"⟩⟩, ⟨.iri ⟨"ex:c"⟩, ⟨"ex:p"⟩, .iri ⟨"ex:d"⟩⟩], by decide⟩

/-- A node that is reported with the nodes that it is linked to. -/
def linkedNode : Entries :=
  [("@id", .string "?"), ("ex:p", .array [.object [("@id", .string "?")]])]

/-- In an array of nodes, the members of each node are linked to it. -/
theorem member_linked_two_nodes :
    let answered (i j : String) : Json :=
      .object [("@id", .string i), ("ex:p", .array [.object [("@id", .string j)]])]
    ∃ q r, Grammar.standard.compile .empty (.array [.object linkedNode]) = .ok q ∧
      (Source.graph twoLinks).Delivers twoLinks q.algebra ∧ q.answer (.graph twoLinks) = .ok r ∧
      r.data = some (.array [answered "ex:a" "ex:b", answered "ex:c" "ex:d"]) ∧
      ⟨.iri ⟨"ex:c"⟩, ⟨"ex:p"⟩, .iri ⟨"ex:d"⟩⟩ ∈ twoLinks.triples := by
  intro answered
  obtain ⟨q, found, hq, hwarnings, hfound, hsorted, hd⟩ : ∃ q found,
      Grammar.standard.compile .empty (.array [.object linkedNode]) = .ok q ∧
      q.warnings = [] ∧ q.algebra.evaluate twoLinks [] = .ok found ∧
      (Table.ofSolutions q.algebra found).IsSorted ∧
      q.template.answer (Table.ofSolutions q.algebra found).solutions =
        .ok (.array [answered "ex:a" "ex:b", answered "ex:c" "ex:d"]) :=
    ⟨_, _, rfl, rfl, rfl, by decide, rfl⟩
  have hsource := Source.delivers_graph hfound
  have hr := Query.answer_of_isSorted hfound hsorted hd
  refine ⟨q, _, hq, hsource, hr, rfl, ?_⟩
  refine member_linked (i := ⟨"ex:c"⟩) (j := ⟨"ex:d"⟩) ?_ hq hwarnings hsource hr rfl
    (.member (.document fun _ h => by cases h) (List.mem_cons_of_mem _ List.mem_cons_self))
    (by decide) ⟨by simp [linkedNode, placeholderText], rfl⟩
    (fun found _ s _ s' _ h t t' ht ht' => ?_) (by simp [linkedNode]; rfl) (by decide) rfl
    List.mem_cons_self ⟨by simp [placeholderText], rfl⟩
  · simp [Json.Contextless, Json.ItemsContextless, Json.EntriesContextless, linkedNode]
  · obtain ⟨u, hs, hs'⟩ := h _ List.mem_cons_self
    rw [hs] at ht
    rw [hs'] at ht'
    cases ht
    cases ht'
    rfl

/-- A single node that two solutions bind differently is answered with the members of both. -/
theorem members_of_two_nodes_mixed :
    ∃ r, Grammar.standard.answer .empty (.graph twoLinks) (.object linkedNode) = .ok r ∧
      r.warnings = [] ∧
      r.data = some (.object [("@id", .string "ex:a"),
        ("ex:p", .array [.object [("@id", .string "ex:b")], .object [("@id", .string "ex:d")]])]) ∧
      ⟨.iri ⟨"ex:a"⟩, ⟨"ex:p"⟩, .iri ⟨"ex:d"⟩⟩ ∉ twoLinks.triples := by
  obtain ⟨q, found, hq, hwarnings, hfound, hsorted, hd⟩ : ∃ q found,
      Grammar.standard.compile .empty (.object linkedNode) = .ok q ∧
      q.warnings = [] ∧ q.algebra.evaluate twoLinks [] = .ok found ∧
      (Table.ofSolutions q.algebra found).IsSorted ∧
      q.template.answer (Table.ofSolutions q.algebra found).solutions =
        .ok (.object [("@id", .string "ex:a"), ("ex:p",
          .array [.object [("@id", .string "ex:b")], .object [("@id", .string "ex:d")]])]) :=
    ⟨_, _, rfl, rfl, rfl, by decide, rfl⟩
  have hr := Query.answer_of_isSorted hfound hsorted hd
  exact ⟨_, bind_eq_ok.mpr ⟨q, mapError_eq_ok.mpr hq, hr⟩, hwarnings, rfl, by decide⟩

end

end Exemplar
