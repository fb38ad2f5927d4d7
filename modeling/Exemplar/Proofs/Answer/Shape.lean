import Exemplar.Answer
import Exemplar.Proofs.Compilation.Items
import Exemplar.Proofs.Compilation.Plain
import Exemplar.Proofs.Template.Shape

/-!
# Shapes of answers

An answer has the shape of its document, whatever rows it comes from: a placeholder is filled in by
a scalar, an array has members of the shape of its only element, an object has the keys of the
object that asks for it, and everything else is repeated.
-/

namespace Exemplar

/-! ### Conformance -/

/-- Whether a value stands for a scalar of a document: a placeholder is filled in by any scalar, and
other values are repeated. -/
inductive ScalarConforms : Json → Json → Prop
  | filled {d : Json} (h : d.IsScalar) : ScalarConforms (.string placeholderText) d
  | repeated {value : Json} (h : value ≠ .string placeholderText) : ScalarConforms value value

mutual

/-- Whether a part of an answer has the shape of a value in its scope. -/
inductive Conforms (g : Grammar) : Json → Scope → Json → Prop
  | scalar {value : Json} {s : Scope} {d : Json}
    (hkind : Kind.of s value = .placeholder ∨ Kind.of s value = .primitive)
    (h : ScalarConforms value d) : Conforms g value s d
  | node {value : Json} {s : Scope} {entries ds : Entries} {context : Context}
    (hkind : Kind.of s value = .nodeObject entries)
    (hcontext : g.extendContext s.context (declaration? entries) = .ok context)
    (h : EntriesConform g ⟨s.v, context, none⟩ (ownEntries entries) ds) :
    Conforms g value s (.object (declarationEntries (declaration? entries) ++ ds))
  | array {value template : Json} {s : Scope} {ds : List Json}
    (hkind : Kind.of s value = .nodeArray [template])
    (h : ∀ d ∈ ds, Conforms g template s d) : Conforms g value s (.array ds)
  | list {value list template : Json} {s : Scope} {entries : Entries} {key : String}
    {ds : List Json} (hkind : Kind.of s value = .listObject entries)
    (hentry : keywordEntry? s.context entries .list = some (key, list))
    (htemplate : itemTemplate list = .ok template)
    (h : ∀ d ∈ ds, ItemConforms g template s d) :
    Conforms g value s
      (.object (entries.map fun e => (e.1, if e.1 = key then .array ds else e.2)))
  | listArray {value template : Json} {s : Scope} {ds : List Json}
    (hkind : Kind.of s value = .listArray [template])
    (h : ∀ d ∈ ds, ItemConforms g template s d) : Conforms g value s (.array ds)
  | null {value : Json} {s : Scope} (hkind : Kind.of s value = .null) : Conforms g value s value
  | unsupported {value : Json} {s : Scope} {entries : Entries}
    (hkind : Kind.of s value = .graphObject entries ∨ Kind.of s value = .valueObject entries ∨
      Kind.of s value = .setObject entries) : Conforms g value s value

/-- Whether an item of a list has the shape of the template of the items, in the scope of the list.
Only lists with positions can miss some. -/
inductive ItemConforms (g : Grammar) : Json → Scope → Json → Prop
  | item {template : Json} {s : Scope} {d : Json} (h : Conforms g template (itemScope s) d) :
    ItemConforms g template s d
  | missing {template : Json} {s : Scope} (hlist : g.listObject = .indexedList) :
    ItemConforms g template s (.object [])

/-- Whether the entries of an answer have the shapes of the entries of a node, with the same keys
in the same order. -/
inductive EntriesConform (g : Grammar) : Scope → Entries → Entries → Prop
  | nil {s : Scope} : EntriesConform g s [] []
  | cons {s : Scope} {key : String} {value d : Json} {entries ds : Entries}
    (h : EntryConforms g s key value d) (hrest : EntriesConform g s entries ds) :
    EntriesConform g s ((key, value) :: entries) ((key, d) :: ds)

/-- Whether a value has the shape of an entry of a node, by what its key stands for. -/
inductive EntryConforms (g : Grammar) : Scope → String → Json → Json → Prop
  | link {s : Scope} {key : String} {value d : Json} {predicate : Iri}
    (hkey : s.context.expand? .vocab key = some (.iri predicate))
    (h : Conforms g value (entryScope s key) d) : EntryConforms g s key value d
  | name {s : Scope} {key : String} {value d : Json}
    (hkey : s.context.expand? .vocab key = some (.keyword .id) ∨
      s.context.expand? .vocab key = some (.keyword .type))
    (h : ScalarConforms value d) : EntryConforms g s key value d
  | repeated {s : Scope} {key : String} {value : Json}
    (hkey : ∀ predicate, s.context.expand? .vocab key ≠ some (.iri predicate)) :
    EntryConforms g s key value value

end

/-- Whether an answer has the shape of a whole document. -/
inductive DocumentConforms (g : Grammar) (context : Context) : Json → Json → Prop
  | array {template : Json} {ds : List Json}
    (h : ∀ d ∈ ds, Conforms g template (.root context) d) :
    DocumentConforms g context (.array [template]) (.array ds)
  | graph {entries : Entries} {value template : Json} {inside : Context} {ds : List Json}
    (hcontainer : isGraphContainer entries) (hvalue : entries.get? "@graph" = some value)
    (hcontext : g.extendContext context (declaration? entries) = .ok inside)
    (htemplate : graphItems value = [template])
    (h : ∀ d ∈ ds, Conforms g template (.root inside) d) :
    DocumentConforms g context (.object entries)
      (.object (declarationEntries (declaration? entries) ++ [("@graph", .array ds)]))
  | node {entries ds : Entries} {inside : Context} (hcontainer : ¬ isGraphContainer entries)
    (hcontext : g.extendContext context (declaration? entries) = .ok inside)
    (h : EntriesConform g (.root inside) (ownEntries entries) ds) :
    DocumentConforms g context (.object entries)
      (.object (declarationEntries (declaration? entries) ++ ds))
  | scalar {value : Json} (harray : ∀ items, value ≠ .array items)
    (hobject : ∀ entries, value ≠ .object entries) : DocumentConforms g context value value

/-- Whether all results of the template of a fragment have the shape of a value. -/
def Fragment.Shaped (g : Grammar) (value : Json) (s : Scope) (f : Fragment) : Prop :=
  ∀ rows d, f.template.Gives rows d → Conforms g value s d

variable {g : Grammar}

/-! ### Scalars -/

lemma ScalarConforms.refl (value : Json) : ScalarConforms value value := by
  by_cases h : value = .string placeholderText
  · rw [h]
    exact .filled trivial
  · exact .repeated h

lemma conforms_scalar {value : Json} {s : Scope} {f : Fragment}
    (h : compilePrimitive value s = .ok f) {rows : List Solution} {d : Json}
    (hd : f.template.Gives rows d) : ScalarConforms value d := by
  rcases compilePrimitive_eq_ok h with ⟨rfl, rfl⟩ | ⟨t, -, -, rfl⟩ | ⟨-, rfl⟩
  · apply ScalarConforms.filled
    change (placeholderTemplate s).Gives rows d at hd
    unfold placeholderTemplate at hd
    split at hd
    · exact hd.isScalar_name
    · exact hd.isScalar_name
    · exact hd.isScalar_typed
    · exact hd.isScalar_native
  · rw [Template.Gives.constant hd]
    exact .refl value
  · rw [Template.Gives.constant hd]
    exact .refl value

lemma conforms_type {value : Json} {s : Scope} {f : Fragment} (h : compileType value s = .ok f)
    {rows : List Solution} {d : Json} (hd : f.template.Gives rows d) : ScalarConforms value d := by
  rcases compileType_eq_ok h with ⟨rfl, rfl⟩ | ⟨name, iri, rfl, -, -, rfl⟩
  · exact .filled hd.isScalar_name
  · rw [Template.Gives.constant hd]
    exact .refl _

/-! ### Node objects -/

lemma conforms_entry {s : Scope} {entries : Entries} {identity : Identity}
    (hidentity : identityOf s entries = .ok identity) {key : String} {value : Json}
    {part : EntryPart} (hmem : (key, value) ∈ ownEntries entries)
    (h : CompiledEntry (fun value s f => f.Shaped g value s) s identity (key, value) part)
    {rows : List Solution} {d : Json} (hd : part.template.Gives rows d) :
    EntryConforms g s key value d := by
  cases h with
  | id hkey =>
    refine .name (.inl hkey) ?_
    obtain ⟨-, id, rfl, hid⟩ := identityOf_of_mem_own hidentity hmem hkey
    rcases hid with ⟨rfl, rfl⟩ | ⟨-, iri, -, rfl⟩
    · exact .filled hd.isScalar_name
    · rw [Template.Gives.constant hd]
      exact .refl _
  | type hkey h => exact .name (.inr hkey) (conforms_type h hd)
  | keyword hkey =>
    obtain rfl := Template.Gives.constant hd
    exact .repeated (by simp [hkey])
  | link hkey h => exact .link hkey (h rows d hd)
  | undefined hkey =>
    obtain rfl := Template.Gives.constant hd
    exact .repeated (by simp [hkey])

lemma entriesConform_of_gives {s : Scope} {entries own : Entries} {identity : Identity}
    {parts : List EntryPart} (hidentity : identityOf s entries = .ok identity)
    (hown : ∀ e ∈ own, e ∈ ownEntries entries)
    (h : List.Forall₂ (CompiledEntry (fun value s f => f.Shaped g value s) s identity) own parts)
    {rows : List Solution} {ds : Entries}
    (hds : List.Forall₂ (fun e a => e.1 = a.1 ∧ e.2.Gives rows a.2)
      (parts.map fun part => (part.key, part.template)) ds) :
    EntriesConform g s own ds := by
  induction h generalizing ds with
  | nil =>
    cases hds
    exact .nil
  | @cons entry part own parts hentry _ ih =>
    obtain ⟨key, value⟩ := entry
    rw [List.forall_mem_cons] at hown
    cases hds with
    | @cons _ a _ ds ha hds =>
      obtain ⟨key', d⟩ := a
      obtain rfl : key = key' := hentry.key_eq.symm.trans ha.1
      exact .cons (conforms_entry hidentity hown.1 hentry ha.2) (ih hown.2 hds)

lemma keys_parts {R : Json → Scope → Fragment → Prop} {s : Scope} {identity : Identity}
    {own : Entries} {parts : List EntryPart}
    (h : List.Forall₂ (CompiledEntry R s identity) own parts) :
    (parts.map fun part => (part.key, part.template)).map Prod.fst = own.map Prod.fst := by
  induction h with
  | nil => rfl
  | cons hentry _ ih =>
    rw [List.map_cons, List.map_cons, ih, List.map_cons]
    exact congrArg (· :: _) hentry.key_eq

/-- The declaration of a node comes first, and its other entries follow in their order. -/
lemma entriesConform_node {s : Scope} {entries : Entries} {identity : Identity}
    {parts : List EntryPart} (hkeys : (entries.map Prod.fst).Nodup)
    (hidentity : identityOf s entries = .ok identity)
    (h : List.Forall₂ (CompiledEntry (fun value s f => f.Shaped g value s) s identity)
      (ownEntries entries) parts) {rows : List Solution} {d : Json}
    (hd : (nodeFragment (declaration? entries) (identity.term s) parts).template.Gives rows d) :
    ∃ ds, d = .object (declarationEntries (declaration? entries) ++ ds) ∧
      EntriesConform g s (ownEntries entries) ds := by
  have hown : ((ownEntries entries).map Prod.fst).Nodup :=
    (List.Sublist.map Prod.fst List.filter_sublist).nodup hkeys
  obtain ⟨ds, rfl, hds⟩ := Template.Gives.object hd (by rwa [keys_parts h]) fun e he => by
    have hmem : e.1 ∈ (ownEntries entries).map Prod.fst :=
      keys_parts h ▸ List.mem_map_of_mem he
    obtain ⟨e', he', heq⟩ := List.mem_map.mp hmem
    have hne : e.1 ≠ "@context" := heq ▸ of_decide_eq_true (List.mem_filter.mp he').2
    cases declaration? entries <;> simp [declarationEntries, hne]
  exact ⟨ds, rfl, entriesConform_of_gives hidentity (fun e he => he) h hds⟩

/-! ### Lists -/

lemma eq_map_of_forall₂ {α β : Type} {f : α → β} {as : List α} {bs : List β}
    (h : List.Forall₂ (fun a b => b = f a) as bs) : bs = as.map f := by
  induction h with
  | nil => rfl
  | cons hb _ ih => rw [hb, ih, List.map_cons]

/-- The list is in the place of its entry, and the other entries are repeated. -/
lemma gives_listEntries {entries : Entries} {key : String} {value : Json} {list : Template}
    (hkeys : (entries.map Prod.fst).Nodup) (hkey : (key, value) ∈ entries)
    {rows : List Solution} {d : Json}
    (h : (Template.object none (listEntries entries key list)).Gives rows d) :
    ∃ d', list.Gives rows d' ∧
      d = .object (entries.map fun e => (e.1, if e.1 = key then d' else e.2)) := by
  obtain ⟨ds, rfl, hds⟩ := Template.Gives.object h
    (by simpa [listEntries, Function.comp_def] using hkeys) fun _ _ => rfl
  rw [listEntries, List.forall₂_map_left_iff] at hds
  obtain ⟨a, -, -, hlist⟩ := exists_mem_right hds hkey
  have hlist : list.Gives rows a.2 := by simpa using hlist
  refine ⟨a.2, hlist, congrArg Json.object (eq_map_of_forall₂ (hds.imp fun e b hb => ?_))⟩
  obtain ⟨hfst, hb⟩ := hb
  refine Prod.ext hfst.symm ?_
  dsimp only at hb ⊢
  split at hb
  · next heq =>
    rw [if_pos heq]
    exact hb.unique hlist
  · next hne =>
    rw [if_neg hne]
    exact hb.constant

/-- The items of a list have the shape of their template. -/
lemma conforms_list {s : Scope} {entries : Entries} {key : String} {value template : Json}
    {item : PatternTerm} {f f' : Fragment} (hkeys : (entries.map Prod.fst).Nodup)
    (hkey : (key, value) ∈ entries) (hf : f.Shaped g template (itemScope s))
    (hlist : ListFragment g entries key s.v item f f') {rows : List Solution} {d : Json}
    (hd : f'.template.Gives rows d) :
    ∃ ds, d = .object (entries.map fun e => (e.1, if e.1 = key then .array ds else e.2)) ∧
      ∀ d ∈ ds, ItemConforms g template s d := by
  cases hlist with
  | linked =>
    obtain ⟨list, hgives, rfl⟩ := gives_listEntries hkeys hkey hd
    obtain ⟨ds, rfl, hds⟩ := hgives.linked
    refine ⟨ds, rfl, fun d hd => ?_⟩
    obtain ⟨rows', hmember⟩ := hds d hd
    exact .item (hf rows' d hmember)
  | indexed hindexed =>
    obtain ⟨list, hgives, rfl⟩ := gives_listEntries hkeys hkey hd
    obtain ⟨ds, rfl, hds⟩ := hgives.indexed
    refine ⟨ds, rfl, fun d hd => ?_⟩
    rcases hds d hd with rfl | ⟨rows', hmember⟩
    · exact .missing hindexed
    · exact .item (hf rows' d hmember)

/-! ### Documents -/

lemma conforms_members {s : Scope} {template : Json} {v : Variable} {f : Fragment}
    (hf : f.Shaped g template s) {rows : List Solution} {d : Json}
    (hd : (arrayFragment v f).template.Gives rows d) :
    ∃ ds, d = .array ds ∧ ∀ d ∈ ds, Conforms g template s d := by
  obtain ⟨ds, rfl, hds⟩ := Template.Gives.set hd
  refine ⟨ds, rfl, fun d hd => ?_⟩
  obtain ⟨rows', hmember⟩ := hds d hd
  exact hf rows' d hmember

section

variable (hg : g.Usual)

include hg

/-- The results of a fragment have the shape of its value. -/
theorem Compiled.shaped {value : Json} {s : Scope} {f : Fragment} (h : Compiled g value s f)
    (hkeys : value.KeysDistinct) : f.Shaped g value s := by
  induction h with
  | @null value s hkind =>
    intro rows d hd
    obtain rfl := Kind.describes_of_eq hkind
    rw [Template.Gives.constant hd]
    exact .null hkind
  | scalar hkind h => exact fun rows d hd => .scalar hkind (conforms_scalar h hd)
  | @node value s _ entries hkind inner _ htype h ih =>
    obtain ⟨context, identity, parts, hcontext, hidentity, hparts, rfl⟩ :=
      compileNodeObject_eq_ok hg ih htype h
    obtain rfl := Kind.describes_of_eq hkind
    obtain ⟨hnodup, -⟩ := Json.keysDistinct_object.mp hkeys
    have hparts := imp_entries_of_keysDistinct hparts hkeys fun _ _ _ hvalue hf => hf hvalue
    intro rows d hd
    obtain ⟨ds, rfl, hds⟩ := entriesConform_node hnodup hidentity hparts hd
    exact .node hkind hcontext hds
  | @array value s _ items hkind inner _ h ih =>
    obtain ⟨template, f', rfl, hf', rfl⟩ := compileNodeArray_eq_ok hg ih h
    obtain rfl := eq_of_nodeArray hkind
    intro rows d hd
    obtain ⟨ds, rfl, hds⟩ := conforms_members
      (hf' (Json.keysDistinct_array.mp hkeys _ List.mem_cons_self)) hd
    exact .array hkind hds
  | @list value s _ entries hkind inner _ h ih =>
    obtain ⟨key, list, template, f', hentry, htemplate, hf', hlist⟩ := compileList_eq_ok hg ih h
    obtain rfl := Kind.describes_of_eq hkind
    obtain ⟨hnodup, hvalues⟩ := Json.keysDistinct_object.mp hkeys
    have hmem : (key, list) ∈ entries := List.mem_of_find?_eq_some hentry
    intro rows d hd
    obtain ⟨ds, rfl, hds⟩ := conforms_list hnodup hmem
      (hf' (keysDistinct_itemTemplate htemplate (hvalues _ hmem))) hlist hd
    exact .list hkind hentry htemplate hds
  | @listArray value s _ items hkind inner _ h ih =>
    obtain ⟨key, list, template, f', hentry, htemplate, hf', hlist⟩ := compileList_eq_ok hg ih h
    obtain rfl := Kind.describes_of_eq hkind
    have hmem : (key, list) ∈ wrapList items := List.mem_of_find?_eq_some hentry
    cases List.mem_singleton.mp hmem
    intro rows d hd
    obtain ⟨es, hgives, hlookup⟩ := Template.Gives.unwrapped hd
    obtain ⟨ds, heq, hds⟩ := conforms_list (by simp [wrapList]) hmem
      (hf' (keysDistinct_itemTemplate htemplate hkeys)) hlist hgives
    cases heq
    obtain rfl : Json.array ds = d := by simpa [wrapList] using hlookup
    obtain rfl : items = [template] := eq_singleton_of_itemTemplate htemplate
    exact .listArray hkind hds
  | @unsupported value s entries remark hkind =>
    intro rows d hd
    have heq : value = .object entries := by
      rcases hkind with hkind | hkind | hkind <;> exact Kind.describes_of_eq hkind
    rw [Template.Gives.constant hd, ← heq]
    exact .unsupported hkind

/-- The members of a whole array of nodes have the shape of its only element. -/
lemma conforms_nodeArray {inner : Compiler}
    (hinner : ∀ value s f, inner .resource value s = .ok f → Compiled g value s f)
    {items : List Json} {s : Scope} {f : Fragment} (h : compileNodeArray g inner items s = .ok f)
    (hkeys : ∀ item ∈ items, item.KeysDistinct) {rows : List Solution} {d : Json}
    (hd : f.template.Gives rows d) :
    ∃ template ds, items = [template] ∧ d = .array ds ∧ ∀ d ∈ ds, Conforms g template s d := by
  obtain ⟨template, f', rfl, hf', rfl⟩ := compileNodeArray_eq_ok hg hinner h
  obtain ⟨ds, rfl, hds⟩ :=
    conforms_members (hf'.shaped hg (hkeys template List.mem_cons_self)) hd
  exact ⟨template, ds, rfl, rfl, hds⟩

end

/-- Whatever rows an answer comes from, it has the shape of its document: if no object of the
document repeats a key. -/
theorem answer_conforms (hg : g.Usual) {context : Context} {document : Json} {q : Query}
    (hq : g.compile context document = .ok q) (hkeys : document.KeysDistinct)
    {rows : List Solution} {d : Json} (hd : q.template.answer rows = .ok d) :
    DocumentConforms g context document d := by
  obtain ⟨f, hf, rfl⟩ := hg.compile_eq_ok hq
  have hd : f.template.Gives rows d := bind_eq_ok.mp hd
  cases hf with
  | array inner hinner h =>
    obtain ⟨template, ds, rfl, rfl, hds⟩ :=
      conforms_nodeArray hg hinner h (Json.keysDistinct_array.mp hkeys) hd
    exact .array hds
  | @graph entries value _ _ f hcontainer hvalue hcontext inner hinner h =>
    obtain ⟨-, hvalues⟩ := Json.keysDistinct_object.mp hkeys
    have hgraph : value.KeysDistinct := hvalues _ (mem_of_lookup_eq_some hvalue)
    obtain ⟨as, rfl, has⟩ := Template.Gives.object hd (by simp) (by
      cases declaration? entries <;> simp [declarationEntries])
    obtain ⟨d, rfl, hgives⟩ : ∃ d, as = [("@graph", d)] ∧ f.template.Gives rows d := by
      cases has with
      | @cons _ a _ _ ha hrest =>
        cases hrest
        obtain ⟨key, d⟩ := a
        obtain ⟨rfl, hgives⟩ := ha
        exact ⟨d, rfl, hgives⟩
    obtain ⟨template, ds, htemplate, rfl, hds⟩ :=
      conforms_nodeArray hg hinner h (fun item => keysDistinct_graphItems hgraph) hgives
    exact .graph hcontainer hvalue hcontext htemplate hds
  | @node entries _ _ hcontainer inner hinner htype h =>
    obtain ⟨context', identity, parts, hcontext, hidentity, hparts, rfl⟩ :=
      compileNodeObject_eq_ok hg hinner htype h
    obtain ⟨hnodup, -⟩ := Json.keysDistinct_object.mp hkeys
    have hparts := imp_entries_of_keysDistinct hparts hkeys fun _ _ _ hvalue hf =>
      hf.shaped hg hvalue
    obtain ⟨ds, rfl, hds⟩ := entriesConform_node hnodup hidentity hparts hd
    exact .node hcontainer hcontext hds
  | scalar harray hobject =>
    rw [Template.Gives.constant hd]
    exact .scalar harray hobject

section

/-- Asks for nodes with their values and a list of types. One value is not supported, and the
declaration is not the first entry. -/
def describedNodes : Json :=
  .array [.object [("@id", .string "?"), ("ex:p", .array [.string "?"]),
    ("ex:l", .object [("note", .null), ("@list", .object [("@type", .string "?")])]),
    ("@context", .null), ("ex:q", .null)]]

/-- A node with a value and the only item of a list. -/
def describedRow : Solution :=
  [(⟨"root"⟩, .iri ⟨"ex:a"⟩), (⟨"root.p"⟩, .literal (.simple "x")),
    (⟨"root.l"⟩, .iri ⟨"ex:l"⟩), (⟨"root.l.slot"⟩, .iri ⟨"ex:l"⟩),
    (⟨"root.l.rest"⟩, .iri Iri.rdfNil), (⟨"root.l.item.type"⟩, .iri ⟨"ex:t"⟩)]

def describedAnswer : Json :=
  .array [.object [("@context", .null), ("@id", .string "ex:a"), ("ex:p", .array [.string "x"]),
    ("ex:l", .object [("note", .null), ("@list", .array [.object [("@type", .string "ex:t")]])]),
    ("ex:q", .null)]]

/-- The declaration is moved to the front, and nothing else is. -/
theorem answer_conforms_described_nodes :
    ∃ q, Grammar.standard.compile .empty describedNodes = .ok q ∧ describedNodes.KeysDistinct ∧
      q.template.answer [describedRow] = .ok describedAnswer ∧
      DocumentConforms .standard .empty describedNodes describedAnswer := by
  obtain ⟨q, hq, hd⟩ : ∃ q, Grammar.standard.compile .empty describedNodes = .ok q ∧
      q.template.answer [describedRow] = .ok describedAnswer := ⟨_, rfl, rfl⟩
  have hkeys : describedNodes.KeysDistinct := by
    simp [describedNodes, Json.KeysDistinct, Json.ItemsKeysDistinct, Json.EntriesKeysDistinct]
  exact ⟨q, hq, hkeys, hd, answer_conforms Grammar.standard_usual hq hkeys hd⟩

end

end Exemplar
