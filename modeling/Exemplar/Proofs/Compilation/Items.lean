import Exemplar.Proofs.Compilation.Derivation
import Exemplar.Proofs.Compilation.Operations
import Exemplar.Proofs.Json.Keys

/-!
# Templates of list items

Where in a document a list has which template for its items, and what distinguishes arrays from
other templates: only their operations are optional.
-/

namespace Exemplar

/-- The values that the entries of a node object are linked to, with their scopes. -/
def NodeEntry (g : Grammar) (entries : Entries) (s : Scope) (value : Json) (s' : Scope) : Prop :=
  ∃ context key predicate, g.extendContext s.context (declaration? entries) = .ok context ∧
    (key, value) ∈ ownEntries entries ∧ context.expand? .vocab key = some (.iri predicate) ∧
    s' = entryScope ⟨s.v, context, none⟩ key

/-- The template of the items of a value that is compiled as a list. -/
def ListTemplate (s : Scope) (value template : Json) : Prop :=
  ∃ entries key list, (Kind.of s value = .listObject entries ∨
      ∃ items, Kind.of s value = .listArray items ∧ entries = wrapList items) ∧
    keywordEntry? s.context entries .list = some (key, list) ∧ itemTemplate list = .ok template

/-- The templates of the items of all lists that a value is compiled to. -/
inductive ItemOf (g : Grammar) : Json → Scope → Json → Prop
  | own {value template : Json} {s : Scope} (hlist : ListTemplate s value template) :
    ItemOf g value s template
  | item {value template inner : Json} {s : Scope} (hlist : ListTemplate s value template)
    (h : ItemOf g template (itemScope s) inner) : ItemOf g value s inner
  | member {value template inner : Json} {s : Scope}
    (hkind : Kind.of s value = .nodeArray [template]) (h : ItemOf g template s inner) :
    ItemOf g value s inner
  | entry {value value' inner : Json} {s s' : Scope} {entries : Entries}
    (hkind : Kind.of s value = .nodeObject entries) (hentry : NodeEntry g entries s value' s')
    (h : ItemOf g value' s' inner) : ItemOf g value s inner

/-- The templates of the items of all lists of a document. -/
inductive ItemOfDocument (g : Grammar) (context : Context) : Json → Json → Prop
  | array {template inner : Json} (h : ItemOf g template (.root context) inner) :
    ItemOfDocument g context (.array [template]) inner
  | graph {entries : Entries} {value template inner : Json} {context' : Context}
    (hcontainer : isGraphContainer entries) (hvalue : entries.get? "@graph" = some value)
    (hcontext : g.extendContext context (declaration? entries) = .ok context')
    (htemplate : graphItems value = [template])
    (h : ItemOf g template (.root context') inner) :
    ItemOfDocument g context (.object entries) inner
  | node {entries : Entries} {value inner : Json} {s : Scope}
    (hcontainer : ¬ isGraphContainer entries)
    (hentry : NodeEntry g entries (.root context) value s) (h : ItemOf g value s inner) :
    ItemOfDocument g context (.object entries) inner

/-! ### Values of a kind -/

/-- Whether a value is the array or the object that its kind speaks of. -/
def Kind.Describes (value : Json) : Kind → Prop
  | .null => value = .null
  | .nodeArray items => value = .array items
  | .listArray items => value = .array items
  | .nodeObject entries => value = .object entries
  | .listObject entries => value = .object entries
  | .graphObject entries => value = .object entries
  | .valueObject entries => value = .object entries
  | .setObject entries => value = .object entries
  | _ => True

lemma Kind.describes (s : Scope) (value : Json) : (Kind.of s value).Describes value := by
  cases value with
  | array items =>
    simp only [Kind.of]
    split <;> rfl
  | object entries =>
    simp only [Kind.of]
    repeat' split
    all_goals trivial
  | string text =>
    simp only [Kind.of]
    split <;> trivial
  | null | bool | number => trivial

lemma Kind.describes_of_eq {s : Scope} {value : Json} {kind : Kind} (h : Kind.of s value = kind) :
    kind.Describes value :=
  h ▸ Kind.describes s value

lemma eq_of_nodeArray {s : Scope} {value : Json} {items : List Json}
    (h : Kind.of s value = .nodeArray items) : value = .array items :=
  Kind.describes_of_eq h

/-! ### Documents with distinct keys -/

lemma eq_singleton_of_itemTemplate {items : List Json} {template : Json}
    (h : itemTemplate (.array items) = .ok template) : items = [template] := by
  unfold itemTemplate at h
  split at h
  · next item heq =>
    cases h
    cases heq
    rfl
  · cases h
  · next hnot => exact absurd rfl (hnot items)

lemma keysDistinct_itemTemplate {value template : Json} (h : itemTemplate value = .ok template)
    (hkeys : value.KeysDistinct) : template.KeysDistinct := by
  cases value with
  | array items =>
    obtain rfl := eq_singleton_of_itemTemplate h
    exact Json.keysDistinct_array.mp hkeys _ List.mem_cons_self
  | _ =>
    cases h
    exact hkeys

lemma keysDistinct_graphItems {value item : Json} (hkeys : value.KeysDistinct)
    (hitem : item ∈ graphItems value) : item.KeysDistinct := by
  cases value with
  | array items => exact Json.keysDistinct_array.mp hkeys item hitem
  | _ =>
    cases List.mem_singleton.mp hitem
    exact hkeys

/-- What holds of values with distinct keys holds of the values in an object with distinct keys. -/
lemma imp_entries_of_keysDistinct {R R' : Json → Scope → Fragment → Prop} {s : Scope}
    {identity : Identity} {entries : Entries} {parts : List EntryPart}
    (hparts : List.Forall₂ (CompiledEntry R s identity) (ownEntries entries) parts)
    (hkeys : (Json.object entries).KeysDistinct)
    (hR : ∀ value s f, value.KeysDistinct → R value s f → R' value s f) :
    List.Forall₂ (CompiledEntry R' s identity) (ownEntries entries) parts := by
  obtain ⟨-, hvalues⟩ := Json.keysDistinct_object.mp hkeys
  refine forall₂_imp_of_mem hparts fun e he part _ hentry => hentry.imp_value fun s f hf => ?_
  exact hR _ s f (hvalues e (List.mem_filter.mp he).1) hf

/-! ### Documents without arrays in arrays -/

namespace Json

mutual

/-- Whether no array of a document is an element of an array. -/
def ArraysApart : Json → Prop
  | .array items => ItemsApart items
  | .object entries => EntriesApart entries
  | _ => True

def ItemsApart : List Json → Prop
  | [] => True
  | item :: rest => (∀ items, item ≠ .array items) ∧ item.ArraysApart ∧ ItemsApart rest

def EntriesApart : List (String × Json) → Prop
  | [] => True
  | (_, value) :: rest => value.ArraysApart ∧ EntriesApart rest

end

lemma apart_of_mem {items : List Json} (h : (Json.array items).ArraysApart) {item : Json}
    (hitem : item ∈ items) : (∀ inner, item ≠ .array inner) ∧ item.ArraysApart := by
  rw [ArraysApart] at h
  induction items with
  | nil => cases hitem
  | cons first rest ih =>
    obtain ⟨hfirst, hapart, hrest⟩ := h
    rcases List.mem_cons.mp hitem with rfl | hitem
    · exact ⟨hfirst, hapart⟩
    · exact ih hrest hitem

lemma apart_of_mem_entries {entries : Entries} (h : (Json.object entries).ArraysApart)
    {key : String} {value : Json} (hvalue : (key, value) ∈ entries) : value.ArraysApart := by
  rw [ArraysApart] at h
  induction entries with
  | nil => cases hvalue
  | cons first rest ih =>
    obtain ⟨hfirst, hrest⟩ := h
    rcases List.mem_cons.mp hvalue with rfl | hvalue
    · exact hfirst
    · exact ih hrest hvalue

end Json

/-- Without arrays in arrays, no item of a list is an array. -/
lemma ListTemplate.apart {s : Scope} {value template : Json} (h : ListTemplate s value template)
    (hvalue : value.ArraysApart) :
    (∀ items, template ≠ .array items) ∧ template.ArraysApart := by
  obtain ⟨entries, key, list, hkind, hentry, htemplate⟩ := h
  have hmem : (key, list) ∈ entries := List.mem_of_find?_eq_some hentry
  have hlist : list.ArraysApart := by
    rcases hkind with hkind | ⟨items, hkind, rfl⟩ <;> obtain rfl := Kind.describes_of_eq hkind
    · exact Json.apart_of_mem_entries hvalue hmem
    · cases List.mem_singleton.mp hmem
      exact hvalue
  unfold itemTemplate at htemplate
  split at htemplate
  · cases htemplate
    exact Json.apart_of_mem hlist List.mem_cons_self
  · cases htemplate
  · next hnot =>
    cases htemplate
    exact ⟨hnot, hlist⟩

lemma ItemOf.apart {g : Grammar} {s : Scope} {value template : Json}
    (h : ItemOf g value s template) (hvalue : value.ArraysApart) :
    ∀ items, template ≠ .array items := by
  induction h with
  | own hlist => exact (hlist.apart hvalue).1
  | item hlist _ ih => exact ih (hlist.apart hvalue).2
  | member hkind _ ih =>
    obtain rfl := eq_of_nodeArray hkind
    exact ih (Json.apart_of_mem hvalue List.mem_cons_self).2
  | @entry value _ _ s _ entries hkind hentry _ ih =>
    obtain rfl := Kind.describes_of_eq hkind
    obtain ⟨context, key, predicate, -, hmem, -, -⟩ := hentry
    exact ih (Json.apart_of_mem_entries hvalue (List.mem_filter.mp hmem).1)

lemma ItemOfDocument.apart {g : Grammar} {context : Context} {document template : Json}
    (h : ItemOfDocument g context document template) (hdocument : document.ArraysApart) :
    ∀ items, template ≠ .array items := by
  cases h with
  | array h => exact h.apart (Json.apart_of_mem hdocument List.mem_cons_self).2
  | @graph entries value _ _ _ hcontainer hvalue hcontext htemplate h =>
    have hapart := Json.apart_of_mem_entries hdocument (mem_of_lookup_eq_some hvalue)
    unfold graphItems at htemplate
    split at htemplate
    · cases htemplate
      exact h.apart (Json.apart_of_mem hapart List.mem_cons_self).2
    · cases htemplate
      exact h.apart hapart
  | node hcontainer hentry h =>
    obtain ⟨context, key, predicate, -, hmem, -, -⟩ := hentry
    exact h.apart (Json.apart_of_mem_entries hdocument (List.mem_filter.mp hmem).1)

/-! ### Optional operations -/

lemma nodeFragment_not_isOptional {declaration : Option Json} {node : PatternTerm}
    {parts : List EntryPart} : (nodeFragment declaration node parts).operation.isOptional = false :=
  Operation.isOptional_foldl_join parts {}

/-- Only arrays that do not stand for lists are optional. -/
lemma Compiled.kind_of_isOptional {g : Grammar} (hg : g.Usual) {value : Json} {s : Scope}
    {f : Fragment} (h : Compiled g value s f) (hoptional : f.operation.isOptional) :
    ∃ items, Kind.of s value = .nodeArray items := by
  have hlist : ∀ {inner : Compiler} {entries : Entries} {s : Scope} {f : Fragment},
      compileList g inner entries s = .ok f → f.operation.isOptional = false := by
    intro inner entries s f h
    obtain ⟨key, value, template, f', -, -, -, hlist⟩ :=
      compileList_eq_ok hg (R := fun _ _ _ => True) (fun _ _ _ _ => trivial) h
    have hjoin : ∀ o : Operation, (({} : Operation).join o).isOptional = false := by
      intro o
      unfold Operation.join
      split
      · rfl
      · split <;> rfl
    cases hlist <;> exact hjoin _
  cases h with
  | null => cases hoptional
  | scalar _ h =>
    rcases compilePrimitive_eq_ok h with ⟨-, rfl⟩ | ⟨t, -, -, rfl⟩ | ⟨-, rfl⟩ <;> cases hoptional
  | node _ inner hinner htype h =>
    obtain ⟨context, identity, parts, -, -, -, rfl⟩ := compileNodeObject_eq_ok hg hinner htype h
    rw [nodeFragment_not_isOptional] at hoptional
    cases hoptional
  | array hkind => exact ⟨_, hkind⟩
  | list _ inner _ h =>
    rw [hlist h] at hoptional
    cases hoptional
  | @listArray _ _ f' _ _ inner _ h =>
    change f'.operation.isOptional = true at hoptional
    rw [hlist h] at hoptional
    cases hoptional
  | unsupported => cases hoptional

end Exemplar
