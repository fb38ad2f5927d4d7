import Exemplar.Proofs.Compilation.Declarations
import Exemplar.Proofs.Compilation.Plain
import Exemplar.Proofs.Compilation.Sharing
import Exemplar.Proofs.Template.Placeholders
import Mathlib.Data.List.Nodup

/-!
# Placeholders of documents

Every placeholder of a document is filled in or repeated. Those that are repeated have a warning,
but for one kind: the entries of a list object beside its list are repeated without any. So without
warnings, the placeholders that are not filled in are beside lists.
-/

namespace Exemplar

/-! ### Parts of documents -/

/-- The values that a value is compiled from, with their scopes. -/
def ChildOf (g : Grammar) (value : Json) (s : Scope) (value' : Json) (s' : Scope) : Prop :=
  match Kind.of s value with
  | .nodeObject entries => NodeEntry g entries s value' s'
  | .nodeArray items => items = [value'] ∧ s' = s
  | .listObject entries => (∃ key list, keywordEntry? s.context entries .list = some (key, list) ∧
      itemTemplate list = .ok value') ∧ s' = itemScope s
  | .listArray items => items = [value'] ∧ s' = itemScope s
  | _ => False

/-- A value itself, the values that it is compiled from, those that these are compiled from, and so
on. -/
inductive PartOf (g : Grammar) : Json → Scope → Json → Scope → Prop
  | self {value : Json} {s : Scope} : PartOf g value s value s
  | child {value value' part : Json} {s s' s'' : Scope} (hchild : ChildOf g value s value' s')
    (h : PartOf g value' s' part s'') : PartOf g value s part s''

/-- The values that a whole document is compiled from, with their scopes. -/
inductive PartOfDocument (g : Grammar) (context : Context) : Json → Json → Scope → Prop
  | array {template part : Json} {s : Scope} (h : PartOf g template (.root context) part s) :
    PartOfDocument g context (.array [template]) part s
  | graph {entries : Entries} {value template part : Json} {inside : Context} {s : Scope}
    (hcontainer : isGraphContainer entries) (hvalue : entries.get? "@graph" = some value)
    (hcontext : g.extendContext context (declaration? entries) = .ok inside)
    (htemplate : graphItems value = [template]) (h : PartOf g template (.root inside) part s) :
    PartOfDocument g context (.object entries) part s
  | node {entries : Entries} {value part : Json} {s s' : Scope}
    (hcontainer : ¬ isGraphContainer entries)
    (hentry : NodeEntry g entries (.root context) value s) (h : PartOf g value s part s') :
    PartOfDocument g context (.object entries) part s'

/-- Whether a value is a list object with a placeholder beside its list. -/
def AsksBesideList (s : Scope) (value : Json) : Prop :=
  ∃ entries key list, Kind.of s value = .listObject entries ∧
    keywordEntry? s.context entries .list = some (key, list) ∧
    0 < (Json.object (entries.filter fun entry => entry.1 ≠ key)).placeholders

/-- Whether no list object in a value has a placeholder beside its list. -/
def AsksInLists (g : Grammar) (value : Json) (s : Scope) : Prop :=
  ∀ part s', PartOf g value s part s' → ¬ AsksBesideList s' part

section

variable {g : Grammar} {value : Json} {s : Scope}

lemma asksInLists_iff : AsksInLists g value s ↔ ¬ AsksBesideList s value ∧
    ∀ value' s', ChildOf g value s value' s' → AsksInLists g value' s' := by
  constructor
  · exact fun h => ⟨h _ _ .self, fun value' s' hchild part s'' hpart =>
      h part s'' (.child hchild hpart)⟩
  · rintro ⟨hself, hchildren⟩ part s' hpart
    cases hpart with
    | self => exact hself
    | child hchild hpart => exact hchildren _ _ hchild part s' hpart

/-- Only lists can have something beside them. -/
lemma asksInLists_iff_children (hlist : ∀ entries, Kind.of s value ≠ .listObject entries) :
    AsksInLists g value s ↔ ∀ value' s', ChildOf g value s value' s' → AsksInLists g value' s' := by
  rw [asksInLists_iff]
  exact and_iff_right fun ⟨_, _, _, hkind, _⟩ => hlist _ hkind

lemma asksBesideList_iff {entries : Entries} {key : String} {list : Json}
    (hkind : Kind.of s value = .listObject entries)
    (hentry : keywordEntry? s.context entries .list = some (key, list)) :
    AsksBesideList s value ↔
      0 < (Json.object (entries.filter fun entry => entry.1 ≠ key)).placeholders := by
  constructor
  · rintro ⟨entries', key', list', hkind', hentry', h⟩
    cases hkind.symm.trans hkind'
    cases hentry.symm.trans hentry'
    exact h
  · exact fun h => ⟨entries, key, list, hkind, hentry, h⟩

end

/-! ### Lists -/

lemma placeholders_itemTemplate {value template : Json} (h : itemTemplate value = .ok template) :
    value.placeholders = template.placeholders := by
  cases value with
  | array items =>
    obtain rfl := eq_singleton_of_itemTemplate h
    exact Json.placeholders_singleton template
  | _ =>
    cases h
    rfl

section

variable {entries : Entries} {key : String} {value : Json} {list : Template}

/-- The entries of a list object are its list and the entries beside it. -/
lemma exists_listEntries (list : Template) (hkeys : (entries.map Prod.fst).Nodup)
    (hkey : (key, value) ∈ entries) :
    ∃ before after, entries = before ++ (key, value) :: after ∧
      entries.filter (fun entry => entry.1 ≠ key) = before ++ after ∧
      listEntries entries key list = (before.map fun entry => (entry.1, .constant entry.2)) ++
        (key, list) :: after.map fun entry => (entry.1, .constant entry.2) := by
  obtain ⟨before, after, rfl⟩ := List.append_of_mem hkey
  rw [List.map_append, List.map_cons, List.nodup_middle, List.nodup_cons,
    ← List.map_append] at hkeys
  have hother : ∀ entry ∈ before ++ after, entry.1 ≠ key := fun entry hentry heq =>
    hkeys.1 (List.mem_map.mpr ⟨entry, hentry, heq⟩)
  have hfilter : ∀ l ⊆ before ++ after, l.filter (fun entry => entry.1 ≠ key) = l := fun l hl =>
    List.filter_eq_self.mpr fun entry hentry => decide_eq_true (hother entry (hl hentry))
  have hconstant : ∀ l ⊆ before ++ after, listEntries l key list =
      l.map fun entry => (entry.1, .constant entry.2) := fun l hl =>
    List.map_congr_left fun entry hentry =>
      congrArg (Prod.mk entry.1) (if_neg (hother entry (hl hentry)))
  refine ⟨before, after, rfl, ?_, ?_⟩
  · rw [List.filter_append, List.filter_cons_of_neg (by simp),
      hfilter before (List.subset_append_left _ _), hfilter after (List.subset_append_right _ _)]
  · rw [← hconstant before (List.subset_append_left _ _),
      ← hconstant after (List.subset_append_right _ _)]
    simp [listEntries]

lemma placeholders_insert (hkeys : (entries.map Prod.fst).Nodup) (hmem : (key, value) ∈ entries)
    (hkey : key ≠ "@context") : (Json.object entries).placeholders = value.placeholders +
      (Json.object (entries.filter fun entry => entry.1 ≠ key)).placeholders := by
  obtain ⟨before, after, hentries, hfilter, -⟩ :=
    exists_listEntries (.constant .null) hkeys hmem
  rw [hfilter, hentries]
  simp only [Json.placeholders, Json.entryPlaceholders_append, Json.entryPlaceholders, if_neg hkey]
  omega

variable {c : Context} (hkeys : (entries.map Prod.fst).Nodup)
  (hentry : keywordEntry? c entries .list = some (key, value))

include hentry in
lemma listKey_ne_context : key ≠ "@context" := by
  have hkeyword : c.isKeyword .list key := by simpa using List.find?_some hentry
  rintro rfl
  cases hkeyword

include hkeys hentry

/-- The entries beside a list are repeated. -/
lemma repeated_listEntries : Template.entryPlaceholders (listEntries entries key list) =
      list.placeholders ∧
    Template.entryRepeated (listEntries entries key list) = list.repeated +
      (Json.object (entries.filter fun entry => entry.1 ≠ key)).placeholders := by
  obtain ⟨before, after, -, hfilter, hlist⟩ :=
    exists_listEntries list hkeys (List.mem_of_find?_eq_some hentry)
  rw [hfilter, hlist]
  simp only [Template.entryPlaceholders_append, Template.entryPlaceholders,
    Template.entryPlaceholders_constant, Template.entryRepeated_append, Template.entryRepeated,
    Template.entryRepeated_constant, if_neg (listKey_ne_context hentry), Json.placeholders,
    Json.entryPlaceholders_append]
  omega

/-- A list fills in what its items do. -/
lemma ListFragment.placeholders {g : Grammar} {v : Variable} {item : PatternTerm} {f f' : Fragment}
    (h : ListFragment g entries key v item f f') :
    f'.template.placeholders = f.template.placeholders ∧
      f'.template.repeated = f.template.repeated +
        (Json.object (entries.filter fun entry => entry.1 ≠ key)).placeholders := by
  cases h with
  | linked => exact repeated_listEntries hkeys hentry
  | indexed => exact repeated_listEntries hkeys hentry

end

lemma ListFragment.placeholders_wrapList {g : Grammar} {items : List Json} {v : Variable}
    {item : PatternTerm} {f f' : Fragment}
    (h : ListFragment g (wrapList items) "@list" v item f f') :
    f'.template.placeholders = f.template.placeholders ∧
      f'.template.repeated = f.template.repeated := by
  cases h <;> exact ⟨rfl, rfl⟩

/-! ### Counting -/

/-- Whether the placeholders of a value are those that its template fills in or repeats. -/
def Template.Counts (value : Json) (t : Template) : Prop :=
  value.placeholders = t.placeholders + t.repeated

lemma counts_constant (value : Json) : (Template.constant value).Counts value :=
  (Nat.zero_add _).symm

lemma counts_primitive {value : Json} {s : Scope} {f : Fragment}
    (h : compilePrimitive value s = .ok f) : f.template.Counts value := by
  rcases compilePrimitive_eq_ok h with ⟨rfl, rfl⟩ | ⟨t, -, -, rfl⟩ | ⟨-, rfl⟩
  · unfold Fragment.placeholder placeholderTemplate
    split <;> rfl
  · exact counts_constant value
  · exact counts_constant value

lemma counts_entry {s : Scope} {entries : Entries} {identity : Identity}
    (hidentity : identityOf s entries = .ok identity) {key : String} {value : Json}
    {part : EntryPart} (hmem : (key, value) ∈ ownEntries entries)
    (h : CompiledEntry (fun value _ f => f.template.Counts value) s identity (key, value) part) :
    part.template.Counts value := by
  cases h with
  | id hkey =>
    obtain ⟨-, id, rfl, hid⟩ := identityOf_of_mem_own hidentity hmem hkey
    rcases hid with ⟨rfl, rfl⟩ | ⟨-, iri, -, rfl⟩
    · rfl
    · exact counts_constant _
  | type hkey h =>
    rcases compileType_eq_ok h with ⟨rfl, rfl⟩ | ⟨name, iri, rfl, -, -, rfl⟩
    · rfl
    · exact counts_constant _
  | keyword => exact counts_constant value
  | link hkey h => exact h
  | undefined => exact counts_constant value

lemma counts_entries {s : Scope} {entries own : Entries} {identity : Identity}
    {parts : List EntryPart} (hidentity : identityOf s entries = .ok identity)
    (hown : ∀ e ∈ own, e ∈ ownEntries entries)
    (h : List.Forall₂ (CompiledEntry (fun value _ f => f.template.Counts value) s identity) own
      parts) :
    Json.entryPlaceholders own =
      Template.entryPlaceholders (parts.map fun part => (part.key, part.template)) +
        Template.entryRepeated (parts.map fun part => (part.key, part.template)) := by
  induction h with
  | nil => rfl
  | @cons entry part own parts hentry _ ih =>
    obtain ⟨key, value⟩ := entry
    rw [List.forall_mem_cons] at hown
    have hkey : key ≠ "@context" := of_decide_eq_true (List.mem_filter.mp hown.1).2
    have hvalue : value.placeholders = part.template.placeholders + part.template.repeated :=
      counts_entry hidentity hown.1 hentry
    have hrest := ih hown.2
    simp only [Json.entryPlaceholders, List.map_cons, Template.entryPlaceholders,
      Template.entryRepeated, hentry.key_eq, if_neg hkey]
    omega

section

variable {g : Grammar} (hg : g.Usual)

section

variable {inner : Compiler} {s : Scope} {f : Fragment}
  (hinner : ∀ value s f, inner .resource value s = .ok f → value.KeysDistinct →
    f.template.Counts value)

include hg hinner

lemma counts_nodeObject
    (htype : ∀ value s f, inner .typeEntry value s = .ok f → compileType value s = .ok f)
    {entries : Entries} (h : compileNodeObject g inner entries s = .ok f)
    (hkeys : (Json.object entries).KeysDistinct) : f.template.Counts (.object entries) := by
  obtain ⟨context, identity, parts, -, hidentity, hparts, rfl⟩ :=
    compileNodeObject_eq_ok (R := fun value _ f => value.KeysDistinct → f.template.Counts value) hg
      hinner htype h
  have hparts := imp_entries_of_keysDistinct hparts hkeys fun _ _ _ hvalue hf => hf hvalue
  have hentries := counts_entries hidentity (fun e he => he) hparts
  rw [Template.Counts, ← Json.placeholders_ownEntries, Json.placeholders]
  exact hentries

lemma counts_nodeArray {items : List Json} (h : compileNodeArray g inner items s = .ok f)
    (hkeys : ∀ item ∈ items, item.KeysDistinct) : f.template.Counts (.array items) := by
  obtain ⟨template, f', rfl, hf', rfl⟩ :=
    compileNodeArray_eq_ok (R := fun value _ f => value.KeysDistinct → f.template.Counts value) hg
      hinner h
  exact (Json.placeholders_singleton template).trans (hf' (hkeys _ List.mem_cons_self))

end

include hg

/-- Every placeholder of a value is filled in or repeated. -/
lemma Compiled.counts {value : Json} {s : Scope} {f : Fragment} (h : Compiled g value s f)
    (hkeys : value.KeysDistinct) : f.template.Counts value := by
  induction h with
  | null hkind =>
    obtain rfl := Kind.describes_of_eq hkind
    rfl
  | scalar hkind h => exact counts_primitive h
  | node hkind inner _ htype h ih =>
    obtain rfl := Kind.describes_of_eq hkind
    exact counts_nodeObject hg ih htype h hkeys
  | array hkind inner _ h ih =>
    obtain rfl := eq_of_nodeArray hkind
    exact counts_nodeArray hg ih h (Json.keysDistinct_array.mp hkeys)
  | list hkind inner _ h ih =>
    obtain ⟨key, list, template, f', hentry, htemplate, hf', hlist⟩ := compileList_eq_ok hg ih h
    obtain rfl := Kind.describes_of_eq hkind
    obtain ⟨hnodup, hvalues⟩ := Json.keysDistinct_object.mp hkeys
    have hitems : f'.template.Counts template :=
      hf' (keysDistinct_itemTemplate htemplate (hvalues _ (List.mem_of_find?_eq_some hentry)))
    obtain ⟨hplaceholders, hrepeated⟩ := hlist.placeholders hnodup hentry
    have hlist := placeholders_insert hnodup (List.mem_of_find?_eq_some hentry)
      (listKey_ne_context hentry)
    rw [placeholders_itemTemplate htemplate] at hlist
    unfold Template.Counts at hitems ⊢
    omega
  | @listArray _ _ _ items hkind inner _ h ih =>
    obtain ⟨key, list, template, f', hentry, htemplate, hf', hlist⟩ := compileList_eq_ok hg ih h
    obtain rfl := Kind.describes_of_eq hkind
    cases List.mem_singleton.mp (List.mem_of_find?_eq_some hentry)
    have hitems : f'.template.Counts template := hf' (keysDistinct_itemTemplate htemplate hkeys)
    obtain ⟨hplaceholders, hrepeated⟩ := hlist.placeholders_wrapList
    simp only [Template.Counts, unwrapList, Template.placeholders, Template.repeated,
      hplaceholders, hrepeated]
    exact (placeholders_itemTemplate htemplate).trans hitems
  | @unsupported value s entries remark hkind =>
    have heq : value = .object entries := by
      rcases hkind with hkind | hkind | hkind <;> exact Kind.describes_of_eq hkind
    rw [heq]
    exact counts_constant _

end

/-! ### Warnings -/

/-- Whether a fragment without warnings repeats no placeholders but those beside lists. -/
def Fragment.RepeatsBesideLists (g : Grammar) (value : Json) (s : Scope) (f : Fragment) : Prop :=
  f.warnings = [] → (f.template.repeated = 0 ↔ AsksInLists g value s)

lemma placeholders_scalar {value : Json} {s : Scope}
    (hkind : Kind.of s value = .placeholder ∨ Kind.of s value = .primitive)
    (hfixed : value ≠ .string placeholderText) : value.placeholders = 0 := by
  cases value with
  | string text => simp_all
  | array items =>
    simp only [Kind.of] at hkind
    split at hkind <;> simp at hkind
  | object entries =>
    rcases hkind with hkind | hkind
    · exact absurd hkind (kind_object_ne s entries).1
    · exact absurd hkind (kind_object_ne s entries).2
  | null | bool | number => rfl

lemma repeated_primitive {value : Json} {s : Scope} {f : Fragment}
    (hkind : Kind.of s value = .placeholder ∨ Kind.of s value = .primitive)
    (h : compilePrimitive value s = .ok f) (hwarnings : f.warnings = []) :
    f.template.repeated = 0 := by
  rcases compilePrimitive_eq_ok h with ⟨rfl, rfl⟩ | ⟨t, hfixed, -, rfl⟩ | ⟨-, rfl⟩
  · unfold Fragment.placeholder placeholderTemplate
    split <;> rfl
  · exact placeholders_scalar hkind hfixed
  · cases hwarnings

section

variable {g : Grammar}

lemma repeated_entry {s : Scope} {entries : Entries} {identity : Identity}
    (hidentity : identityOf s entries = .ok identity) {key : String} {value : Json}
    {part : EntryPart} (hmem : (key, value) ∈ ownEntries entries)
    (h : CompiledEntry (fun value s f => f.RepeatsBesideLists g value s) s identity (key, value)
      part) (hwarnings : part.warnings = []) :
    part.template.repeated = 0 ↔ ∀ predicate, s.context.expand? .vocab key = some (.iri predicate) →
      AsksInLists g value (entryScope s key) := by
  cases h with
  | id hkey =>
    refine iff_of_true ?_ fun predicate hiri => nomatch hkey.symm.trans hiri
    obtain ⟨-, id, rfl, hid⟩ := identityOf_of_mem_own hidentity hmem hkey
    rcases hid with ⟨rfl, rfl⟩ | ⟨hfixed, iri, -, rfl⟩
    · rfl
    · exact (Json.placeholders_string id).trans (if_neg hfixed)
  | type hkey h =>
    refine iff_of_true ?_ fun predicate hiri => nomatch hkey.symm.trans hiri
    rcases compileType_eq_ok h with ⟨rfl, rfl⟩ | ⟨name, iri, rfl, hfixed, -, rfl⟩
    · rfl
    · exact (Json.placeholders_string name).trans (if_neg hfixed)
  | keyword => cases hwarnings
  | @link _ _ predicate f hkey h =>
    have hf : f.template.repeated = 0 ↔ AsksInLists g value (entryScope s key) :=
      h (List.map_eq_nil_iff.mp hwarnings)
    exact hf.trans ⟨fun h _ _ => h, fun h => h predicate hkey⟩
  | undefined => cases hwarnings

/-- The template of a node repeats what those of its entries do. -/
lemma repeated_parts {R : Json → Scope → Fragment → Prop} {s : Scope} {entries : Entries}
    {identity : Identity} {parts : List EntryPart}
    (hparts : List.Forall₂ (CompiledEntry R s identity) (ownEntries entries) parts)
    {declaration : Option Json} {node : PatternTerm} :
    (nodeFragment declaration node parts).template.repeated = 0 ↔
      ∀ part ∈ parts, part.template.repeated = 0 := by
  have hkeys : ∀ entry ∈ parts.map (fun part => (part.key, part.template)),
      entry.1 ≠ "@context" := by
    intro entry hentry
    obtain ⟨part, hmem, rfl⟩ := List.mem_map.mp hentry
    obtain ⟨own, hown, hcompiled⟩ := exists_mem_left hparts hmem
    rw [hcompiled.key_eq]
    exact of_decide_eq_true (List.mem_filter.mp hown).2
  exact (Template.entryRepeated_eq_zero_iff hkeys).trans List.forall_mem_map

lemma ListFragment.warnings_eq_nil {entries : Entries} {key : String} {v : Variable}
    {item : PatternTerm} {f f' : Fragment} (h : ListFragment g entries key v item f f')
    (hwarnings : f'.warnings = []) : f.warnings = [] := by
  cases h <;> exact List.map_eq_nil_iff.mp hwarnings

variable (hg : g.Usual)

section

variable {inner : Compiler} {s : Scope} {f : Fragment}
  (hinner : ∀ value s f, inner .resource value s = .ok f → value.KeysDistinct →
    f.RepeatsBesideLists g value s)

include hg hinner

/-- A node without warnings repeats no placeholders but those beside the lists of its entries. -/
lemma repeated_nodeObject
    (htype : ∀ value s f, inner .typeEntry value s = .ok f → compileType value s = .ok f)
    {entries : Entries} (h : compileNodeObject g inner entries s = .ok f)
    (hkeys : (Json.object entries).KeysDistinct) (hwarnings : f.warnings = []) :
    f.template.repeated = 0 ↔
      ∀ value s', NodeEntry g entries s value s' → AsksInLists g value s' := by
  obtain ⟨context, identity, parts, hcontext, hidentity, hparts, rfl⟩ :=
    compileNodeObject_eq_ok (R := fun value s f => value.KeysDistinct →
      f.RepeatsBesideLists g value s) hg hinner htype h
  have hparts := imp_entries_of_keysDistinct hparts hkeys fun _ _ _ hvalue hf => hf hvalue
  change entryWarnings [] parts = [] at hwarnings
  have hpart : ∀ part ∈ parts, part.warnings = [] := fun part hpart =>
    List.eq_nil_iff_forall_not_mem.mpr fun w hw =>
      List.not_mem_nil (hwarnings ▸ mem_entryWarnings hpart hw)
  refine (repeated_parts hparts).trans ?_
  constructor
  · rintro h value s' ⟨context', key, predicate, hcontext', hmem, hkey, rfl⟩
    cases hcontext.symm.trans hcontext'
    obtain ⟨part, hmem', hentry⟩ := exists_mem_right hparts hmem
    exact (repeated_entry hidentity hmem hentry (hpart part hmem')).mp (h part hmem') predicate hkey
  · intro h part hmem'
    obtain ⟨⟨key, value⟩, hmem, hentry⟩ := exists_mem_left hparts hmem'
    exact (repeated_entry hidentity hmem hentry (hpart part hmem')).mpr fun predicate hkey =>
      h _ _ ⟨context, key, predicate, hcontext, hmem, hkey, rfl⟩

lemma repeated_nodeArray {items : List Json} (h : compileNodeArray g inner items s = .ok f)
    (hkeys : ∀ item ∈ items, item.KeysDistinct) (hwarnings : f.warnings = []) :
    ∃ template, items = [template] ∧ (f.template.repeated = 0 ↔ AsksInLists g template s) := by
  obtain ⟨template, f', rfl, hf', rfl⟩ :=
    compileNodeArray_eq_ok (R := fun value s f => value.KeysDistinct →
      f.RepeatsBesideLists g value s) hg hinner h
  exact ⟨template, rfl, hf' (hkeys _ List.mem_cons_self) (List.map_eq_nil_iff.mp hwarnings)⟩

end

include hg

lemma Compiled.repeatsBesideLists {value : Json} {s : Scope} {f : Fragment}
    (h : Compiled g value s f) (hkeys : value.KeysDistinct) : f.RepeatsBesideLists g value s := by
  induction h with
  | null => exact fun hwarnings => nomatch hwarnings
  | scalar hkind h =>
    intro hwarnings
    refine iff_of_true (repeated_primitive hkind h hwarnings) ?_
    rcases hkind with hkind | hkind <;>
    · rw [asksInLists_iff_children (by simp [hkind])]
      simp [ChildOf, hkind]
  | node hkind inner _ htype h ih =>
    obtain rfl := Kind.describes_of_eq hkind
    intro hwarnings
    rw [asksInLists_iff_children (by simp [hkind]),
      repeated_nodeObject hg ih htype h hkeys hwarnings]
    simp [ChildOf, hkind]
  | array hkind inner _ h ih =>
    obtain rfl := eq_of_nodeArray hkind
    intro hwarnings
    obtain ⟨template, rfl, hmember⟩ :=
      repeated_nodeArray hg ih h (Json.keysDistinct_array.mp hkeys) hwarnings
    rw [asksInLists_iff_children (by simp [hkind])]
    refine hmember.trans ?_
    simp [ChildOf, hkind]
  | @list _ s _ entries hkind inner _ h ih =>
    obtain ⟨key, list, template, f', hentry, htemplate, hf', hlist⟩ := compileList_eq_ok hg ih h
    obtain rfl := Kind.describes_of_eq hkind
    obtain ⟨hnodup, hvalues⟩ := Json.keysDistinct_object.mp hkeys
    intro hwarnings
    have hitems := hf' (keysDistinct_itemTemplate htemplate
      (hvalues _ (List.mem_of_find?_eq_some hentry))) (hlist.warnings_eq_nil hwarnings)
    have hchildren : (∀ value' s', ChildOf g (.object entries) s value' s' →
        AsksInLists g value' s') ↔ AsksInLists g template (itemScope s) := by
      simp only [ChildOf, hkind]
      constructor
      · exact fun h => h _ _ ⟨⟨key, list, hentry, htemplate⟩, rfl⟩
      · rintro h value' s' ⟨⟨key', list', hentry', htemplate'⟩, rfl⟩
        cases hentry.symm.trans hentry'
        cases htemplate.symm.trans htemplate'
        exact h
    rw [asksInLists_iff, asksBesideList_iff hkind hentry, hchildren, ← hitems,
      (hlist.placeholders hnodup hentry).2]
    omega
  | @listArray _ _ _ items hkind inner _ h ih =>
    obtain ⟨key, list, template, f', hentry, htemplate, hf', hlist⟩ := compileList_eq_ok hg ih h
    obtain rfl := Kind.describes_of_eq hkind
    cases List.mem_singleton.mp (List.mem_of_find?_eq_some hentry)
    intro hwarnings
    have hitems := hf' (keysDistinct_itemTemplate htemplate hkeys)
      (hlist.warnings_eq_nil (List.map_eq_nil_iff.mp hwarnings))
    obtain rfl := eq_singleton_of_itemTemplate htemplate
    rw [asksInLists_iff_children (by simp [hkind])]
    refine (Eq.congr hlist.placeholders_wrapList.2 rfl).trans (hitems.trans ?_)
    simp [ChildOf, hkind]
  | unsupported => exact fun hwarnings => nomatch hwarnings

end

/-! ### Documents -/

lemma placeholders_graphItems (value : Json) :
    (Json.array (graphItems value)).placeholders = value.placeholders := by
  unfold graphItems
  split
  · rfl
  · exact Json.placeholders_singleton _

/-- Beside its graph, a graph container has at most a declaration. -/
lemma placeholders_graphContainer {entries : Entries} (hcontainer : isGraphContainer entries)
    (hkeys : (entries.map Prod.fst).Nodup) {value : Json}
    (hvalue : entries.get? "@graph" = some value) :
    (Json.object entries).placeholders = value.placeholders := by
  rw [placeholders_insert hkeys (mem_of_lookup_eq_some hvalue) (by decide),
    ← Json.placeholders_ownEntries]
  have hkey : ∀ entry ∈ entries, entry.1 = "@context" ∨ entry.1 = "@graph" := by
    simp only [isGraphContainer, Bool.and_eq_true] at hcontainer
    simpa using hcontainer.2
  have hbeside : ownEntries (entries.filter fun entry => entry.1 ≠ "@graph") = [] :=
    List.filter_eq_nil_iff.mpr fun entry hentry => by
      obtain ⟨hmem, hgraph⟩ := List.mem_filter.mp hentry
      simpa using (hkey entry hmem).resolve_right (of_decide_eq_true hgraph)
  rw [hbeside]
  rfl

section

variable {g : Grammar} (hg : g.Usual) {context : Context} {document : Json}

include hg

lemma CompiledDocument.counts {s : Scope} {f : Fragment} (h : CompiledDocument g document s f)
    (hkeys : document.KeysDistinct) : f.template.Counts document := by
  have hcompiled : ∀ {inner : Compiler},
      (∀ value s f, inner .resource value s = .ok f → Compiled g value s f) →
      ∀ value s f, inner .resource value s = .ok f → value.KeysDistinct → f.template.Counts value :=
    fun hinner value s f hf => (hinner value s f hf).counts hg
  cases h with
  | array inner hinner h =>
    exact counts_nodeArray hg (hcompiled hinner) h (Json.keysDistinct_array.mp hkeys)
  | @graph entries value _ _ f hcontainer hvalue _ inner hinner h =>
    obtain ⟨hnodup, hvalues⟩ := Json.keysDistinct_object.mp hkeys
    have hgraph : value.KeysDistinct := hvalues _ (mem_of_lookup_eq_some hvalue)
    have hitems : f.template.Counts (.array (graphItems value)) :=
      counts_nodeArray hg (hcompiled hinner) h fun item => keysDistinct_graphItems hgraph
    unfold Template.Counts at hitems ⊢
    rw [placeholders_graphContainer hcontainer hnodup hvalue, ← placeholders_graphItems]
    exact hitems
  | node _ inner hinner htype h => exact counts_nodeObject hg (hcompiled hinner) htype h hkeys
  | scalar => exact counts_constant document

lemma CompiledDocument.repeated_eq_zero_iff {f : Fragment}
    (h : CompiledDocument g document (.root context) f) (hkeys : document.KeysDistinct)
    (hwarnings : f.warnings = []) : f.template.repeated = 0 ↔
      ∀ part s, PartOfDocument g context document part s → ¬ AsksBesideList s part := by
  have hcompiled : ∀ {inner : Compiler},
      (∀ value s f, inner .resource value s = .ok f → Compiled g value s f) →
      ∀ value s f, inner .resource value s = .ok f → value.KeysDistinct →
        f.RepeatsBesideLists g value s :=
    fun hinner value s f hf => (hinner value s f hf).repeatsBesideLists hg
  cases h with
  | array inner hinner h =>
    obtain ⟨template, rfl, hmember⟩ := repeated_nodeArray hg (hcompiled hinner) h
      (Json.keysDistinct_array.mp hkeys) hwarnings
    refine hmember.trans ⟨fun h part s hpart => ?_, fun h part s hpart => h part s (.array hpart)⟩
    cases hpart with
    | array hpart => exact h part s hpart
  | @graph entries value _ _ f hcontainer hvalue hcontext inner hinner h =>
    obtain ⟨-, hvalues⟩ := Json.keysDistinct_object.mp hkeys
    have hgraph : value.KeysDistinct := hvalues _ (mem_of_lookup_eq_some hvalue)
    obtain ⟨template, htemplate, hmember⟩ := repeated_nodeArray hg (hcompiled hinner) h
      (fun item => keysDistinct_graphItems hgraph) (List.map_eq_nil_iff.mp hwarnings)
    refine hmember.trans ⟨fun h part s hpart => ?_, fun h part s hpart =>
      h part s (.graph hcontainer hvalue hcontext htemplate hpart)⟩
    cases hpart with
    | graph _ hvalue' hcontext' htemplate' hpart =>
      cases hvalue.symm.trans hvalue'
      cases hcontext.symm.trans hcontext'
      cases htemplate.symm.trans htemplate'
      exact h part s hpart
    | node hother => exact absurd hcontainer hother
  | node hcontainer inner hinner htype h =>
    have hentries := repeated_nodeObject hg (hcompiled hinner) htype h hkeys hwarnings
    refine hentries.trans ⟨fun h part s hpart => ?_, fun h value s hentry part s' hpart =>
      h part s' (.node hcontainer hentry hpart)⟩
    cases hpart with
    | graph hother => exact absurd hother hcontainer
    | node _ hentry hpart => exact h _ _ hentry part s hpart
  | scalar => cases hwarnings

variable {q : Query} (hq : g.compile context document = .ok q) (hkeys : document.KeysDistinct)

include hq hkeys

/-- Every placeholder of a document is filled in or repeated. -/
theorem Grammar.compile_counts :
    document.placeholders = q.template.placeholders + q.template.repeated := by
  obtain ⟨f, hf, rfl⟩ := hg.compile_eq_ok hq
  exact hf.counts hg hkeys

/-- Without warnings, the template fills in all placeholders of a document exactly if no list object
has a placeholder beside its list. -/
theorem Grammar.compile_placeholders (hwarnings : q.warnings = []) :
    document.placeholders = q.template.placeholders ↔
      ∀ part s, PartOfDocument g context document part s → ¬ AsksBesideList s part := by
  have hcounts := Grammar.compile_counts hg hq hkeys
  obtain ⟨f, hf, rfl⟩ := hg.compile_eq_ok hq
  rw [← hf.repeated_eq_zero_iff hg hkeys hwarnings, hcounts]
  exact Nat.add_eq_left

end

section

/-- Asks for a node, its values and the items of a list with a note. -/
def notedList : Json :=
  .object [("@id", .string "?"), ("ex:p", .array [.string "?"]),
    ("ex:l", .object [("@context", .object [("@vocab", .string "?")]), ("note", .string "!"),
      ("@list", .array [.object [("@type", .string "?")]])])]

/-- All of its placeholders are filled in. -/
theorem Grammar.compile_placeholders_noted_list :
    ∃ q, Grammar.standard.compile .empty notedList = .ok q ∧ notedList.KeysDistinct ∧
      q.warnings = [] ∧ notedList.placeholders = 3 ∧ q.template.placeholders = 3 ∧
      ∀ part s, PartOfDocument .standard .empty notedList part s → ¬ AsksBesideList s part := by
  obtain ⟨q, hq, hwarnings, hfilled⟩ : ∃ q, Grammar.standard.compile .empty notedList = .ok q ∧
      q.warnings = [] ∧ q.template.placeholders = 3 := ⟨_, rfl, rfl, rfl⟩
  have hkeys : notedList.KeysDistinct := by
    simp [notedList, Json.KeysDistinct, Json.ItemsKeysDistinct, Json.EntriesKeysDistinct]
  have hasked : notedList.placeholders = 3 := rfl
  exact ⟨q, hq, hkeys, hwarnings, hasked, hfilled, (Grammar.compile_placeholders
    Grammar.standard_usual hq hkeys hwarnings).mp (hasked.trans hfilled.symm)⟩

/-- A list with a placeholder beside it. -/
def askedNote : Json :=
  .object [("@id", .string "ex:s"),
    ("ex:l", .object [("@list", .array [.string "?"]), ("note", .string "?")])]

/-- The placeholder beside the list is repeated, but there is no warning. -/
theorem Grammar.note_repeated_without_warning :
    ∃ q, Grammar.standard.compile .empty askedNote = .ok q ∧ askedNote.KeysDistinct ∧
      q.warnings = [] ∧ askedNote.placeholders = 2 ∧ q.template.placeholders = 1 := by
  refine ⟨_, rfl, ?_, rfl, rfl, rfl⟩
  simp [askedNote, Json.KeysDistinct, Json.EntriesKeysDistinct, Json.ItemsKeysDistinct]

end

end Exemplar
