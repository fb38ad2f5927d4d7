import Exemplar.Proofs.Compilation.Sharing

/-!
# Places of warnings

The path of a warning leads from the root of the document to a value of the document. The element
of a list or of a graph container may be written without an array around it; what is inside such an
element has a path through the first element of an array, which leads nowhere.
-/

namespace Exemplar

/-! ### Elements without an array -/

/-- The values inside a value by their paths, each with its own scope: as far as the items of the
lists on the way to them are written as arrays. -/
inductive PartAt (g : Grammar) : Json → Scope → List PathSegment → Json → Scope → Prop
  | here {value : Json} {s : Scope} : PartAt g value s [] value s
  | entry {value value' part : Json} {s s' : Scope} {entries : Entries} {context : Context}
    {key : String} {predicate : Iri} {path : List PathSegment}
    (hkind : Kind.of s value = .nodeObject entries)
    (hcontext : g.extendContext s.context (declaration? entries) = .ok context)
    (hmem : (key, value') ∈ ownEntries entries)
    (hkey : context.expand? .vocab key = some (.iri predicate))
    (h : PartAt g value' (entryScope ⟨s.v, context, none⟩ key) path part s') :
    PartAt g value s (.key key :: path) part s'
  | member {value template part : Json} {s s' : Scope} {path : List PathSegment}
    (hkind : Kind.of s value = .nodeArray [template]) (h : PartAt g template s path part s') :
    PartAt g value s (.index 0 :: path) part s'
  | item {value template part : Json} {s s' : Scope} {entries : Entries} {key : String}
    {path : List PathSegment} (hkind : Kind.of s value = .listObject entries)
    (hentry : keywordEntry? s.context entries .list = some (key, .array [template]))
    (h : PartAt g template (itemScope s) path part s') :
    PartAt g value s (.key key :: .index 0 :: path) part s'
  | listItem {value template part : Json} {s s' : Scope} {path : List PathSegment}
    (hkind : Kind.of s value = .listArray [template])
    (h : PartAt g template (itemScope s) path part s') :
    PartAt g value s (.index 0 :: path) part s'

/-- Whether a path leads to the item of a list that is written without an array. -/
def BareAt (g : Grammar) (value : Json) (s : Scope) (path : List PathSegment) : Prop :=
  ∃ before part s' entries key item, PartAt g value s before part s' ∧
    Kind.of s' part = .listObject entries ∧
    keywordEntry? s'.context entries .list = some (key, item) ∧
    (∀ items, item ≠ .array items) ∧ path = before ++ [.key key]

/-- Whether a path of a document leads to the element of a list or of the graph container that is
written without an array. -/
inductive BareAtDocument (g : Grammar) (context : Context) : Json → List PathSegment → Prop
  | container {entries : Entries} {element : Json} (hcontainer : isGraphContainer entries)
    (hvalue : entries.get? "@graph" = some element) (hbare : ∀ items, element ≠ .array items) :
    BareAtDocument g context (.object entries) [.key "@graph"]
  | graph {entries : Entries} {template : Json} {inside : Context} {path : List PathSegment}
    (hcontainer : isGraphContainer entries)
    (hvalue : entries.get? "@graph" = some (.array [template]))
    (hcontext : g.extendContext context (declaration? entries) = .ok inside)
    (h : BareAt g template (.root inside) path) :
    BareAtDocument g context (.object entries) (.key "@graph" :: .index 0 :: path)
  | array {template : Json} {path : List PathSegment} (h : BareAt g template (.root context) path) :
    BareAtDocument g context (.array [template]) (.index 0 :: path)
  | entry {entries : Entries} {value : Json} {inside : Context} {key : String} {predicate : Iri}
    {path : List PathSegment} (hcontainer : ¬ isGraphContainer entries)
    (hcontext : g.extendContext context (declaration? entries) = .ok inside)
    (hmem : (key, value) ∈ ownEntries entries)
    (hkey : inside.expand? .vocab key = some (.iri predicate))
    (h : BareAt g value (entryScope (.root inside) key) path) :
    BareAtDocument g context (.object entries) (.key key :: path)

section

variable {g : Grammar} {value : Json} {s : Scope} {path : List PathSegment}

lemma BareAt.step {value' : Json} {s' : Scope} {segments : List PathSegment}
    (hstep : ∀ {path part s''}, PartAt g value' s' path part s'' →
      PartAt g value s (segments ++ path) part s'')
    (h : BareAt g value' s' path) : BareAt g value s (segments ++ path) := by
  obtain ⟨before, part, s'', entries, key, item, hpart, hkind, hentry, hbare, rfl⟩ := h
  exact ⟨segments ++ before, part, s'', entries, key, item, hstep hpart, hkind, hentry, hbare,
    (List.append_assoc _ _ _).symm⟩

lemma PartAt.at?_eq {part : Json} {s' : Scope} (h : PartAt g value s path part s')
    (hkeys : value.KeysDistinct) : value.at? path = some part ∧ part.KeysDistinct := by
  induction h with
  | here => exact ⟨Json.at?_nil _, hkeys⟩
  | @entry value _ _ s _ _ _ _ _ path hkind _ hmem _ _ ih =>
    obtain rfl := Kind.describes_of_eq hkind
    obtain ⟨hat, hvalue⟩ := Json.at?_key_of_mem hkeys (List.mem_filter.mp hmem).1 path
    rw [hat]
    exact ih hvalue
  | member hkind _ ih =>
    obtain rfl := eq_of_nodeArray hkind
    exact ih (Json.keysDistinct_array.mp hkeys _ List.mem_cons_self)
  | @item value _ _ s _ _ key path hkind hentry _ ih =>
    obtain rfl := Kind.describes_of_eq hkind
    obtain ⟨hat, hlist⟩ :=
      Json.at?_key_of_mem hkeys (List.mem_of_find?_eq_some hentry) (.index 0 :: path)
    rw [hat]
    exact ih (Json.keysDistinct_array.mp hlist _ List.mem_cons_self)
  | @listItem value _ _ s _ _ hkind _ ih =>
    obtain rfl := Kind.describes_of_eq hkind
    exact ih (Json.keysDistinct_array.mp hkeys _ List.mem_cons_self)

lemma Json.at?_index_of_ne_array (h : ∀ items, value ≠ .array items) (i : Nat) :
    value.at? (.index i :: path) = none := by
  cases value with
  | array items => exact absurd rfl (h items)
  | null | bool | number | string | object => simp [at?]

/-- No path leads through an index into an element that is written without an array. -/
lemma BareAt.at?_eq_none (h : BareAt g value s path) (hkeys : value.KeysDistinct)
    (rest : List PathSegment) : value.at? (path ++ .index 0 :: rest) = none := by
  obtain ⟨before, part, s', entries, key, item, hpart, hkind, hentry, hbare, rfl⟩ := h
  obtain ⟨hat, hpartKeys⟩ := hpart.at?_eq hkeys
  obtain rfl := Kind.describes_of_eq hkind
  rw [List.append_assoc, Json.at?_append hat, List.singleton_append,
    (Json.at?_key_of_mem hpartKeys (List.mem_of_find?_eq_some hentry) _).1,
    Json.at?_index_of_ne_array hbare]

lemma BareAtDocument.at?_eq_none {context : Context} {document : Json}
    (h : BareAtDocument g context document path) (hkeys : document.KeysDistinct)
    (rest : List PathSegment) : document.at? (path ++ .index 0 :: rest) = none := by
  cases h with
  | container _ hvalue hbare =>
    rw [List.singleton_append, (Json.at?_key_of_mem hkeys (mem_of_lookup_eq_some hvalue) _).1,
      Json.at?_index_of_ne_array hbare]
  | graph _ hvalue _ h =>
    obtain ⟨hat, harray⟩ := Json.at?_key_of_mem hkeys (mem_of_lookup_eq_some hvalue)
      (.index 0 :: (_ ++ .index 0 :: rest))
    exact hat.trans (h.at?_eq_none (Json.keysDistinct_array.mp harray _ List.mem_cons_self) rest)
  | array h => exact h.at?_eq_none (Json.keysDistinct_array.mp hkeys _ List.mem_cons_self) rest
  | entry _ _ hmem _ h =>
    obtain ⟨hat, hvalue⟩ :=
      Json.at?_key_of_mem hkeys (List.mem_filter.mp hmem).1 (_ ++ .index 0 :: rest)
    exact hat.trans (h.at?_eq_none hvalue rest)

end

/-! ### Warnings -/

/-- Whether a path leads to a value, or into the item of a list that is written without an array. -/
def Located (g : Grammar) (value : Json) (s : Scope) (path : List PathSegment) : Prop :=
  (∃ part, value.at? path = some part) ∨
    ∃ bare rest, BareAt g value s bare ∧ path = bare ++ .index 0 :: rest

lemma located_nil (g : Grammar) (value : Json) (s : Scope) : Located g value s [] :=
  .inl ⟨value, Json.at?_nil value⟩

lemma Located.step {g : Grammar} {value value' : Json} {s s' : Scope} {path : List PathSegment}
    (h : Located g value' s' path) (segments : List PathSegment)
    (hat : value.at? (segments ++ path) = value'.at? path)
    (hstep : ∀ {path part s''}, PartAt g value' s' path part s'' →
      PartAt g value s (segments ++ path) part s'') : Located g value s (segments ++ path) := by
  rcases h with ⟨part, hpart⟩ | ⟨bare, rest, hbare, rfl⟩
  · exact .inl ⟨part, hat.trans hpart⟩
  · exact .inr ⟨segments ++ bare, rest, hbare.step hstep, (List.append_assoc _ _ _).symm⟩

/-- A warning about a node is about one of its entries, or about the value of one. -/
lemma exists_part_of_mem_entryWarnings {known : List (Variable × String)} {parts : List EntryPart}
    {w : Warning} (h : w ∈ entryWarnings known parts) :
    ∃ part ∈ parts, w ∈ part.warnings ∨ w.path = [.key part.key] := by
  induction parts generalizing known with
  | nil => cases h
  | cons first rest ih =>
    have hrest : ∀ {known}, w ∈ entryWarnings known rest →
        ∃ part ∈ first :: rest, w ∈ part.warnings ∨ w.path = [.key part.key] := by
      intro known h
      obtain ⟨part, hpart, h⟩ := ih h
      exact ⟨part, List.mem_cons_of_mem _ hpart, h⟩
    rw [entryWarnings] at h
    split at h
    · rcases List.mem_append.mp h with h | h
      · exact ⟨first, List.mem_cons_self, .inl h⟩
      · exact hrest h
    · simp only [List.mem_append] at h
      rcases h with (h | h) | h
      · split at h
        · exact ⟨first, List.mem_cons_self, .inr (by rw [List.mem_singleton.mp h])⟩
        · cases h
      · exact ⟨first, List.mem_cons_self, .inl h⟩
      · exact hrest h

lemma compileType_warnings {value : Json} {s : Scope} {f : Fragment}
    (h : compileType value s = .ok f) : f.warnings = [] := by
  rcases compileType_eq_ok h with ⟨-, rfl⟩ | ⟨name, iri, -, -, -, rfl⟩ <;> rfl

/-- Where the warnings of an entry lead: to its value, or on from the value of a predicate. -/
lemma CompiledEntry.path_eq {R : Json → Scope → Fragment → Prop} {s : Scope} {identity : Identity}
    {key : String} {value : Json} {part : EntryPart}
    (h : CompiledEntry R s identity (key, value) part) {w : Warning}
    (hw : w ∈ part.warnings ∨ w.path = [.key part.key]) :
    w.path = [.key key] ∨ ∃ predicate f w', s.context.expand? .vocab key = some (.iri predicate) ∧
      R value (entryScope s key) f ∧ w' ∈ f.warnings ∧ w.path = .key key :: w'.path := by
  cases h with
  | id =>
    cases identity <;> exact .inl (hw.resolve_left (by simp [EntryPart.id]))
  | type _ h =>
    refine .inl (hw.resolve_left ?_)
    simp [EntryPart.link, compileType_warnings h]
  | keyword =>
    rcases hw with hw | hw
    · rw [List.mem_singleton.mp hw]
      exact .inl rfl
    · exact .inl hw
  | @link _ _ predicate f hkey h =>
    rcases hw with hw | hw
    · obtain ⟨w', hw', rfl⟩ := List.mem_map.mp hw
      exact .inr ⟨predicate, f, w', hkey, h, hw', rfl⟩
    · exact .inl hw
  | undefined =>
    rcases hw with hw | hw
    · rw [List.mem_singleton.mp hw]
      exact .inl rfl
    · exact .inl hw

lemma ListFragment.exists_warning {g : Grammar} {entries : Entries} {key : String} {v : Variable}
    {item : PatternTerm} {f f' : Fragment} (h : ListFragment g entries key v item f f')
    {w : Warning} (hw : w ∈ f'.warnings) :
    ∃ w' ∈ f.warnings, w = (w'.nested (.index 0)).nested (.key key) := by
  cases h <;>
  · obtain ⟨w', hw', rfl⟩ := List.mem_map.mp hw
    exact ⟨w', hw', rfl⟩

/-! ### Documents -/

section

variable {g : Grammar} (hg : g.Usual)

include hg

/-- Where the warnings of a node object lead, by its entries. -/
lemma path_of_nodeObject {R : Json → Scope → Fragment → Prop} {inner : Compiler}
    (hinner : ∀ value s f, inner .resource value s = .ok f → R value s f)
    (htype : ∀ value s f, inner .typeEntry value s = .ok f → compileType value s = .ok f)
    {entries : Entries} {s : Scope} {f : Fragment}
    (h : compileNodeObject g inner entries s = .ok f) {w : Warning} (hw : w ∈ f.warnings) :
    ∃ context key value, g.extendContext s.context (declaration? entries) = .ok context ∧
      (key, value) ∈ ownEntries entries ∧
      (w.path = [.key key] ∨ ∃ predicate f' w',
        context.expand? .vocab key = some (.iri predicate) ∧
        R value (entryScope ⟨s.v, context, none⟩ key) f' ∧ w' ∈ f'.warnings ∧
        w.path = .key key :: w'.path) := by
  obtain ⟨context, identity, parts, hcontext, -, hparts, rfl⟩ :=
    compileNodeObject_eq_ok hg hinner htype h
  obtain ⟨part, hpart, hw⟩ := exists_part_of_mem_entryWarnings hw
  obtain ⟨⟨key, value⟩, hmem, hentry⟩ := exists_mem_left hparts hpart
  exact ⟨context, key, value, hcontext, hmem, hentry.path_eq hw⟩

/-- The warnings about a value lead to its parts. -/
lemma Compiled.located {value : Json} {s : Scope} {f : Fragment} (h : Compiled g value s f)
    (hkeys : value.KeysDistinct) {w : Warning} (hw : w ∈ f.warnings) :
    Located g value s w.path := by
  induction h generalizing w with
  | null =>
    rw [List.mem_singleton.mp hw]
    exact located_nil g _ _
  | scalar _ h =>
    rcases compilePrimitive_eq_ok h with ⟨-, rfl⟩ | ⟨t, -, -, rfl⟩ | ⟨-, rfl⟩
    · cases hw
    · cases hw
    · rw [List.mem_singleton.mp hw]
      exact located_nil g _ _
  | node hkind inner hinner htype h ih =>
    obtain rfl := Kind.describes_of_eq hkind
    obtain ⟨context, key, value, hcontext, hmem, hpath⟩ := path_of_nodeObject hg ih htype h hw
    have hat := fun path => Json.at?_key_of_mem hkeys (List.mem_filter.mp hmem).1 path
    rcases hpath with hpath | ⟨predicate, f', w', hkey, hf', hw', hpath⟩ <;> rw [hpath]
    · exact .inl ⟨value, (hat []).1.trans (Json.at?_nil value)⟩
    · exact (hf' (hat []).2 hw').step [.key key] (hat w'.path).1
        fun h => .entry hkind hcontext hmem hkey h
  | array hkind inner hinner h ih =>
    obtain rfl := Kind.describes_of_eq hkind
    obtain ⟨template, f', rfl, hf', rfl⟩ := compileNodeArray_eq_ok hg ih h
    obtain ⟨w', hw', rfl⟩ := List.mem_map.mp hw
    exact (hf' (Json.keysDistinct_array.mp hkeys _ List.mem_cons_self) hw').step [.index 0] rfl
      fun h => .member hkind h
  | @list _ s _ entries hkind inner hinner h ih =>
    obtain rfl := Kind.describes_of_eq hkind
    obtain ⟨key, list, template, f', hentry, htemplate, hf', hlist⟩ := compileList_eq_ok hg ih h
    obtain ⟨w', hw', rfl⟩ := hlist.exists_warning hw
    obtain ⟨hat, hlistKeys⟩ :=
      Json.at?_key_of_mem hkeys (List.mem_of_find?_eq_some hentry) (.index 0 :: w'.path)
    by_cases hbare : ∀ items, list ≠ .array items
    · exact .inr ⟨[.key key], w'.path, ⟨[], _, s, entries, key, list, .here, hkind, hentry, hbare,
        rfl⟩, rfl⟩
    · push Not at hbare
      obtain ⟨items, rfl⟩ := hbare
      obtain rfl := eq_singleton_of_itemTemplate htemplate
      exact (hf' (Json.keysDistinct_array.mp hlistKeys _ List.mem_cons_self) hw').step
        [.key key, .index 0] hat fun h => .item hkind hentry h
  | @listArray _ s _ items hkind inner hinner h ih =>
    obtain rfl := Kind.describes_of_eq hkind
    obtain ⟨key, list, template, f', hentry, htemplate, hf', hlist⟩ := compileList_eq_ok hg ih h
    cases List.mem_singleton.mp (List.mem_of_find?_eq_some hentry)
    obtain rfl := eq_singleton_of_itemTemplate htemplate
    obtain ⟨w₀, hw₀, rfl⟩ := List.mem_map.mp hw
    obtain ⟨w', hw', rfl⟩ := hlist.exists_warning hw₀
    exact (hf' (Json.keysDistinct_array.mp hkeys _ List.mem_cons_self) hw').step [.index 0] rfl
      fun h => .listItem hkind h
  | unsupported =>
    rw [List.mem_singleton.mp hw]
    exact located_nil g _ _

/-- The warnings about a document lead to its values, or into elements without an array. -/
lemma CompiledDocument.located {document : Json} {context : Context} {f : Fragment}
    (h : CompiledDocument g document (.root context) f) (hkeys : document.KeysDistinct)
    {w : Warning} (hw : w ∈ f.warnings) :
    (∃ part, document.at? w.path = some part) ∨
      ∃ bare rest, BareAtDocument g context document bare ∧ w.path = bare ++ .index 0 :: rest := by
  cases h with
  | array inner hinner h =>
    obtain ⟨template, f', rfl, hf', rfl⟩ := compileNodeArray_eq_ok hg hinner h
    obtain ⟨w', hw', rfl⟩ := List.mem_map.mp hw
    rcases hf'.located hg (Json.keysDistinct_array.mp hkeys _ List.mem_cons_self) hw' with
      hpart | ⟨bare, rest, hbare, hpath⟩
    · exact .inl hpart
    · exact .inr ⟨.index 0 :: bare, rest, .array hbare, congrArg _ hpath⟩
  | @graph entries value _ inside _ hcontainer hvalue hcontext inner hinner h =>
    obtain ⟨template, f', hitems, hf', rfl⟩ := compileNodeArray_eq_ok hg hinner h
    obtain ⟨w₀, hw₀, rfl⟩ := List.mem_map.mp hw
    obtain ⟨w', hw', rfl⟩ := List.mem_map.mp hw₀
    obtain ⟨hat, hvalueKeys⟩ :=
      Json.at?_key_of_mem hkeys (mem_of_lookup_eq_some hvalue) (.index 0 :: w'.path)
    by_cases hbare : ∀ items, value ≠ .array items
    · exact .inr ⟨[.key "@graph"], w'.path, .container hcontainer hvalue hbare, rfl⟩
    · push Not at hbare
      obtain ⟨items, rfl⟩ := hbare
      obtain rfl : items = [template] := hitems
      rcases hf'.located hg (Json.keysDistinct_array.mp hvalueKeys _ List.mem_cons_self) hw' with
        ⟨part, hpart⟩ | ⟨bare, rest, hbare, hpath⟩
      · exact .inl ⟨part, hat.trans hpart⟩
      · exact .inr ⟨.key "@graph" :: .index 0 :: bare, rest,
          .graph hcontainer hvalue hcontext hbare,
          congrArg _ (congrArg _ hpath)⟩
  | node hcontainer inner hinner htype h =>
    obtain ⟨inside, key, value, hcontext, hmem, hpath⟩ := path_of_nodeObject hg hinner htype h hw
    have hat := fun path => Json.at?_key_of_mem hkeys (List.mem_filter.mp hmem).1 path
    rcases hpath with hpath | ⟨predicate, f', w', hkey, hf', hw', hpath⟩ <;> rw [hpath]
    · exact .inl ⟨value, (hat []).1.trans (Json.at?_nil value)⟩
    · rcases hf'.located hg (hat []).2 hw' with ⟨part, hpart⟩ | ⟨bare, rest, hbare, hpath'⟩
      · exact .inl ⟨part, (hat w'.path).1.trans hpart⟩
      · exact .inr ⟨.key key :: bare, rest, .entry hcontainer hcontext hmem hkey hbare,
          congrArg _ hpath'⟩
  | scalar =>
    rw [List.mem_singleton.mp hw]
    exact .inl ⟨document, Json.at?_nil document⟩

end

/-- The path of a warning, followed from the root of the document, leads to a value of the document:
unless it leads into the element of a list or of the graph container that is written without an
array. -/
theorem Grammar.compile_located {g : Grammar} (hg : g.Usual) {context : Context} {document : Json}
    {q : Query} (hq : g.compile context document = .ok q) (hkeys : document.KeysDistinct)
    {w : Warning} (hw : w ∈ q.warnings) :
    (∃ part, document.at? w.path = some part) ↔
      ∀ bare rest, BareAtDocument g context document bare → w.path ≠ bare ++ .index 0 :: rest := by
  obtain ⟨f, hf, rfl⟩ := hg.compile_eq_ok hq
  constructor
  · rintro ⟨part, hpart⟩ bare rest hbare hpath
    rw [hpath, hbare.at?_eq_none hkeys] at hpart
    cases hpart
  · intro h
    rcases hf.located hg hkeys hw with hpart | ⟨bare, rest, hbare, hpath⟩
    · exact hpart
    · exact absurd hpath (h bare rest hbare)

section

/-- Has a value that is not supported in the item of a list, and another one in a list whose item is
written without an array. -/
def unsupportedInLists : Json :=
  .object [("@graph", .array [.object
    [("ex:p", .object [("@list", .array [.object [("ex:r", .array [.null])]])]),
      ("ex:q", .object [("@list", .object [("@value", .string "x")])])]])]

/-- The first warning leads to the value, and the second one into the item without an array. -/
theorem Grammar.compile_located_list_items :
    ∃ q w w', Grammar.standard.compile .empty unsupportedInLists = .ok q ∧
      unsupportedInLists.KeysDistinct ∧ w ∈ q.warnings ∧ w' ∈ q.warnings ∧
      ((∃ part, unsupportedInLists.at? w.path = some part) ∧ ∀ bare rest,
        BareAtDocument .standard .empty unsupportedInLists bare →
          w.path ≠ bare ++ .index 0 :: rest) ∧
      unsupportedInLists.at? w'.path = none ∧ ∃ bare rest,
        BareAtDocument .standard .empty unsupportedInLists bare ∧
          w'.path = bare ++ .index 0 :: rest := by
  obtain ⟨q, hq, hwarnings⟩ : ∃ q, Grammar.standard.compile .empty unsupportedInLists = .ok q ∧
      q.warnings = [
        ⟨.nullValue, [.key "@graph", .index 0, .key "ex:p", .key "@list", .index 0, .key "ex:r",
          .index 0]⟩,
        ⟨.valueObject, [.key "@graph", .index 0, .key "ex:q", .key "@list", .index 0]⟩] :=
    ⟨_, rfl, rfl⟩
  have hkeys : unsupportedInLists.KeysDistinct := by
    simp [unsupportedInLists, Json.KeysDistinct, Json.ItemsKeysDistinct, Json.EntriesKeysDistinct]
  obtain ⟨hw, hw'⟩ := List.forall_mem_cons.mp fun w (hw : w ∈ _) => hwarnings ▸ hw
  have hw' := List.forall_mem_singleton.mp hw'
  have hlocated := Grammar.compile_located Grammar.standard_usual hq hkeys hw
  have hbare := (Grammar.compile_located Grammar.standard_usual hq hkeys hw').not.mp
    (by rintro ⟨part, ⟨⟩⟩)
  push Not at hbare
  exact ⟨q, _, _, hq, hkeys, hw, hw', ⟨⟨_, rfl⟩, hlocated.mp ⟨_, rfl⟩⟩, rfl, hbare⟩

/-- The element of the graph container is written without an array, and so has no index. -/
theorem bare_element_not_located :
    ∃ q, Grammar.standard.compile .empty (.object [("@graph", .null)]) = .ok q ∧
      ∃ w ∈ q.warnings, (Json.object [("@graph", .null)]).at? w.path = none := by
  obtain ⟨q, hq, hwarnings⟩ : ∃ q,
      Grammar.standard.compile .empty (.object [("@graph", .null)]) = .ok q ∧
        q.warnings = [⟨.nullValue, [.key "@graph", .index 0]⟩] := ⟨_, rfl, rfl⟩
  exact ⟨q, hq, _, hwarnings ▸ List.mem_cons_self, rfl⟩

end

end Exemplar
