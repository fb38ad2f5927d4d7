import Exemplar.Proofs.Compilation.Items
import Exemplar.Proofs.Template.Grouping

/-!
# Shared variables

Where two entries of a node give their values the same variable, a warning says so. Its path leads
from the root of the document to the later entry, wherever the node is in the document.
-/

namespace Exemplar

/-! ### Entries -/

/-- Whether a warning is about two keys that share a variable. -/
def Warning.IsShared (w : Warning) : Prop :=
  ∃ previous key v, w.remark = .sharedVariable previous key v

/-- Whether a key stands for a predicate, so that its entry becomes a pattern. -/
def Scope.Translates (s : Scope) (key : String) : Prop :=
  s.context.expand? .vocab key = some (.keyword .type) ∨
    ∃ predicate, s.context.expand? .vocab key = some (.iri predicate)

/-- Whether an entry of a node becomes a pattern whose variable an entry before it has already. -/
def SharesVariable (s : Scope) (entries : Entries) (key : String) (value : Json) : Prop :=
  ∃ (i j : Nat) (earlier : String) (value' : Json), i < j ∧
    (ownEntries entries)[i]? = some (earlier, value') ∧
    (ownEntries entries)[j]? = some (key, value) ∧
    s.Translates earlier ∧ s.Translates key ∧ s.v.child earlier = s.v.child key

lemma mem_entryWarnings {known : List (Variable × String)} {parts : List EntryPart}
    {part : EntryPart} (hpart : part ∈ parts) {w : Warning} (hw : w ∈ part.warnings) :
    w ∈ entryWarnings known parts := by
  induction parts generalizing known with
  | nil => cases hpart
  | cons first rest ih =>
    rw [entryWarnings]
    rcases List.mem_cons.mp hpart with rfl | hpart
    · split
      · exact List.mem_append_left _ hw
      · exact List.mem_append_left _ (List.mem_append_right _ hw)
    · split
      · exact List.mem_append_right _ (ih hpart)
      · exact List.mem_append_right _ (ih hpart)

/-- An entry whose variable is known has a warning. -/
lemma exists_warning_of_known {known : List (Variable × String)} {parts : List EntryPart}
    {j : Nat} {part : EntryPart} {v : Variable} (hknown : (known.lookup v).isSome)
    (hj : parts[j]? = some part) (hchild : part.child = some v) :
    ∃ previous, (⟨.sharedVariable previous part.key v, [.key part.key]⟩ : Warning) ∈
      entryWarnings known parts := by
  induction parts generalizing known j with
  | nil => cases hj
  | cons first rest ih =>
    rw [entryWarnings]
    cases j with
    | zero =>
      cases hj
      obtain ⟨previous, hprevious⟩ := Option.isSome_iff_exists.mp hknown
      simp only [hchild, hprevious]
      exact ⟨previous, by simp⟩
    | succ j =>
      split
      · obtain ⟨previous, hmem⟩ := ih hknown hj
        exact ⟨previous, List.mem_append_right _ hmem⟩
      · next w _ =>
        have hknown' : (((w, first.key) :: known).lookup v).isSome := by
          rw [List.lookup_cons]
          split
          · rfl
          · exact hknown
        obtain ⟨previous, hmem⟩ := ih hknown' hj
        exact ⟨previous, List.mem_append_right _ hmem⟩

/-- Of two entries with the same variable, the later one has a warning. -/
lemma exists_warning_of_lt {known : List (Variable × String)} {parts : List EntryPart} {i j : Nat}
    {part part' : EntryPart} {v : Variable} (hij : i < j) (hi : parts[i]? = some part)
    (hj : parts[j]? = some part') (hchild : part.child = some v)
    (hchild' : part'.child = some v) :
    ∃ previous, (⟨.sharedVariable previous part'.key v, [.key part'.key]⟩ : Warning) ∈
      entryWarnings known parts := by
  induction parts generalizing known i j with
  | nil => cases hi
  | cons first rest ih =>
    rw [entryWarnings]
    obtain _ | j := j
    · exact absurd hij (Nat.not_lt_zero i)
    change rest[j]? = some part' at hj
    cases i with
    | zero =>
      cases hi
      simp only [hchild]
      have hknown : (((v, part.key) :: known).lookup v).isSome := by simp
      obtain ⟨previous, hmem⟩ := exists_warning_of_known hknown hj hchild'
      exact ⟨previous, List.mem_append_right _ hmem⟩
    | succ i =>
      split
      · obtain ⟨previous, hmem⟩ := ih (Nat.lt_of_succ_lt_succ hij) hi hj
        exact ⟨previous, List.mem_append_right _ hmem⟩
      · obtain ⟨previous, hmem⟩ := ih (Nat.lt_of_succ_lt_succ hij) hi hj
        exact ⟨previous, List.mem_append_right _ hmem⟩

/-- Without a warning, entries that have the same variable are the same. -/
lemma index_eq_of_child_eq {parts : List EntryPart}
    (hunshared : ∀ w ∈ entryWarnings [] parts, ¬ w.IsShared) {i j : Nat} {part part' : EntryPart}
    {v : Variable} (hi : parts[i]? = some part) (hj : parts[j]? = some part')
    (hchild : part.child = some v) (hchild' : part'.child = some v) : i = j := by
  rcases Nat.lt_trichotomy i j with hij | hij | hij
  · obtain ⟨previous, hwarning⟩ := exists_warning_of_lt hij hi hj hchild hchild'
    exact absurd ⟨_, _, _, rfl⟩ (hunshared _ hwarning)
  · exact hij
  · obtain ⟨previous, hwarning⟩ := exists_warning_of_lt hij hj hi hchild' hchild
    exact absurd ⟨_, _, _, rfl⟩ (hunshared _ hwarning)

lemma CompiledEntry.child_eq {R : Json → Scope → Fragment → Prop} {s : Scope} {identity : Identity}
    {key : String} {value : Json} {part : EntryPart}
    (h : CompiledEntry R s identity (key, value) part) (hkey : s.Translates key) :
    part.key = key ∧ part.child = some (s.v.child key) := by
  cases h with
  | id hid => simp [Scope.Translates, hid] at hkey
  | type => exact ⟨rfl, rfl⟩
  | keyword hother _ htype => simp [Scope.Translates, hother, htype] at hkey
  | link => exact ⟨rfl, rfl⟩
  | undefined hnone => simp [Scope.Translates, hnone] at hkey

section

variable {g : Grammar} (hg : g.Usual) {R : Json → Scope → Fragment → Prop} {inner : Compiler}
  (hinner : ∀ value s f, inner .resource value s = .ok f → R value s f)
  (htype : ∀ value s f, inner .typeEntry value s = .ok f → compileType value s = .ok f)
  {entries : Entries} {s : Scope} {f : Fragment} (h : compileNodeObject g inner entries s = .ok f)
  {context : Context} (hcontext : g.extendContext s.context (declaration? entries) = .ok context)
  {key : String} {value : Json}

include hg hinner htype h hcontext

/-- The later of two entries of a node that share their variable has a warning. -/
lemma exists_warning_of_sharesVariable
    (hshares : SharesVariable ⟨s.v, context, none⟩ entries key value) :
    ∃ previous, (⟨.sharedVariable previous key (s.v.child key), [.key key]⟩ : Warning) ∈
      f.warnings := by
  obtain ⟨context, identity, parts, hcontext', -, hparts, rfl⟩ :=
    compileNodeObject_eq_ok hg hinner htype h
  cases hcontext.symm.trans hcontext'
  obtain ⟨i, j, earlier, value', hij, hi, hj, hearlier, hkey, hsame⟩ := hshares
  obtain ⟨part, hpart, hentry⟩ := exists_getElem?_right hparts hi
  obtain ⟨part', hpart', hentry'⟩ := exists_getElem?_right hparts hj
  obtain ⟨-, hchild⟩ := hentry.child_eq hearlier
  obtain ⟨rfl, hchild'⟩ := hentry'.child_eq hkey
  rw [hsame] at hchild
  exact exists_warning_of_lt hij hpart hpart' hchild hchild'

/-- The value of a predicate has a fragment, and its warnings are those of the node. -/
lemma exists_fragment_of_mem {predicate : Iri} (hmem : (key, value) ∈ ownEntries entries)
    (hkey : context.expand? .vocab key = some (.iri predicate)) :
    ∃ f', R value (entryScope ⟨s.v, context, none⟩ key) f' ∧
      ∀ w ∈ f'.warnings, w.nested (.key key) ∈ f.warnings := by
  obtain ⟨context, identity, parts, hcontext', -, hparts, rfl⟩ :=
    compileNodeObject_eq_ok hg hinner htype h
  cases hcontext.symm.trans hcontext'
  obtain ⟨part, hpart, hentry⟩ := exists_mem_right hparts hmem
  cases hentry with
  | @link _ _ _ f' _ hf =>
    exact ⟨f', hf, fun w hw => mem_entryWarnings hpart (List.mem_map.mpr ⟨w, hw, rfl⟩)⟩
  | id hother | type hother | keyword hother | undefined hother => simp [hkey] at hother

end

/-! ### Places of nodes -/

/-- The part of a value at the end of a path. -/
def Json.at? : Json → List PathSegment → Option Json
  | value, [] => some value
  | .object entries, .key key :: rest => (entries.lookup key).bind fun value => value.at? rest
  | .array items, .index i :: rest => (items[i]?).bind fun item => item.at? rest
  | _, _ :: _ => none

lemma Json.at?_nil (value : Json) : value.at? [] = some value := by
  cases value <;> rfl

lemma Json.at?_index {items : List Json} {item : Json} {i : Nat} (h : items[i]? = some item)
    (path : List PathSegment) : (Json.array items).at? (.index i :: path) = item.at? path := by
  simp [at?, h]

lemma Json.at?_key {entries : Entries} {key : String} {value : Json}
    (h : entries.lookup key = some value) (path : List PathSegment) :
    (Json.object entries).at? (.key key :: path) = value.at? path := by
  simp [at?, h]

lemma Json.at?_append {value inner : Json} {path : List PathSegment}
    (h : value.at? path = some inner) (rest : List PathSegment) :
    value.at? (path ++ rest) = inner.at? rest := by
  induction path generalizing value with
  | nil =>
    rw [at?_nil] at h
    cases h
    rfl
  | cons segment path ih =>
    cases value with
    | object entries =>
      cases segment with
      | key key =>
        obtain ⟨value, hvalue, h⟩ := Option.bind_eq_some_iff.mp h
        rw [List.cons_append, at?_key hvalue, ih h]
      | index => cases h
    | array items =>
      cases segment with
      | index i =>
        obtain ⟨item, hitem, h⟩ := Option.bind_eq_some_iff.mp h
        rw [List.cons_append, at?_index hitem, ih h]
      | key => cases h
    | null | bool | number | string => simp [at?] at h

/-- The value of an entry is where its key leads to. -/
lemma Json.at?_key_of_mem {entries : Entries} (hkeys : (Json.object entries).KeysDistinct)
    {key : String} {value : Json} (hmem : (key, value) ∈ entries) (path : List PathSegment) :
    (Json.object entries).at? (.key key :: path) = value.at? path ∧ value.KeysDistinct := by
  obtain ⟨hnodup, hvalues⟩ := keysDistinct_object.mp hkeys
  exact ⟨at?_key ((mem_iff_lookup_eq_some hnodup).mp hmem) path, hvalues _ hmem⟩

/-- The node objects of a value by their paths, each with its own scope: as far as the items of the
lists on the way to them are written as arrays. -/
inductive NodeAt (g : Grammar) : Json → Scope → List PathSegment → Entries → Scope → Prop
  | node {value : Json} {s : Scope} {entries : Entries} {context : Context}
    (hkind : Kind.of s value = .nodeObject entries)
    (hcontext : g.extendContext s.context (declaration? entries) = .ok context) :
    NodeAt g value s [] entries ⟨s.v, context, none⟩
  | entry {value value' : Json} {s s' : Scope} {entries node : Entries} {context : Context}
    {key : String} {predicate : Iri} {path : List PathSegment}
    (hkind : Kind.of s value = .nodeObject entries)
    (hcontext : g.extendContext s.context (declaration? entries) = .ok context)
    (hmem : (key, value') ∈ ownEntries entries)
    (hkey : context.expand? .vocab key = some (.iri predicate))
    (h : NodeAt g value' (entryScope ⟨s.v, context, none⟩ key) path node s') :
    NodeAt g value s (.key key :: path) node s'
  | member {value template : Json} {s s' : Scope} {node : Entries} {path : List PathSegment}
    (hkind : Kind.of s value = .nodeArray [template]) (h : NodeAt g template s path node s') :
    NodeAt g value s (.index 0 :: path) node s'
  | item {value template : Json} {s s' : Scope} {entries node : Entries} {key : String}
    {path : List PathSegment} (hkind : Kind.of s value = .listObject entries)
    (hentry : keywordEntry? s.context entries .list = some (key, .array [template]))
    (h : NodeAt g template (itemScope s) path node s') :
    NodeAt g value s (.key key :: .index 0 :: path) node s'
  | listItem {value template : Json} {s s' : Scope} {node : Entries} {path : List PathSegment}
    (hkind : Kind.of s value = .listArray [template])
    (h : NodeAt g template (itemScope s) path node s') :
    NodeAt g value s (.index 0 :: path) node s'

/-- The node objects of a whole document by their paths: as far as the elements of graphs and lists
on the way to them are written as arrays. -/
inductive NodeAtDocument (g : Grammar) (context : Context) :
    Json → List PathSegment → Entries → Scope → Prop
  | array {template : Json} {node : Entries} {s : Scope} {path : List PathSegment}
    (h : NodeAt g template (.root context) path node s) :
    NodeAtDocument g context (.array [template]) (.index 0 :: path) node s
  | graph {entries node : Entries} {template : Json} {inside : Context} {s : Scope}
    {path : List PathSegment} (hcontainer : isGraphContainer entries)
    (hvalue : entries.get? "@graph" = some (.array [template]))
    (hcontext : g.extendContext context (declaration? entries) = .ok inside)
    (h : NodeAt g template (.root inside) path node s) :
    NodeAtDocument g context (.object entries) (.key "@graph" :: .index 0 :: path) node s
  | root {entries : Entries} {inside : Context} (hcontainer : ¬ isGraphContainer entries)
    (hcontext : g.extendContext context (declaration? entries) = .ok inside) :
    NodeAtDocument g context (.object entries) [] entries (.root inside)
  | entry {entries node : Entries} {value : Json} {inside : Context} {s : Scope} {key : String}
    {predicate : Iri} {path : List PathSegment} (hcontainer : ¬ isGraphContainer entries)
    (hcontext : g.extendContext context (declaration? entries) = .ok inside)
    (hmem : (key, value) ∈ ownEntries entries)
    (hkey : inside.expand? .vocab key = some (.iri predicate))
    (h : NodeAt g value (entryScope (.root inside) key) path node s) :
    NodeAtDocument g context (.object entries) (.key key :: path) node s

section

variable {g : Grammar} (hg : g.Usual) {value : Json} {s s' : Scope} {node : Entries}
  {path : List PathSegment}

include hg in
/-- The later of two entries that share their variable has a warning, wherever their node is. -/
lemma NodeAt.exists_warning (h : NodeAt g value s path node s') {f : Fragment}
    (hf : Compiled g value s f) {key : String} {value' : Json}
    (hshares : SharesVariable s' node key value') :
    ∃ previous, (⟨.sharedVariable previous key (s'.v.child key), path ++ [.key key]⟩ : Warning) ∈
      f.warnings := by
  induction h generalizing f with
  | node hkind hcontext =>
    obtain ⟨inner, hinner, htype, hf⟩ := hf.yields_of_eq hkind
    exact exists_warning_of_sharesVariable hg hinner htype hf hcontext hshares
  | entry hkind hcontext hmem hkey _ ih =>
    obtain ⟨inner, hinner, htype, hf⟩ := hf.yields_of_eq hkind
    obtain ⟨f', hf', hwarnings⟩ :=
      exists_fragment_of_mem hg hinner htype hf hcontext hmem hkey
    obtain ⟨previous, hwarning⟩ := ih hf' hshares
    exact ⟨previous, hwarnings _ hwarning⟩
  | member hkind _ ih =>
    obtain ⟨inner, hinner, hf⟩ := hf.yields_of_eq hkind
    obtain ⟨template, f', hitems, hf', rfl⟩ := compileNodeArray_eq_ok hg hinner hf
    cases hitems
    obtain ⟨previous, hwarning⟩ := ih hf' hshares
    exact ⟨previous, List.mem_map.mpr ⟨_, hwarning, rfl⟩⟩
  | item hkind hentry _ ih =>
    obtain ⟨inner, hinner, hf⟩ := hf.yields_of_eq hkind
    obtain ⟨key', list, template, f', hentry', htemplate, hf', hlist⟩ :=
      compileList_eq_ok hg hinner hf
    cases hentry.symm.trans hentry'
    cases htemplate
    obtain ⟨previous, hwarning⟩ := ih hf' hshares
    exact ⟨previous, by cases hlist <;> exact List.mem_map.mpr ⟨_, hwarning, rfl⟩⟩
  | @listItem _ _ _ s' _ path hkind _ ih =>
    obtain ⟨inner, f₀, hinner, hlist, rfl⟩ := hf.yields_of_eq hkind
    obtain ⟨key', list, template, f', hentry, htemplate, hf', hlist⟩ :=
      compileList_eq_ok hg hinner hlist
    cases List.mem_singleton.mp (List.mem_of_find?_eq_some hentry)
    cases htemplate
    obtain ⟨previous, hwarning⟩ := ih hf' hshares
    have hwrapped : (⟨.sharedVariable previous key (s'.v.child key),
        .key "@list" :: .index 0 :: path ++ [.key key]⟩ : Warning) ∈ f₀.warnings := by
      cases hlist <;> exact List.mem_map.mpr ⟨_, hwarning, rfl⟩
    exact ⟨previous, List.mem_map.mpr ⟨_, hwrapped, rfl⟩⟩

/-- The path of a node leads to it. -/
lemma NodeAt.at?_eq (h : NodeAt g value s path node s') (hkeys : value.KeysDistinct) :
    value.at? path = some (.object node) ∧ (Json.object node).KeysDistinct := by
  induction h with
  | node hkind =>
    obtain rfl := Kind.describes_of_eq hkind
    exact ⟨Json.at?_nil _, hkeys⟩
  | @entry value _ s _ _ _ _ _ _ path hkind _ hmem _ _ ih =>
    obtain rfl := Kind.describes_of_eq hkind
    obtain ⟨hat, hvalue⟩ := Json.at?_key_of_mem hkeys (List.mem_filter.mp hmem).1 path
    rw [hat]
    exact ih hvalue
  | @member value _ s _ _ _ hkind _ ih =>
    obtain rfl := eq_of_nodeArray hkind
    exact ih (Json.keysDistinct_array.mp hkeys _ List.mem_cons_self)
  | @item value template s _ _ _ key path hkind hentry _ ih =>
    obtain rfl := Kind.describes_of_eq hkind
    obtain ⟨hat, hlist⟩ :=
      Json.at?_key_of_mem hkeys (List.mem_of_find?_eq_some hentry) (.index 0 :: path)
    rw [hat]
    exact ih (Json.keysDistinct_array.mp hlist _ List.mem_cons_self)
  | @listItem value _ s _ _ _ hkind _ ih =>
    obtain rfl := Kind.describes_of_eq hkind
    exact ih (Json.keysDistinct_array.mp hkeys _ List.mem_cons_self)

include hg in
lemma NodeAtDocument.exists_warning {document : Json} {context : Context} {f : Fragment}
    (h : NodeAtDocument g context document path node s)
    (hf : CompiledDocument g document (.root context) f) {key : String}
    (hshares : SharesVariable s node key value) :
    ∃ previous, (⟨.sharedVariable previous key (s.v.child key), path ++ [.key key]⟩ : Warning) ∈
      f.warnings := by
  cases h with
  | array h =>
    cases hf with
    | array inner hinner hf =>
      obtain ⟨template, f', hitems, hf', rfl⟩ := compileNodeArray_eq_ok hg hinner hf
      cases hitems
      obtain ⟨previous, hwarning⟩ := h.exists_warning hg hf' hshares
      exact ⟨previous, List.mem_map.mpr ⟨_, hwarning, rfl⟩⟩
    | scalar harray => exact absurd rfl (harray _)
  | graph hcontainer hvalue hcontext h =>
    cases hf with
    | graph _ hvalue' hcontext' inner hinner hf =>
      cases hcontext.symm.trans hcontext'
      cases hvalue.symm.trans hvalue'
      obtain ⟨template, f', hitems, hf', rfl⟩ := compileNodeArray_eq_ok hg hinner hf
      cases hitems
      obtain ⟨previous, hwarning⟩ := h.exists_warning hg hf' hshares
      have hmember : (⟨_, .index 0 :: _⟩ : Warning) ∈ (arrayFragment .root f').warnings :=
        List.mem_map.mpr ⟨_, hwarning, rfl⟩
      exact ⟨previous, List.mem_map.mpr ⟨_, hmember, rfl⟩⟩
    | node hother => exact absurd hcontainer hother
    | scalar _ hobject => exact absurd rfl (hobject _)
  | root hcontainer hcontext =>
    cases hf with
    | graph hother => exact absurd hother hcontainer
    | node _ inner hinner htype hf =>
      exact exists_warning_of_sharesVariable hg hinner htype hf hcontext hshares
    | scalar _ hobject => exact absurd rfl (hobject _)
  | entry hcontainer hcontext hmem hkey h =>
    cases hf with
    | graph hother => exact absurd hother hcontainer
    | node _ inner hinner htype hf =>
      obtain ⟨f', hf', hwarnings⟩ :=
        exists_fragment_of_mem hg hinner htype hf hcontext hmem hkey
      obtain ⟨previous, hwarning⟩ := h.exists_warning hg hf' hshares
      exact ⟨previous, hwarnings _ hwarning⟩
    | scalar _ hobject => exact absurd rfl (hobject _)

lemma NodeAtDocument.at?_eq {document : Json} {context : Context}
    (h : NodeAtDocument g context document path node s) (hkeys : document.KeysDistinct) :
    document.at? path = some (.object node) ∧ (Json.object node).KeysDistinct := by
  cases h with
  | array h => exact h.at?_eq (Json.keysDistinct_array.mp hkeys _ List.mem_cons_self)
  | @graph _ _ _ _ _ path _ hvalue _ h =>
    obtain ⟨hat, harray⟩ :=
      Json.at?_key_of_mem hkeys (mem_of_lookup_eq_some hvalue) (.index 0 :: path)
    rw [hat]
    exact h.at?_eq (Json.keysDistinct_array.mp harray _ List.mem_cons_self)
  | root => exact ⟨Json.at?_nil _, hkeys⟩
  | @entry _ _ _ _ _ _ _ path _ _ hmem _ h =>
    obtain ⟨hat, hvalue⟩ := Json.at?_key_of_mem hkeys (List.mem_filter.mp hmem).1 path
    rw [hat]
    exact h.at?_eq hvalue

end

end Exemplar
