import Exemplar.Proofs.Compilation.Freshness
import Exemplar.Proofs.Compilation.Items

/-!
# Preservation

What all productions preserve holds of every fragment. Without warnings, and if no item of a list
is an array, a production may assume that the entries of a node have different variables, and that
the slot of a list requires its item.
-/

namespace Exemplar

/-- Whether no item of a list in a value is an array. -/
def NoArrayItems (g : Grammar) (value : Json) (s : Scope) : Prop :=
  ∀ template, ItemOf g value s template → ∀ items, template ≠ .array items

/-- Whether all productions preserve a property of fragments and the variables of their parts. -/
structure Grammar.Preserves (g : Grammar) (P : Variable → Fragment → Prop) : Prop where
  scalar {value : Json} {s : Scope} {f : Fragment} (h : compilePrimitive value s = .ok f) :
    P s.v f
  node (s : Scope) (declaration : Option Json) {identity : Identity} {entries : Entries}
    {parts : List EntryPart}
    (hparts : List.Forall₂
      (CompiledEntry (fun _ s f => f.Local s.v ∧ P s.v f) s identity) entries parts)
    (hnodup : (parts.filterMap (·.child)).Nodup) :
    P s.v (nodeFragment declaration (identity.term s) parts)
  array {v : Variable} {f : Fragment} (hlocal : f.Local v) (h : P v f) : P v (arrayFragment v f)
  list {entries : Entries} {key : String} {s : Scope} {f f' : Fragment}
    (hlocal : f.Local (itemScope s).v) (hoptional : f.operation.isOptional = false)
    (h : P (itemScope s).v f)
    (hlist : ListFragment g entries key s.v (f.term.getD (itemScope s).v.term) f f') : P s.v f'
  unwrapped {v : Variable} {f : Fragment} (h : P v f) : P v (unwrapList f)

namespace Grammar.Preserves

variable {g : Grammar} {P : Variable → Fragment → Prop} (hP : g.Preserves P)

include hP

/-- A node object, if the values of its entries have the property as far as they have no warnings
and no arrays as items. -/
lemma entries {s : Scope} {context : Context} {identity : Identity} {entries : Entries}
    {parts : List EntryPart} (declaration : Option Json)
    (hcontext : g.extendContext s.context (declaration? entries) = .ok context)
    (hparts : List.Forall₂ (CompiledEntry (fun value s f => f.Local s.v ∧
        (f.warnings = [] → NoArrayItems g value s → P s.v f)) ⟨s.v, context, none⟩ identity)
      (ownEntries entries) parts)
    (hwarnings : entryWarnings [] parts = [])
    (hitems : ∀ value s', NodeEntry g entries s value s' → NoArrayItems g value s') :
    P s.v (nodeFragment declaration (identity.term ⟨s.v, context, none⟩) parts) := by
  obtain ⟨hnone, hnodup, -⟩ := entryWarnings_eq_nil hwarnings
  have hentries : List.Forall₂ (CompiledEntry (fun _ s f => f.Local s.v ∧ P s.v f)
      ⟨s.v, context, none⟩ identity) (ownEntries entries) parts := by
    refine forall₂_imp_of_mem hparts fun entry hmem part hpart hentry => ?_
    cases hentry with
    | id hkey => exact .id hkey
    | type hkey h => exact .type hkey h
    | keyword hkey hid htype => exact .keyword hkey hid htype
    | undefined hkey => exact .undefined hkey
    | @link key value predicate f hkey h =>
      have hf : f.warnings = [] := by simpa [EntryPart.link] using hnone _ hpart
      have hvalue : NodeEntry g entries s value (entryScope ⟨s.v, context, none⟩ key) :=
        ⟨context, key, predicate, hcontext, hmem, hkey, rfl⟩
      exact .link hkey ⟨h.1, h.2 hf (hitems _ _ hvalue)⟩
  exact hP.node ⟨s.v, context, none⟩ declaration hentries hnodup

variable (hg : g.Usual)

include hg

/-- A list object whose items are no arrays, and have none as the items of lists in them. -/
lemma compileList {inner : Compiler} {entries : Entries} {value : Json} {s : Scope} {f : Fragment}
    (hkind : Kind.of s value = .listObject entries ∨
      ∃ items, Kind.of s value = .listArray items ∧ entries = wrapList items)
    (hinner : ∀ value s f, inner .resource value s = .ok f →
      Compiled g value s f ∧ (f.warnings = [] → NoArrayItems g value s → P s.v f))
    (h : compileList g inner entries s = .ok f) (hwarnings : f.warnings = [])
    (hitems : NoArrayItems g value s) : P s.v f := by
  obtain ⟨key, list, template, f', hentry, htemplate, ⟨hcompiled, himp⟩, hlist⟩ :=
    compileList_eq_ok hg hinner h
  have htemplate : ListTemplate s value template :=
    ⟨entries, key, list, hkind, hentry, htemplate⟩
  have hf' : f'.warnings = [] := by
    cases hlist <;> simpa [listFragment] using hwarnings
  have hoptional : f'.operation.isOptional = false := by
    by_contra hoptional
    obtain ⟨items, harray⟩ := hcompiled.kind_of_isOptional hg (by simpa using hoptional)
    exact hitems _ (.own htemplate) items (eq_of_nodeArray harray)
  refine hP.list (hcompiled.isLocal hg) hoptional (himp hf' fun inner hi => ?_) hlist
  exact hitems inner (.item htemplate hi)

/-- What all productions preserve holds of the fragments of values. -/
theorem compiled {value : Json} {s : Scope} {f : Fragment} (h : Compiled g value s f)
    (hwarnings : f.warnings = []) (hitems : NoArrayItems g value s) : P s.v f := by
  induction h with
  | null => cases hwarnings
  | scalar _ h => exact hP.scalar h
  | node hkind inner hinner htype h ih =>
    obtain ⟨context, identity, parts, hcontext, -, hparts, rfl⟩ := compileNodeObject_eq_ok hg
      (fun value s f h => And.intro ((hinner value s f h).isLocal hg) (ih value s f h)) htype h
    apply hP.entries _ hcontext hparts hwarnings
    exact fun value s' hentry inner hi => hitems inner (.entry hkind hentry hi)
  | array hkind inner hinner h ih =>
    obtain ⟨template, f', rfl, ⟨hlocal, himp⟩, rfl⟩ := compileNodeArray_eq_ok hg
      (fun value s f h => And.intro ((hinner value s f h).isLocal hg) (ih value s f h)) h
    refine hP.array hlocal (himp ?_ fun inner hi => hitems inner (.member hkind hi))
    simpa [arrayFragment] using hwarnings
  | list hkind inner hinner h ih =>
    exact hP.compileList hg (.inl hkind)
      (fun value s f h => ⟨hinner value s f h, ih value s f h⟩) h hwarnings hitems
  | @listArray _ _ f items hkind inner hinner h ih =>
    have hf : f.warnings = [] := by simpa [unwrapList] using hwarnings
    exact hP.unwrapped (hP.compileList hg (.inr ⟨items, hkind, rfl⟩)
      (fun value s f h => ⟨hinner value s f h, ih value s f h⟩) h hf hitems)
  | unsupported => cases hwarnings

section

variable {inner : Compiler}
  (hinner : ∀ value s f, inner .resource value s = .ok f → Compiled g value s f)

include hinner

lemma nodeObject (htype : ∀ value s f, inner .typeEntry value s = .ok f →
      compileType value s = .ok f) {entries : Entries} {s : Scope} {f : Fragment}
    (h : compileNodeObject g inner entries s = .ok f) (hwarnings : f.warnings = [])
    (hitems : ∀ value s', NodeEntry g entries s value s' → NoArrayItems g value s') :
    P s.v f := by
  obtain ⟨context, identity, parts, hcontext, -, hparts, rfl⟩ :=
    compileNodeObject_eq_ok hg hinner htype h
  refine hP.entries _ hcontext (hparts.imp fun _ _ h => h.imp fun _ _ _ hf => ?_) hwarnings hitems
  exact ⟨hf.isLocal hg, hP.compiled hg hf⟩

lemma nodeArray {items : List Json} {s : Scope} {f : Fragment}
    (h : compileNodeArray g inner items s = .ok f) (hwarnings : f.warnings = [])
    (hitems : ∀ template, items = [template] → NoArrayItems g template s) :
    P s.v f ∧ ∃ f', f = arrayFragment s.v f' := by
  obtain ⟨template, f', rfl, hf', rfl⟩ := compileNodeArray_eq_ok hg hinner h
  refine ⟨hP.array (hf'.isLocal hg) (hP.compiled hg hf' ?_ (hitems template rfl)), f', rfl⟩
  simpa [arrayFragment] using hwarnings

end

/-- What all productions preserve, that of graph containers included, holds of the fragments of
documents. -/
theorem document (hgraph : ∀ {v f} declaration, P v (arrayFragment v f) →
      P v (graphFragment declaration (arrayFragment v f)))
    {context : Context} {document : Json} {f : Fragment}
    (h : CompiledDocument g document (.root context) f) (hwarnings : f.warnings = [])
    (hitems : ∀ template, ItemOfDocument g context document template →
      ∀ items, template ≠ .array items) : P .root f := by
  cases h with
  | array inner hinner h =>
    refine (hP.nodeArray hg hinner h hwarnings ?_).1
    rintro template rfl inner hi
    exact hitems inner (.array hi)
  | graph hcontainer hvalue hcontext inner hinner h =>
    obtain ⟨hf, f', rfl⟩ := hP.nodeArray hg hinner h (by simpa [graphFragment] using hwarnings)
      fun template htemplate inner hi =>
        hitems inner (.graph hcontainer hvalue hcontext htemplate hi)
    exact hgraph _ hf
  | node hcontainer inner hinner htype h =>
    refine hP.nodeObject hg hinner htype h hwarnings fun value s hentry inner hi => ?_
    exact hitems inner (.node hcontainer hentry hi)
  | scalar => cases hwarnings

end Grammar.Preserves

end Exemplar
