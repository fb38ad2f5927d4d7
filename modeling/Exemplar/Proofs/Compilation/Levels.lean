import Exemplar.Proofs.Compilation.Items

/-!
# Levels

A value is compiled in the same way at all numbers of levels that are not less than its depth. So
values may be taken out of a document or put into it without any change to how the others are
compiled.
-/

namespace Exemplar

/-! ### Depth -/

namespace Json

variable {value : Json}

lemma depth_pos (value : Json) : 0 < value.depth := by
  cases value <;> simp [depth]

lemma depth_le_of_mem {items : List Json} (h : value ∈ items) : value.depth ≤ depthItems items := by
  induction items with
  | nil => cases h
  | cons item rest ih =>
    rw [depthItems]
    rcases List.mem_cons.mp h with rfl | h
    · exact Nat.le_max_left _ _
    · exact Nat.le_trans (ih h) (Nat.le_max_right _ _)

lemma depth_le_of_mem_entries {entries : Entries} {key : String} (h : (key, value) ∈ entries) :
    value.depth ≤ depthEntries entries := by
  induction entries with
  | nil => cases h
  | cons entry rest ih =>
    rw [depthEntries]
    rcases List.mem_cons.mp h with rfl | h
    · exact Nat.le_max_left _ _
    · exact Nat.le_trans (ih h) (Nat.le_max_right _ _)

end Json

lemma depth_itemTemplate {value template : Json} (h : itemTemplate value = .ok template) :
    template.depth ≤ value.depth := by
  unfold itemTemplate at h
  split at h
  · cases h
    simp [Json.depth, Json.depthItems]
  · cases h
  · cases h
    exact Nat.le_refl _

lemma depth_graphItems (value : Json) : Json.depthItems (graphItems value) ≤ value.depth := by
  unfold graphItems
  split
  · exact Nat.le_succ _
  · exact Nat.max_le.mpr ⟨Nat.le_refl _, Nat.zero_le _⟩

/-! ### Agreement -/

/-- Whether two compilers agree on all values that are not deeper than a bound. -/
def AgreeTo (n : Nat) (inner inner' : Compiler) : Prop :=
  ∀ rule value s, value.depth ≤ n → inner rule value s = inner' rule value s

section

variable {g : Grammar} {n : Nat} {inner inner' : Compiler} (h : AgreeTo n inner inner')

include h

lemma compileNodeArray_congr {items : List Json} (hitems : Json.depthItems items ≤ n) (s : Scope) :
    compileNodeArray g inner items s = compileNodeArray g inner' items s := by
  unfold compileNodeArray
  split
  · next template =>
    rw [h _ template _ (Nat.le_trans (Json.depth_le_of_mem List.mem_cons_self) hitems)]
  · rfl

lemma compileNodeObject_congr {entries : Entries} (hentries : Json.depthEntries entries ≤ n)
    (s : Scope) : compileNodeObject g inner entries s = compileNodeObject g inner' entries s := by
  have hparts : ∀ s identity, (ownEntries entries).mapM (compileEntry g inner s identity) =
      (ownEntries entries).mapM (compileEntry g inner' s identity) := by
    intro s identity
    refine mapM_congr fun (key, value) hmem => ?_
    have hmem : (key, value) ∈ entries := (List.mem_filter.mp hmem).1
    have hvalue : value.depth ≤ n := Nat.le_trans (Json.depth_le_of_mem_entries hmem) hentries
    simp only [compileEntry, h _ value _ hvalue]
  simp only [compileNodeObject, hparts]

/-- Only the template of the items is compiled by the inner compiler. -/
lemma compileList_congr (hg : g.Usual) {entries : Entries} {s : Scope}
    (hitems : ∀ key value template, (key, value) ∈ entries → itemTemplate value = .ok template →
      template.depth ≤ n) : compileList g inner entries s = compileList g inner' entries s := by
  unfold compileList
  rcases hg.listObject with hlist | hlist <;>
  · simp only [hlist, compilePlainObject, compileLinkedList, compileIndexedList]
    split
    · rfl
    · next key value hentry =>
      cases htemplate : itemTemplate value with
      | error e => rfl
      | ok template =>
        have hmem := List.mem_of_find?_eq_some hentry
        simp only [bind, Except.bind, h _ template _ (hitems key value template hmem htemplate)]

lemma compileResource_congr (hg : g.Usual) {value : Json} (hvalue : value.depth ≤ n + 1)
    (s : Scope) : compileResource g inner value s = compileResource g inner' value s := by
  unfold compileResource
  split
  · rfl
  · rw [compileScalar, compileScalar, hg.primitive]
  · rw [compileScalar, compileScalar, hg.primitive]
  · next entries hkind =>
    obtain rfl := Kind.describes_of_eq hkind
    rw [compileObject_nodeObject hg, compileObject_nodeObject hg]
    exact compileNodeObject_congr h (Nat.le_of_succ_le_succ hvalue) s
  · next items hkind =>
    obtain rfl := Kind.describes_of_eq hkind
    rw [hg.nodeArray]
    exact compileNodeArray_congr h (Nat.le_of_succ_le_succ hvalue) s
  · next items hkind =>
    obtain rfl := Kind.describes_of_eq hkind
    rw [hg.listArray]
    show (compileList g inner (wrapList items) s).map unwrapList =
      (compileList g inner' (wrapList items) s).map unwrapList
    rw [compileList_congr h hg]
    intro key value template hmem htemplate
    cases List.mem_singleton.mp hmem
    obtain rfl := eq_singleton_of_itemTemplate htemplate
    exact Nat.le_trans (Json.depth_le_of_mem List.mem_cons_self) (Nat.le_of_succ_le_succ hvalue)
  · next entries hkind =>
    obtain rfl := Kind.describes_of_eq hkind
    rw [compileObject_listObject hg, compileObject_listObject hg]
    refine compileList_congr h hg fun key value template hmem htemplate => ?_
    exact Nat.le_trans (depth_itemTemplate htemplate)
      (Nat.le_trans (Json.depth_le_of_mem_entries hmem) (Nat.le_of_succ_le_succ hvalue))
  · rw [hg.graphObject]
    rfl
  · rw [hg.valueObject]
    rfl
  · rw [hg.setObject]
    rfl

lemma compileDocument_congr (hg : g.Usual) {value : Json} (hvalue : value.depth ≤ n + 1)
    (s : Scope) : compileDocument g inner value s = compileDocument g inner' value s := by
  unfold compileDocument
  split
  · rw [hg.nodeArray]
    exact compileNodeArray_congr h (Nat.le_of_succ_le_succ hvalue) s
  · next entries =>
    have hentries : Json.depthEntries entries ≤ n := Nat.le_of_succ_le_succ hvalue
    split
    · rw [hg.graphContainer]
      simp only [compileObject, compileGraphContainer, hg.nodeArray]
      cases hgraph : Entries.get? entries "@graph" with
      | none => rfl
      | some items =>
        have hdepth := Json.depth_le_of_mem_entries (mem_of_lookup_eq_some hgraph)
        have hitems := Nat.le_trans (depth_graphItems items) (Nat.le_trans hdepth hentries)
        simp only [compileArray, compileNodeArray_congr h hitems]
    · rw [compileObject_nodeObject hg, compileObject_nodeObject hg]
      exact compileNodeObject_congr h hentries s
  · rfl

lemma compileValue_congr (hg : g.Usual) (rule : ValueRule) {value : Json}
    (hvalue : value.depth ≤ n + 1) (s : Scope) :
    compileValue g inner rule value s = compileValue g inner' rule value s := by
  cases rule with
  | document => exact compileDocument_congr h hg hvalue s
  | resource => exact compileResource_congr h hg hvalue s
  | primitive => rfl
  | typeEntry => rfl

end

/-- More levels than a value is deep make no difference. -/
theorem compileLevels_agree {g : Grammar} (hg : g.Usual) {m n : Nat} (hmn : m ≤ n) :
    AgreeTo m (compileLevels g m) (compileLevels g n) := by
  induction m generalizing n with
  | zero =>
    intro rule value s hvalue
    exact absurd value.depth_pos (Nat.not_lt.mpr hvalue)
  | succ m ih =>
    cases n with
    | zero => exact absurd hmn (Nat.not_succ_le_zero m)
    | succ n =>
      intro rule value s hvalue
      exact compileValue_congr (ih (Nat.le_of_succ_le_succ hmn)) hg rule hvalue s

/-- A document with a node object at its root is compiled as this object, at any number of levels
that suffices. -/
lemma Grammar.Usual.compile_eq_nodeObject {g : Grammar} (hg : g.Usual) {entries : Entries}
    (hcontainer : ¬ isGraphContainer entries) {n : Nat} (hn : Json.depthEntries entries ≤ n)
    (context : Context) : g.compile context (.object entries) =
      (compileNodeObject g (compileLevels g n) entries (.root context)).map Fragment.toQuery := by
  have hlevels := compileLevels_agree hg (Nat.succ_le_succ hn) g.document (.object entries)
    (.root context) (Nat.le_refl _)
  unfold Grammar.compile
  rw [hg.document] at hlevels ⊢
  refine congrArg (Except.map Fragment.toQuery) (hlevels.trans ?_)
  show compileDocument g _ (.object entries) _ = _
  simp only [compileDocument, if_neg hcontainer]
  exact compileObject_nodeObject hg _ _ _

end Exemplar
