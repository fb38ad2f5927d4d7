import Exemplar.Proofs.Answer.Slots
import Exemplar.Proofs.Compilation.NodeTemplate
import Exemplar.Proofs.Context.Absolute
import Exemplar.Proofs.Rdf.Integers
import Exemplar.Proofs.Template.Completion

/-!
# Lists of scalars

The answer to a document that asks for the items of a list. It has the values of the items in their
order, whether the list is a chain of slots or its slots have positions.
-/

namespace Exemplar

/-- The entries of a node whose list has some items. -/
def listNode (node predicate : IriKey) (items : List Json) : Entries :=
  [("@id", .string node.text), (predicate.text, .object (wrapList items))]

/-- The document that asks for the items of the list of a node. -/
def listDocument (node predicate : IriKey) : Json :=
  .object (listNode node predicate [.string placeholderText])

/-! ### Compilation -/

/-- The variable of the list of a node. -/
def listVariable (predicate : IriKey) : Variable := Variable.root.child predicate.text

/-- The fragment of the items of a list. -/
def itemFragment (list : Variable) : Fragment :=
  .placeholder (.native (list.child "item")) (list.child "item")

/-- The fragment of a node from that of its list. -/
def listNodeFragment (node predicate : IriKey) (f : Fragment) : Fragment :=
  nodeFragment none (.constant (.iri node.iri))
    [.id (plainScope .root) (.fixed node.iri) "@id" (.string node.text),
      .link (.constant (.iri node.iri)) predicate.text predicate.iri (listVariable predicate) f]

section

variable {node predicate : IriKey}

lemma listDocument_contextless :
    (Json.object (listNode node predicate [.string placeholderText])).Contextless := by
  have hlist : (Json.object (wrapList [.string placeholderText])).Contextless :=
    ⟨by decide, ⟨trivial, trivial⟩, trivial⟩
  have hid : (Json.string node.text).Contextless := trivial
  rw [Json.contextless_object]
  intro e he
  simp only [listNode, List.mem_cons, List.not_mem_nil, or_false] at he
  rcases he with rfl | rfl
  · exact ⟨show "@id" ≠ "@context" by decide, hid⟩
  · exact ⟨predicate.ne_keyword .context, hlist⟩

lemma identityOf_listNode : identityOf (plainScope .root)
    (listNode node predicate [.string placeholderText]) = .ok (.fixed node.iri) := by
  have hid : Context.empty.isKeyword .id "@id" := Context.isKeyword_empty_iff.mpr rfl
  have hpredicate : Context.empty.isKeyword .id predicate.text = false := by
    simpa using fun h => predicate.ne_id (Context.isKeyword_empty_iff.mp h)
  have hfilter : (ownEntries (listNode node predicate [.string placeholderText])).filter
      (fun e => (plainScope .root).context.isKeyword .id e.1) = [("@id", .string node.text)] := by
    rw [ownEntries_of_contextless listDocument_contextless]
    simp [listNode, plainScope, hid, hpredicate]
  simp only [identityOf, hfilter]
  rw [if_neg node.ne_placeholder, expandIri_absolute node.valid rfl]
  rfl

variable {g : Grammar} (hg : g.Usual)

include hg

lemma compile_listDocument {f : Fragment}
    (hf : compileList g (compileLevels g 2) (wrapList [.string placeholderText])
      (plainScope (listVariable predicate)) = .ok f) :
    g.compile .empty (listDocument node predicate) =
      .ok (listNodeFragment node predicate f).toQuery := by
  have hnone : (Json.object (listNode node predicate [.string placeholderText])).Contextless :=
    listDocument_contextless
  have hcontext := declaration?_of_contextless hnone
  have hown := ownEntries_of_contextless hnone
  have hcontainer :
      isGraphContainer (listNode node predicate [.string placeholderText]) = false := by
    simp [isGraphContainer, listNode]
  have hvalue : compileLevels g 3 .resource (.object (wrapList [.string placeholderText]))
      (plainScope (listVariable predicate)) = .ok f := by
    rw [← hf]
    exact compileObject_listObject hg _ _ _
  have hid : compileEntry g (compileLevels g 3) (plainScope .root) (.fixed node.iri)
      ("@id", .string node.text) =
        .ok (.id (plainScope .root) (.fixed node.iri) "@id" (.string node.text)) := rfl
  have hentry : compileEntry g (compileLevels g 3) (plainScope .root) (.fixed node.iri)
      (predicate.text, .object (wrapList [.string placeholderText])) =
        .ok (.link (.constant (.iri node.iri)) predicate.text predicate.iri
          (listVariable predicate) f) := by
    have hexpand : (plainScope .root).context.expand? .vocab predicate.text =
        some (.iri predicate.iri) := expand?_absolute predicate.valid .vocab
    simp only [compileEntry, hexpand, hg.resource]
    exact bind_eq_ok.mpr ⟨f, hvalue, rfl⟩
  have hnode : compileNodeObject g (compileLevels g 3)
      (listNode node predicate [.string placeholderText]) (plainScope .root) =
        .ok (listNodeFragment node predicate f) := by
    unfold compileNodeObject
    rw [hcontext]
    refine bind_eq_ok.mpr ⟨.empty, rfl, ?_⟩
    refine bind_eq_ok.mpr ⟨.fixed node.iri, identityOf_listNode, ?_⟩
    rw [hown]
    refine bind_eq_ok.mpr ⟨_, mapM_eq_ok.mpr (.cons hid (.cons hentry .nil)), rfl⟩
  refine map_eq_ok.mpr ⟨_, ?_, rfl⟩
  rw [hg.document]
  change compileDocument g (compileLevels g 3) (listDocument node predicate) (plainScope .root) = _
  simp only [compileDocument, listDocument, hcontainer]
  rw [if_neg (by simp), compileObject_nodeObject hg]
  exact hnode

end

/-! ### Fragments -/

section

variable {g : Grammar} (hg : g.Usual) (list : Variable)

/-- The fragment of a chain whose items are asked for. -/
def chainFragment : Fragment :=
  listFragment (wrapList [.string placeholderText]) "@list" list
    (chainOperation list (list.child "slot") (list.child "rest") (list.child "item").term)
    (.linked list (list.child "slot") (list.child "rest") (.native (list.child "item")))
    [list, list.child "slot", list.child "rest"] (itemFragment list)

/-- The fragment of a list with positions whose items are asked for. -/
def positionsFragment (lists : ListVocabulary) : Fragment :=
  listFragment (wrapList [.string placeholderText]) "@list" list
    (slotOperation lists list (list.child "slot") (list.child "index") (list.child "item").term)
    (.indexed (list.child "index") lists.origin (.native (list.child "item")))
    [list.child "index"] (itemFragment list)

/-- What the rows of a chain bind is projected. -/
lemma mem_chainFragment :
    ∀ x ∈ [list, list.child "slot", list.child "rest", list.child "item"],
      x ∈ (chainFragment list).projections ∧ (x = list ∨ x ∈ (chainOperation list
        (list.child "slot") (list.child "rest") (list.child "item").term).build.mentioned) := by
  intro x hx
  have hmentioned : (chainOperation list (list.child "slot") (list.child "rest")
      (list.child "item").term).build.mentioned = [list, list.child "slot", list.child "slot",
        list.child "item", list.child "slot", list.child "rest"] := rfl
  rw [hmentioned]
  simp only [chainFragment, listFragment, itemFragment, Fragment.placeholder, mem_addVariables,
    List.mem_cons, List.not_mem_nil] at hx ⊢
  generalize list.child "slot" = slot, list.child "rest" = rest, list.child "item" = item at hx ⊢
  tauto

/-- What the rows of a list with positions bind is projected. -/
lemma mem_positionsFragment (lists : ListVocabulary) :
    ∀ x ∈ [list.child "index", list.child "item"],
      x ∈ (positionsFragment list lists).projections ∧ (x = list ∨ x ∈ (slotOperation lists list
        (list.child "slot") (list.child "index") (list.child "item").term).build.mentioned) := by
  intro x hx
  have hmentioned : (slotOperation lists list (list.child "slot") (list.child "index")
      (list.child "item").term).build.mentioned = [list, list.child "slot", list.child "slot",
        list.child "index", list.child "slot", list.child "item"] := rfl
  rw [hmentioned]
  simp only [positionsFragment, listFragment, itemFragment, Fragment.placeholder, mem_addVariables,
    List.mem_cons, List.not_mem_nil] at hx ⊢
  generalize list.child "slot" = slot, list.child "index" = index, list.child "item" = item at hx ⊢
  tauto

include hg

lemma compileLevels_item (n : Nat) :
    compileLevels g (n + 1) g.resource (.string placeholderText) (itemScope (plainScope list)) =
      .ok (itemFragment list) := by
  rw [hg.resource]
  change compileScalar g (compileLevels g n) (.string placeholderText) _ = _
  rw [compileScalar, hg.primitive]
  rfl

lemma compileList_linked (hlist : g.listObject = .linkedList) :
    compileList g (compileLevels g 2) (wrapList [.string placeholderText]) (plainScope list) =
      .ok (chainFragment list) := by
  rw [compileList, hlist]
  exact bind_eq_ok.mpr ⟨_, rfl, bind_eq_ok.mpr ⟨_, compileLevels_item hg list 1, rfl⟩⟩

lemma compileList_indexed (hlist : g.listObject = .indexedList) :
    compileList g (compileLevels g 2) (wrapList [.string placeholderText]) (plainScope list) =
      .ok (positionsFragment list g.lists) := by
  rw [compileList, hlist]
  exact bind_eq_ok.mpr ⟨_, rfl, bind_eq_ok.mpr ⟨_, compileLevels_item hg list 1, rfl⟩⟩

end

/-! ### Answers -/

namespace Variable

lemma child_ne (v : Variable) (key : String) : v.child key ≠ v := ne_of_inside_child (.refl _)

lemma child_ne_child (v : Variable) (key key' : String)
    (h : Naming.sanitize key.toList ≠ Naming.sanitize key'.toList) : v.child key ≠ v.child key' :=
  fun heq => h (sanitize_eq_of_child_eq heq)

lemma nodup_chain (list : Variable) :
    [list.child "rest", list.child "item", list.child "slot", list].Nodup := by
  have hrestItem := list.child_ne_child "rest" "item" (by decide)
  have hrestSlot := list.child_ne_child "rest" "slot" (by decide)
  have hitemSlot := list.child_ne_child "item" "slot" (by decide)
  simp [child_ne, hrestItem, hrestSlot, hitemSlot]

lemma nodup_positions (list : Variable) :
    [list.child "item", list.child "index", list.child "slot", list].Nodup := by
  have hitemIndex := list.child_ne_child "item" "index" (by decide)
  have hitemSlot := list.child_ne_child "item" "slot" (by decide)
  have hindexSlot := list.child_ne_child "index" "slot" (by decide)
  simp [child_ne, hitemIndex, hitemSlot, hindexSlot]

end Variable

section

variable {node predicate : IriKey} {graph : Graph} {terms : List Term} {values : List Json}

/-- The answer to the document of a list is given by its template for the rows of its slots, in any
order. -/
lemma answer_listDocument {g : Grammar} (hg : g.Usual) {f : Fragment} {slots : Pattern}
    {template : Template} {vs : List Variable}
    (hf : compileList g (compileLevels g 2) (wrapList [.string placeholderText])
      (plainScope (listVariable predicate)) = .ok f)
    (hpattern : (listNodeFragment node predicate f).operation.toPattern =
      listPattern node.iri predicate.iri (listVariable predicate) slots)
    (htemplate : f.template = .object none [("@list", template)]) (hwarnings : f.warnings = [])
    (hvs : ∀ x ∈ vs, x ∈ f.projections ∧ (x = listVariable predicate ∨ x ∈ slots.mentioned))
    (hsupported : slots.isSupported)
    (h : ∀ rows, (listPattern node.iri predicate.iri (listVariable predicate) slots).Rows graph vs
      rows → template.Gives rows (.array values)) :
    g.AnswersAlways .empty graph (listDocument node predicate)
      ⟨some (.object (listNode node predicate values)), []⟩ := by
  have hnode : (listNodeFragment node predicate f).warnings = [] := by
    simp [listNodeFragment, nodeFragment, entryWarnings, EntryPart.id, EntryPart.link, hwarnings]
  rw [← hnode]
  refine Grammar.answersAlways_of_gives (compile_listDocument hg hf)
    (by rw [hpattern]; exact hsupported) fun rows hrows => ?_
  rw [hpattern] at hrows
  have hgives := h rows (hrows.mono fun x hx => by
    obtain ⟨hprojected, hmentioned⟩ := hvs x hx
    refine List.mem_filter.mpr ⟨?_, decide_eq_true ?_⟩
    · exact mem_projections_nodeFragment.mpr
        ⟨_, List.mem_cons_of_mem _ List.mem_cons_self, hprojected⟩
    · rw [hpattern]
      rcases hmentioned with rfl | hmentioned
      · simp [listPattern, Pattern.mentioned, TriplePattern.vars, TriplePattern.link, Variable.term,
          PatternTerm.vars]
      · exact List.mem_append_right _ hmentioned)
  have hlist : f.template.Gives rows (.object (wrapList values)) := by
    rw [htemplate]
    exact Template.gives_object (by simp [wrapList]) (.cons ⟨rfl, hgives⟩ .nil)
  have hid : (Template.constant (.string node.text)).Gives rows (.string node.text) :=
    ⟨(), Template.addAll_constant _ _ _, rfl⟩
  refine Template.gives_object ?_ (.cons ⟨rfl, hid⟩ (.cons ⟨rfl, hlist⟩ .nil))
  simpa [listNode] using predicate.ne_id.symm

/-- Positions are read back from their terms. -/
lemma position?_positionTerm {origin : Int} {i : Nat} (hrange : Number.isInt64 (origin + i))
    (hi : i < 9223372036854775808) : position? origin (positionTerm origin i) = some i := by
  obtain ⟨j, hj, hindex⟩ := Option.bind_eq_some_iff.mp (int64?_ofNumber_integer hrange)
  have hdifference : origin + i - origin = (i : Int) := by omega
  have hbound : 0 ≤ (i : Int) ∧ (i : Int) ≤ 9223372036854775807 := by omega
  simp only [position?, positionTerm, hj, bind, Option.bind_some, hindex, hdifference,
    if_pos hbound]
  rfl

/-- The value of a node is a list of scalars, as a chain of slots or as slots with positions, and
neither the list nor a slot is the last blank node. The document that asks for its items is answered
by their values in their order, in either way, and in whatever order the slots are delivered. -/
theorem lists_answered
    (hvalues : List.Forall₂ (fun (t : Term) j => t.native? = some j) terms values) :
    (∀ nodes, graph.HasChain nodes terms →
      graph.objects (.iri node.iri) predicate.iri = [chainNode nodes 0] →
      Grammar.standard.AnswersAlways .empty graph (listDocument node predicate)
        ⟨some (.object (listNode node predicate values)), []⟩) ∧
    ∀ (lists : ListVocabulary) (list : Term) (slots : List Node),
      graph.HasPositions lists list slots terms →
      terms.length ≤ 9223372036854775808 →
      (∀ i < terms.length, Number.isInt64 (lists.origin + i)) →
      graph.objects (.iri node.iri) predicate.iri = [list] →
      { Grammar.withIndexedLists with lists }.AnswersAlways .empty graph
        (listDocument node predicate) ⟨some (.object (listNode node predicate values)), []⟩ := by
  constructor
  · intro nodes hchain hlist
    refine answer_listDocument Grammar.standard_usual
      (compileList_linked Grammar.standard_usual _ rfl) rfl rfl rfl (mem_chainFragment _) rfl
      fun rows hrows => ?_
    exact (hchain.chainRows hlist (Variable.nodup_chain _) hvalues hrows).gives
  · intro lists list slots hpositions hlength hrange hlist
    have husual := Grammar.withIndexedLists_usual lists
    refine answer_listDocument husual (compileList_indexed husual _ rfl) rfl rfl rfl
      (mem_positionsFragment _ lists) rfl fun rows hrows => ?_
    have hposition : ∀ i < terms.length,
        position? lists.origin (positionTerm lists.origin i) = some i :=
      fun i hi => position?_positionTerm (hrange i hi) (Nat.lt_of_lt_of_le hi hlength)
    exact (hpositions.positionRows hlist (Variable.nodup_positions _) hposition hvalues hrows).gives

end

section

def keyS : IriKey := ⟨"ex:s", by decide +kernel⟩

def keyL : IriKey := ⟨"ex:l", by decide +kernel⟩

/-- A list of one value twice, as a chain of slots that have positions as well. -/
def chainWithPositions : Graph :=
  ⟨[⟨.iri ⟨"ex:s"⟩, ⟨"ex:l"⟩, .iri ⟨"ex:a"⟩⟩,
    ⟨.iri ⟨"ex:a"⟩, Iri.rdfFirst, .literal (.simple "x")⟩,
    ⟨.iri ⟨"ex:a"⟩, Iri.rdfRest, .iri ⟨"ex:b"⟩⟩,
    ⟨.iri ⟨"ex:b"⟩, Iri.rdfFirst, .literal (.simple "x")⟩,
    ⟨.iri ⟨"ex:b"⟩, Iri.rdfRest, .iri Iri.rdfNil⟩,
    ⟨.iri ⟨"ex:a"⟩, Iri.listItem, .iri ⟨"ex:b"⟩⟩,
    ⟨.iri ⟨"ex:a"⟩, Iri.listItem, .iri ⟨"ex:a"⟩⟩,
    ⟨.iri ⟨"ex:a"⟩, Iri.listIndex, positionTerm 1 0⟩,
    ⟨.iri ⟨"ex:b"⟩, Iri.listIndex, positionTerm 1 1⟩,
    ⟨.iri ⟨"ex:a"⟩, Iri.listItemContent, .literal (.simple "x")⟩,
    ⟨.iri ⟨"ex:b"⟩, Iri.listItemContent, .literal (.simple "x")⟩], by decide +kernel⟩

/-- Both encodings of a list with a value twice are answered by the same document. -/
theorem lists_answered_twice :
    let nodes := [.iri ⟨"ex:a"⟩, .iri ⟨"ex:b"⟩]
    let terms := [.literal (.simple "x"), .literal (.simple "x")]
    let data := Json.object [("@id", .string "ex:s"),
      ("ex:l", .object [("@list", .array [.string "x", .string "x"])])]
    chainWithPositions.HasChain nodes terms ∧
      chainWithPositions.HasPositions {} (.iri ⟨"ex:a"⟩) nodes terms ∧
      Grammar.standard.AnswersAlways .empty chainWithPositions (listDocument keyS keyL)
        ⟨some data, []⟩ ∧
      Grammar.withIndexedLists.AnswersAlways .empty chainWithPositions (listDocument keyS keyL)
        ⟨some data, []⟩ := by
  intro nodes terms data
  have hchain : chainWithPositions.HasChain nodes terms := by
    refine ⟨rfl, ?_, ?_, ?_, ?_, ?_, ?_, ?_⟩ <;> decide +kernel
  have hpositions : chainWithPositions.HasPositions {} (.iri ⟨"ex:a"⟩) nodes terms := by
    refine ⟨rfl, rfl, ?_, ?_, ?_, ?_⟩ <;> decide +kernel
  have hvalues : List.Forall₂ (fun (t : Term) j => t.native? = some j) terms
      [.string "x", .string "x"] := .cons rfl (.cons rfl .nil)
  have hlist : chainWithPositions.objects (.iri keyS.iri) keyL.iri = [.iri ⟨"ex:a"⟩] := by
    decide +kernel
  exact ⟨hchain, hpositions, (lists_answered hvalues).1 nodes hchain hlist,
    (lists_answered hvalues).2 {} _ nodes hpositions (by decide) (by decide) hlist⟩

/-- A chain of one slot, whose end has a successor of its own. -/
def continuedChain : Graph :=
  ⟨[⟨.iri ⟨"ex:s"⟩, ⟨"ex:l"⟩, .iri ⟨"ex:a"⟩⟩,
    ⟨.iri ⟨"ex:a"⟩, Iri.rdfFirst, .literal (.simple "x")⟩,
    ⟨.iri ⟨"ex:a"⟩, Iri.rdfRest, .iri Iri.rdfNil⟩,
    ⟨.iri Iri.rdfNil, Iri.rdfRest, .iri ⟨"ex:b"⟩⟩,
    ⟨.iri ⟨"ex:b"⟩, Iri.rdfFirst, .iri ⟨"ex:c"⟩⟩,
    ⟨.iri ⟨"ex:b"⟩, Iri.rdfRest, .iri Iri.rdfNil⟩], by decide +kernel⟩

/-- What follows the end of a chain is filled in as well, though it is never visited. -/
theorem continued_chain_not_answered :
    continuedChain.objects (.iri keyS.iri) keyL.iri = [.iri ⟨"ex:a"⟩] ∧
      continuedChain.objects (.iri ⟨"ex:a"⟩) Iri.rdfFirst = [.literal (.simple "x")] ∧
      continuedChain.objects (.iri ⟨"ex:a"⟩) Iri.rdfRest = [.iri Iri.rdfNil] ∧
      continuedChain.objects (.iri Iri.rdfNil) Iri.rdfFirst = [] ∧
      Term.native? (.literal (.simple "x")) = some (.string "x") ∧
      Grammar.standard.answer .empty (.graph continuedChain) (listDocument keyS keyL) =
        .error (.answer (.badNativeValue ⟨"root.l.item"⟩ (.iri ⟨"ex:c"⟩))) := by
  refine ⟨by decide +kernel, by decide +kernel, by decide +kernel, by decide +kernel, rfl, ?_⟩
  obtain ⟨q, found, hq, hfound, hsorted, hfilling⟩ : ∃ q found,
      Grammar.standard.compile .empty (listDocument keyS keyL) = .ok q ∧
      q.algebra.evaluate continuedChain [] = .ok found ∧
      (Table.ofSolutions q.algebra found).IsSorted ∧
      q.template.addAll (Table.ofSolutions q.algebra found).solutions q.template.start =
        .error (.badNativeValue ⟨"root.l.item"⟩ (.iri ⟨"ex:c"⟩)) :=
    ⟨_, _, rfl, rfl, by decide, rfl⟩
  have hrows := Query.evaluate_of_isSorted hfound hsorted
  simp [Grammar.answer, hq, Query.answer, hrows, hfilling, Except.mapError, bind, Except.bind]

end

end Exemplar
