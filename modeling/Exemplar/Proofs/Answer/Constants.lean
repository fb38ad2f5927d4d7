import Exemplar.Proofs.Answer.Rows
import Exemplar.Proofs.Compilation.Constants
import Exemplar.Proofs.Compilation.Composition

/-!
# Answers to constant documents

A constant document is its own answer over every graph that has the triples that it states: the
arrays in it have no choice but to hold their elements once.
-/

namespace Exemplar

variable {g : Graph}

/-! ### Rows -/

/-- There is a term for each array of a constant. -/
lemma Repeats.exists_assignment {value : Json} {v : Variable} {t : Template} {o : Operation}
    {projections : List Variable} (h : Repeats g value v t o projections) :
    ∃ μ : Assignment, ∀ x u, value.MemberTerm v x u → μ x = some u := by
  classical
  refine ⟨fun x => if hx : ∃ u, value.MemberTerm v x u then some hx.choose else none,
    fun x u hu => ?_⟩
  have hx : ∃ u, value.MemberTerm v x u := ⟨u, hu⟩
  beta_reduce
  rw [dif_pos hx, h.unique hx.choose_spec hu]

/-- Every row binds the arrays of a constant to the terms of their elements, and there is one. -/
lemma Fragment.Repeats.gives_of_rows {f : Fragment} {value : Json} {v : Variable}
    (h : f.Repeats g value v) {rows : List Solution}
    (hrows : f.operation.toPattern.Rows g f.toQuery.projections rows) :
    f.template.Gives rows value := by
  obtain ⟨μ, hμ⟩ := h.repeats.exists_assignment
  have hnil : Below (Solution.get? []) μ := fun _ _ h => by cases h
  obtain ⟨⟨m, hm⟩, hmatch⟩ := (h.repeats.settles hμ).toPattern [] hnil
  obtain ⟨row, hrow, -⟩ := hrows.exists_row m hm
  refine h.repeats.gives (List.ne_nil_of_mem hrow) fun row hrow x u hx => ?_
  obtain ⟨m, hm, hagree⟩ := hrows.exists_match row hrow
  obtain ⟨hprojected, hmentioned⟩ := h.repeats.projected hx
  have hmentioned := Operation.mem_mentioned_toPattern.mpr hmentioned
  obtain ⟨hbelow, hbound⟩ := hmatch m hm
  obtain ⟨u', hu'⟩ := Option.ne_none_iff_exists'.mp (hbound x hmentioned)
  rw [hagree x (List.mem_filter.mpr ⟨hprojected, decide_eq_true hmentioned⟩), hu',
    ← hbelow x u' hu', hμ x u hx]

/-! ### Documents -/

/-- The answer to a constant document that is compiled without warnings is the document itself, if
the graph has all triples that it states, in whatever order the solutions are delivered. -/
theorem constant_answered {document : Json} {q : Query} (hconstant : document.IsConstant)
    (hq : Grammar.standard.compile .empty document = .ok q) (hwarnings : q.warnings = [])
    (hstated : ∀ t ∈ document.stated, t ∈ g.triples) :
    Grammar.standard.AnswersAlways .empty g document ⟨some document, []⟩ := by
  obtain ⟨f, hf, rfl⟩ := Grammar.standard_usual.compile_eq_ok hq
  have hnone : f.warnings = [] := hwarnings
  have hcompiled := hf.compiled_plain Grammar.standard_usual hconstant.contextless hnone
    fun entries heq => (heq ▸ hconstant).not_isGraphContainer
  have hrepeats := hcompiled.repeats hconstant hstated hnone
  rw [← hnone]
  exact Grammar.answersAlways_of_gives hq (hf.isSupported Grammar.standard_usual)
    fun rows hrows => hrepeats.gives_of_rows hrows

section

/-- A node in an array, with a value in two arrays and a node that stands alone. -/
def constantDocument : Json :=
  .array [.object [("@id", .string "ex:s"), ("@type", .string "ex:t"),
    ("ex:p", .array [.array [.string "x"]]),
    ("ex:q", .object [("@id", .string "ex:o"), ("ex:r", .array [.bool true])])]]

/-- What the document states, and a second value that it does not ask for. -/
def constantGraph : Graph :=
  ⟨[⟨.iri ⟨"ex:s"⟩, Iri.rdfType, .iri ⟨"ex:t"⟩⟩,
    ⟨.iri ⟨"ex:s"⟩, ⟨"ex:p"⟩, .literal (.simple "x")⟩,
    ⟨.iri ⟨"ex:s"⟩, ⟨"ex:p"⟩, .literal (.simple "y")⟩,
    ⟨.iri ⟨"ex:s"⟩, ⟨"ex:q"⟩, .iri ⟨"ex:o"⟩⟩,
    ⟨.iri ⟨"ex:o"⟩, ⟨"ex:r"⟩, .literal (.typed "true" Iri.xsdBoolean)⟩], by decide +kernel⟩

lemma constantDocument_isConstant : constantDocument.IsConstant := by
  have hobject : (Json.object [("@id", .string "ex:o"),
      ("ex:r", .array [.bool true])]).IsConstant := by
    refine @Json.IsConstant.node _ "ex:o" (by simp) (by decide +kernel) (by simp)
      (by decide +kernel) fun key value hmem hid _ => ?_
    obtain rfl : value = .array [.bool true] := by simp_all
    exact .array (.scalar rfl (by simp))
  refine .array (@Json.IsConstant.node _ "ex:s" (by simp) (by decide +kernel)
    (fun value hmem => ?_) (by decide +kernel) fun key value hmem hid htype => ?_)
  · obtain rfl : value = .string "ex:t" := by simpa using hmem
    exact ⟨_, rfl, by decide +kernel⟩
  · have hvalue : value = .array [.array [.string "x"]] ∨ value = .object [("@id", .string "ex:o"),
        ("ex:r", .array [.bool true])] := by grind
    rcases hvalue with rfl | rfl
    · exact .array (.array (.scalar rfl (by simp [placeholderText])))
    · exact hobject

theorem constant_answered_nested :
    (∀ t ∈ constantDocument.stated, t ∈ constantGraph.triples) ∧
      Grammar.standard.AnswersAlways .empty constantGraph constantDocument
        ⟨some constantDocument, []⟩ := by
  have hstated : ∀ t ∈ constantDocument.stated, t ∈ constantGraph.triples := by decide +kernel
  obtain ⟨q, hq, hwarnings⟩ : ∃ q,
      Grammar.standard.compile .empty constantDocument = .ok q ∧ q.warnings = [] :=
    ⟨_, rfl, rfl⟩
  exact ⟨hstated, constant_answered constantDocument_isConstant hq hwarnings hstated⟩

end

end Exemplar
