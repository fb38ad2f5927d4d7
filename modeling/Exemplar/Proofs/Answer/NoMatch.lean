import Exemplar.Answer
import Exemplar.Proofs.Compilation.Derivation
import Exemplar.Proofs.Template.Unfilled

/-!
# Answers without data

If nothing matches the pattern of a document, its answer is never an error. It has no data if its
template has a placeholder or a chain outside all arrays; otherwise the data is the document
itself, with its arrays empty.
-/

namespace Exemplar

variable {g : Grammar}

/-! ### Unwrapped lists -/

lemma unwraps_scalar {value : Json} {s : Scope} {f : Fragment}
    (h : compilePrimitive value s = .ok f) : f.template.Unwraps := by
  rcases compilePrimitive_eq_ok h with ⟨-, rfl⟩ | ⟨t, -, -, rfl⟩ | ⟨-, rfl⟩
  · unfold Fragment.placeholder placeholderTemplate
    split <;> trivial
  · trivial
  · trivial

lemma unwraps_type {value : Json} {s : Scope} {f : Fragment}
    (h : compileType value s = .ok f) : f.template.Unwraps := by
  rcases compileType_eq_ok h with ⟨-, rfl⟩ | ⟨name, iri, -, -, -, rfl⟩
  · trivial
  · trivial

lemma unwraps_entry {s : Scope} {identity : Identity} {entry : String × Json} {part : EntryPart}
    (h : CompiledEntry (fun _ _ f => f.template.Unwraps) s identity entry part) :
    part.template.Unwraps := by
  cases h with
  | id => cases identity <;> trivial
  | type _ h => exact unwraps_type h
  | keyword => trivial
  | link _ h => exact h
  | undefined => trivial

lemma unwraps_node {s : Scope} {identity : Identity} {entries : Entries} {parts : List EntryPart}
    (declaration : Option Json) (node : PatternTerm)
    (h : List.Forall₂ (CompiledEntry (fun _ _ f => f.template.Unwraps) s identity) entries parts) :
    (nodeFragment declaration node parts).template.Unwraps := by
  refine Template.entriesUnwrap_iff.mpr fun e he => ?_
  obtain ⟨part, hpart, rfl⟩ := List.mem_map.mp he
  obtain ⟨entry, -, hentry⟩ := exists_mem_left h hpart
  exact unwraps_entry hentry

lemma unwraps_list {entries : Entries} {key : String} {v : Variable}
    {item : PatternTerm} {f f' : Fragment} (hf : f.template.Unwraps)
    (h : ListFragment g entries key v item f f') :
    f'.template.Unwraps ∧ ∃ template,
      f'.template = .object none (listEntries entries key template) := by
  have hentries : ∀ template : Template, template.Unwraps →
      Template.EntriesUnwrap (listEntries entries key template) := by
    intro template htemplate
    refine Template.entriesUnwrap_iff.mpr fun e he => ?_
    obtain ⟨entry, -, rfl⟩ := List.mem_map.mp he
    by_cases hkey : entry.1 = key
    · simpa [hkey] using htemplate
    · simp [hkey, Template.Unwraps]
  cases h with
  | linked => exact ⟨hentries _ hf, _, rfl⟩
  | indexed => exact ⟨hentries _ hf, _, rfl⟩

/-- What a fragment unwraps is the list of a list object. -/
lemma Compiled.unwraps (hg : g.Usual) {value : Json} {s : Scope} {f : Fragment}
    (h : Compiled g value s f) : f.template.Unwraps := by
  induction h with
  | null => trivial
  | scalar _ h => exact unwraps_scalar h
  | node _ inner _ htype h ih =>
    obtain ⟨context, identity, parts, -, -, hparts, rfl⟩ := compileNodeObject_eq_ok hg ih htype h
    exact unwraps_node _ _ hparts
  | array _ inner _ h ih =>
    obtain ⟨template, f', -, hf', rfl⟩ := compileNodeArray_eq_ok hg ih h
    exact hf'
  | list _ inner _ h ih =>
    obtain ⟨key, value, template, f', -, -, hf', hlist⟩ := compileList_eq_ok hg ih h
    exact (unwraps_list hf' hlist).1
  | listArray _ inner _ h ih =>
    obtain ⟨key, value, template, f', -, -, hf', hlist⟩ := compileList_eq_ok hg ih h
    obtain ⟨hunwraps, list, heq⟩ := unwraps_list hf' hlist
    exact ⟨hunwraps, none, _, heq, by simp [listEntries, wrapList]⟩
  | unsupported => trivial

lemma CompiledDocument.unwraps (hg : g.Usual) {document : Json} {s : Scope} {f : Fragment}
    (h : CompiledDocument g document s f) : f.template.Unwraps := by
  have hinner : ∀ {inner : Compiler},
      (∀ value s f, inner .resource value s = .ok f → Compiled g value s f) →
      ∀ value s f, inner .resource value s = .ok f → f.template.Unwraps :=
    fun h value s f hf => (h value s f hf).unwraps hg
  cases h with
  | array inner hcompiled h =>
    obtain ⟨template, f', -, hf', rfl⟩ := compileNodeArray_eq_ok hg (hinner hcompiled) h
    exact hf'
  | graph _ _ _ inner hcompiled h =>
    obtain ⟨template, f', -, hf', rfl⟩ := compileNodeArray_eq_ok hg (hinner hcompiled) h
    exact ⟨hf', trivial⟩
  | node _ inner hcompiled htype h =>
    obtain ⟨context, identity, parts, -, -, hparts, rfl⟩ :=
      compileNodeObject_eq_ok hg (hinner hcompiled) htype h
    exact unwraps_node _ _ hparts
  | scalar => trivial

/-! ### No solution -/

lemma completeData_start {t : Template} (h : t.Unwraps) :
    ∃ data, completeData (t.result t.start) = .ok data ∧ (data = none ↔ t.awaitsData) := by
  have hstart := t.result_start h
  unfold Template.Awaits at hstart
  split at hstart
  · next hawaits =>
    obtain ⟨v, hv⟩ := hstart
    exact ⟨none, by rw [hv]; rfl, by simp [hawaits]⟩
  · next hawaits =>
    obtain ⟨d, hd⟩ := hstart
    exact ⟨some d, by rw [hd]; rfl, by simp [hawaits]⟩

lemma Source.evaluate_of_no_solution {graph : Graph} {p : Pattern}
    (h : p.evaluate graph [] = .ok []) : (Source.graph graph).evaluate p = .ok ([], none) := by
  simp [Source.evaluate, Table.evaluate, h, bind, Except.bind, pure, Except.pure, Except.map,
    Table.solutions, Table.ofSolutions, Table.sorted, Table.sortRows]

/-- Without a solution, the answer is the result of the template as it is. -/
lemma answer_eq_start {context : Context} {document : Json} {q : Query} {graph : Graph}
    {data : Option Json} (hq : g.compile context document = .ok q)
    (hnone : q.algebra.evaluate graph [] = .ok [])
    (hdata : completeData (q.template.result q.template.start) = .ok data) :
    g.answer context (.graph graph) document = .ok ⟨data, q.warnings⟩ := by
  have hanswer : q.answer (.graph graph) = .ok ⟨data, q.warnings⟩ := by
    refine bind_eq_ok.mpr ⟨([], none), ?_, ?_⟩
    · rw [Source.evaluate_of_no_solution hnone]
      rfl
    · refine bind_eq_ok.mpr ⟨q.template.start, rfl, ?_⟩
      exact bind_eq_ok.mpr ⟨data, mapError_eq_ok.mpr hdata, rfl⟩
  exact bind_eq_ok.mpr ⟨q, mapError_eq_ok.mpr hq, hanswer⟩

/-- Without a solution there is an answer, and it has no data exactly if the template of the
document awaits some. -/
theorem answer_of_no_solution {context : Context} {document : Json} {q : Query} {graph : Graph}
    (hq : Grammar.standard.compile context document = .ok q)
    (hnone : q.algebra.evaluate graph [] = .ok []) :
    ∃ r, Grammar.standard.answer context (.graph graph) document = .ok r ∧
      (r.data = none ↔ q.template.awaitsData) := by
  obtain ⟨f, hf, rfl⟩ := Grammar.standard_usual.compile_eq_ok hq
  obtain ⟨data, hdata, hiff⟩ := completeData_start (hf.unwraps Grammar.standard_usual)
  exact ⟨⟨data, f.toQuery.warnings⟩, answer_eq_start hq hnone hdata, hiff⟩

/-- A document with a placeholder has no data in the empty graph. -/
theorem answer_of_no_solution_placeholder :
    let document := Json.object [("@id", .string "ex:a"), ("ex:p", .string "?")]
    ∃ q r, Grammar.standard.compile .empty document = .ok q ∧
      q.algebra.evaluate .empty [] = .ok [] ∧
      Grammar.standard.answer .empty (.graph .empty) document = .ok r ∧ r.data = none := by
  intro document
  obtain ⟨q, hq, hnone, hawaits⟩ : ∃ q, Grammar.standard.compile .empty document = .ok q ∧
      q.algebra.evaluate .empty [] = .ok [] ∧ q.template.awaitsData :=
    ⟨_, rfl, rfl, rfl⟩
  obtain ⟨r, hr, hiff⟩ := answer_of_no_solution hq hnone
  exact ⟨q, r, hq, hnone, hr, hiff.mpr hawaits⟩

/-- A document of constants is its own answer in the empty graph, although nothing matches it. -/
theorem constants_answered_in_empty_graph :
    let document := Json.object [("@id", .string "ex:a"), ("ex:p", .string "x")]
    ∃ q r, Grammar.standard.compile .empty document = .ok q ∧
      q.algebra ≠ .project .unit q.projections ∧ q.algebra.evaluate .empty [] = .ok [] ∧
      Grammar.standard.answer .empty (.graph .empty) document = .ok r ∧
      r.data = some document := by
  intro document
  obtain ⟨q, hq, hunit, hnone, hdata⟩ : ∃ q, Grammar.standard.compile .empty document = .ok q ∧
      q.algebra ≠ .project .unit q.projections ∧ q.algebra.evaluate .empty [] = .ok [] ∧
      completeData (q.template.result q.template.start) = .ok (some document) :=
    ⟨_, rfl, by decide, rfl, rfl⟩
  exact ⟨q, _, hq, hunit, hnone, answer_eq_start hq hnone hdata, rfl⟩

end Exemplar
