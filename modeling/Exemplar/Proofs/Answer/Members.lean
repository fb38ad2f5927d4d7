import Exemplar.Proofs.Answer.Rows
import Exemplar.Proofs.Compilation.Awaited
import Exemplar.Proofs.Compilation.Composition

/-!
# Members of arrays

An array never makes an answer incomplete. What is found for a member of an array is found with all
that the member awaits, or not at all, so that an array without matches is empty.
-/

namespace Exemplar

variable {g : Graph}

/-- The rows of a fragment bind what the members of its arrays await with the variables of the
arrays. -/
lemma Fragment.Binds.completesMembers {f : Fragment} {v : Variable} (h : f.Binds g v)
    {m row : Solution} (hmatch : f.operation.toPattern.Matches g [] m)
    (hrow : RowOf f.toQuery.projections m row) : row.CompletesMembers f.template := by
  intro member hmember hbound y hy
  have hvariable : m.get? member.1 ≠ none := by
    intro hnone
    refine hbound ((hrow member.1).trans ?_)
    rw [hnone, ite_self]
  obtain ⟨hprojected, rfl | ⟨t, hyt, hguards, -⟩⟩ := h.members member hmember y hy
  · exact hbound
  · have hy : m.get? y ≠ none := (hguards.toPattern [] m hmatch rfl hvariable).binds hyt
    have hmentioned : y ∈ f.operation.toPattern.mentioned := by
      by_contra hnot
      exact hy (hmatch.extendsBy.get?_eq_none hnot rfl)
    have hheader : y ∈ f.toQuery.projections :=
      List.mem_filter.mpr ⟨hprojected, decide_eq_true hmentioned⟩
    rwa [hrow y, if_pos hheader]

/-- A row that binds the variable of an array, or that of the slots of a list, binds all that the
members await, so after all rows are folded no member lacks data, and the answer only lacks data
that is awaited outside all arrays: if the document is compiled without a warning, and no item of a
list is an array. The rows are those of any source that delivers the solutions, of which the graph
itself is one, and are folded in the order in which it delivers them. -/
theorem members_completed {context : Context} {document : Json} {q : Query}
    (hq : Grammar.standard.compile context document = .ok q) (hwarnings : q.warnings = [])
    (hitems : ∀ template, ItemOfDocument .standard context document template →
      ∀ items, template ≠ .array items) (graph : Graph) :
    (Source.graph graph).Delivers graph q.algebra ∧
    ∀ source : Source, source.Delivers graph q.algebra →
      ∃ rows, source.evaluate q.algebra = .ok (rows, none) ∧
        (∀ row ∈ rows, row.CompletesMembers q.template) ∧
        ∀ filling, q.template.addAll rows q.template.start = .ok filling →
          q.template.CompletedBy rows filling := by
  obtain ⟨f, hf, rfl⟩ := Grammar.standard_usual.compile_eq_ok hq
  refine ⟨Fragment.delivers_graph (hf.isSupported Grammar.standard_usual) graph,
    fun source hsource => ?_⟩
  obtain ⟨rows, hrows, hmatch, -⟩ := Fragment.rows_of_delivers hsource
  have hbinds := hf.binds Grammar.standard_usual hwarnings hitems (g := graph)
  have hcompletes : ∀ row ∈ rows, row.CompletesMembers f.template := by
    intro row hrow
    obtain ⟨m, hm, hrowOf⟩ := hmatch row hrow
    exact hbinds.completesMembers hm hrowOf
  exact ⟨rows, hrows, hcompletes, fun filling hfilling =>
    Template.completedBy_of_addAll f.template hfilling hcompletes⟩

section

/-- Asks for the nodes that a node is linked to, each with a value. -/
def nodesWithValue : Entries :=
  [("@id", .string "ex:a"),
    ("ex:p", .array [.object [("@id", .string "?"), ("ex:q", .string "?")]])]

/-- Links to two nodes, of which one has a value. -/
def oneValue : Graph :=
  ⟨[⟨.iri ⟨"ex:a"⟩, ⟨"ex:p"⟩, .iri ⟨"ex:b"⟩⟩, ⟨.iri ⟨"ex:a"⟩, ⟨"ex:p"⟩, .iri ⟨"ex:c"⟩⟩,
    ⟨.iri ⟨"ex:b"⟩, ⟨"ex:q"⟩, .literal (.simple "x")⟩], by decide⟩

/-- A node without a value is no member of an array whose members have values. -/
theorem members_completed_one_value :
    ∃ q row, Grammar.standard.compile .empty (.object nodesWithValue) = .ok q ∧ q.warnings = [] ∧
      (Source.graph oneValue).evaluate q.algebra = .ok ([row], none) ∧
      row.get? ⟨"root.p"⟩ = some (.iri ⟨"ex:b"⟩) ∧ row.CompletesMembers q.template := by
  obtain ⟨q, found, row, hq, hwarnings, hfound, hsorted, hrow, hmember⟩ : ∃ q found row,
      Grammar.standard.compile .empty (.object nodesWithValue) = .ok q ∧ q.warnings = [] ∧
      q.algebra.evaluate oneValue [] = .ok found ∧
      (Table.ofSolutions q.algebra found).IsSorted ∧
      (Table.ofSolutions q.algebra found).solutions = [row] ∧
      row.get? ⟨"root.p"⟩ = some (.iri ⟨"ex:b"⟩) :=
    ⟨_, _, _, rfl, rfl, rfl, by decide, rfl, rfl⟩
  have hevaluate := Query.evaluate_of_isSorted hfound hsorted
  rw [hrow] at hevaluate
  obtain ⟨hgraph, h⟩ := members_completed hq hwarnings
    (fun template hi => hi.apart (by
      simp [Json.ArraysApart, Json.ItemsApart, Json.EntriesApart, nodesWithValue])) oneValue
  obtain ⟨rows, hrows, hcompletes, -⟩ := h _ hgraph
  cases hevaluate.symm.trans hrows
  exact ⟨q, row, hq, hwarnings, hevaluate, hmember, hcompletes row (List.mem_singleton_self row)⟩

/-- Asks for the values of each item of a list, as the only member of an array. -/
def listOfArrays : Entries :=
  [("@id", .string "ex:a"),
    ("ex:l", .object [("@list", .array [.array [.object [("ex:q", .string "?")]]])])]

/-- A list of one node without a value. -/
def listWithoutValue : Graph :=
  ⟨[⟨.iri ⟨"ex:a"⟩, ⟨"ex:l"⟩, .iri ⟨"ex:n"⟩⟩, ⟨.iri ⟨"ex:n"⟩, Iri.rdfFirst, .iri ⟨"ex:b"⟩⟩,
    ⟨.iri ⟨"ex:n"⟩, Iri.rdfRest, .iri Iri.rdfNil⟩], by decide⟩

/-- The members of the array that is the item of the list. -/
def memberOfItem : Variable × Template :=
  (⟨"root.l.item"⟩, .object none [("ex:q", .native ⟨"root.l.item.q"⟩)])

/-- The slot of a list binds the variable of an array that is its item, whether or not the array
has a match. The answer is then incomplete, although the array could be empty. -/
theorem member_of_item_incomplete :
    ∃ q row filling, Grammar.standard.compile .empty (.object listOfArrays) = .ok q ∧
      q.warnings = [] ∧
      (Source.graph listWithoutValue).evaluate q.algebra = .ok ([row], none) ∧
      row.get? ⟨"root.l.item"⟩ = some (.iri ⟨"ex:b"⟩) ∧
      row.get? ⟨"root.l.item.q"⟩ = none ∧
      memberOfItem ∈ q.template.memberTemplates ∧
      ¬ row.CompletesMembers q.template ∧
      q.template.addAll [row] q.template.start = .ok filling ∧
      ¬ q.template.MembersComplete filling ∧
      Grammar.standard.answer .empty (.graph listWithoutValue) (.object listOfArrays) =
        .ok ⟨none, []⟩ := by
  have hfixed : ∃ q found row, ∃ filling : q.template.Filling,
      Grammar.standard.compile .empty (.object listOfArrays) = .ok q ∧ q.warnings = [] ∧
      q.algebra.evaluate listWithoutValue [] = .ok found ∧
      (Table.ofSolutions q.algebra found).IsSorted ∧
      (Table.ofSolutions q.algebra found).solutions = [row] ∧
      row.get? ⟨"root.l.item"⟩ = some (.iri ⟨"ex:b"⟩) ∧ row.get? ⟨"root.l.item.q"⟩ = none ∧
      q.template.memberTemplates =
        [(⟨"root.l.slot"⟩, .set ⟨"root.l.item"⟩ memberOfItem.2), memberOfItem] ∧
      q.template.addAll [row] q.template.start = .ok filling ∧
      ¬ q.template.MembersComplete filling ∧
      completeData (q.template.result filling) = .ok none :=
    ⟨_, _, _, _, rfl, rfl, rfl, by decide, rfl, rfl, rfl, rfl, rfl,
      fun h => ((h.2.1.1 _ List.mem_cons_self).1 _ List.mem_cons_self).2 ⟨_, rfl⟩, rfl⟩
  obtain ⟨q, found, row, filling, hq, hwarnings, hfound, hsorted, hrow, hitem, hvalue, hmembers,
    hfilling, hincomplete, hdata⟩ := hfixed
  have hevaluate := Query.evaluate_of_isSorted hfound hsorted
  rw [hrow] at hevaluate
  have hmember : memberOfItem ∈ q.template.memberTemplates := by
    rw [hmembers]
    exact List.mem_cons_of_mem _ List.mem_cons_self
  refine ⟨q, row, filling, hq, hwarnings, hevaluate, hitem, hvalue, hmember, ?_, hfilling,
    hincomplete, ?_⟩
  · intro hcompletes
    have hbound : row.get? ⟨"root.l.item"⟩ ≠ none := by simp [hitem]
    exact hcompletes _ hmember hbound ⟨"root.l.item.q"⟩ List.mem_cons_self hvalue
  · have hanswer := Query.answer_of_rows hevaluate hfilling hdata
    rw [hwarnings] at hanswer
    exact bind_eq_ok.mpr ⟨q, mapError_eq_ok.mpr hq, hanswer⟩

end

end Exemplar
