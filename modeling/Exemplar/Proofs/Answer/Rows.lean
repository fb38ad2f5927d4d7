import Exemplar.Answer
import Exemplar.Proofs.Algebra.Meaning
import Exemplar.Proofs.Template.Parts

/-!
# The rows of an answer

What is folded into the template of a query: for each match of its pattern the bindings of the
variables that the template uses, in whatever order a source delivers them.
-/

namespace Exemplar

/-- Whether a row has the bindings of a match for the variables of a list, and no others. -/
def RowOf (header : List Variable) (s row : Solution) : Prop :=
  ∀ v, row.get? v = if v ∈ header then s.get? v else none

namespace Table

lemma get?_filter_ne (s : Solution) (v w : Variable) :
    Solution.get? (s.filter (·.1 ≠ v)) w = if w = v then none else s.get? w := by
  induction s with
  | nil => split <;> rfl
  | cons e rest ih =>
    by_cases he : e.1 = v
    · rw [List.filter_cons_of_neg (by simpa using he), ih, Solution.get?_cons]
      by_cases hw : w = v <;> simp [hw, he]
    · rw [List.filter_cons_of_pos (by simpa using he), Solution.get?_cons, ih,
        Solution.get?_cons]
      by_cases hw : w = e.1
      · simp [hw, he]
      · simp [hw]

/-- A row of a table is read back as what it was written from. -/
lemma rowOf_bindings (header : List Variable) (s : Solution) :
    RowOf header s (bindings header (rowOf header s)) := by
  induction header generalizing s with
  | nil => intro v; rfl
  | cons v vs ih =>
    intro w
    have hrest := ih (s.filter (·.1 ≠ v)) w
    rw [get?_filter_ne] at hrest
    rw [rowOf]
    cases hv : s.get? v with
    | none =>
      rw [bindings, hrest]
      by_cases hw : w = v
      · simp [hw, hv]
      · simp [hw]
    | some t =>
      rw [bindings, Solution.get?_cons, hrest]
      by_cases hw : w = v
      · simp [hw, hv]
      · simp [hw]

/-! ### Listed tables -/

lemma sortRows_perm (rows : List (List (Option Term))) : (sortRows rows).Perm rows := by
  refine ((List.mergeSort_perm _ _).map Prod.snd).trans ?_
  rw [List.map_map]
  exact .of_eq (List.map_id rows)

variable {t : Table}

/-- Whether the rows of a table are in the order in which they are listed. -/
def IsSorted (t : Table) : Prop :=
  t.rows.Pairwise fun a b => rowLe (a.map cellText) (b.map cellText)

instance : Decidable t.IsSorted :=
  inferInstanceAs (Decidable (t.rows.Pairwise fun a b =>
    rowLe (a.map cellText) (b.map cellText)))

/-- Rows that are in order are not rearranged. -/
lemma sorted_of_isSorted (h : t.IsSorted) : t.sorted = t := by
  have hkeyed : (t.rows.map fun row => (row.map cellText, row)).Pairwise
      fun a b => rowLe a.1 b.1 := by
    rw [List.pairwise_map]
    exact h
  have hrows : sortRows t.rows = t.rows := by
    rw [sortRows, List.mergeSort_of_pairwise hkeyed, List.map_map]
    exact List.map_id _
  rw [sorted, hrows]

lemma solutions_sorted_perm (t : Table) : t.sorted.solutions.Perm t.solutions :=
  (sortRows_perm t.rows).map _

end Table

section

variable {g : Graph} {p : Pattern} {q : Query} {found : List Solution}

/-- A graph delivers its solutions in the order in which they are listed. -/
lemma Source.delivers_graph (hfound : p.evaluate g [] = .ok found) :
    (Source.graph g).Delivers g p :=
  ⟨found, _, hfound, Table.solutions_sorted_perm _,
    map_eq_ok.mpr ⟨_, bind_eq_ok.mpr ⟨found, hfound, rfl⟩, rfl⟩⟩

/-- Rows that are given deliver the solutions of which they are a permutation. -/
lemma Source.delivers_rows (hfound : p.evaluate g [] = .ok found) {rows : List Solution}
    (hrows : rows.Perm (Table.ofSolutions p found).solutions) :
    (Source.rows rows none).Delivers g p :=
  ⟨found, rows, hfound, hrows, rfl⟩

/-- The rows of a query whose solutions are found in the order in which they are listed. -/
lemma Query.evaluate_of_isSorted (hfound : q.algebra.evaluate g [] = .ok found)
    (hsorted : (Table.ofSolutions q.algebra found).IsSorted) :
    (Source.graph g).evaluate q.algebra =
      .ok ((Table.ofSolutions q.algebra found).solutions, none) := by
  have htable : Table.evaluate g q.algebra = .ok (Table.ofSolutions q.algebra found) := by
    refine bind_eq_ok.mpr ⟨found, hfound, ?_⟩
    rw [Table.sorted_of_isSorted hsorted]
    rfl
  exact map_eq_ok.mpr ⟨_, htable, rfl⟩

end

/-- The answer to a query is what its template has been filled with by its rows. -/
lemma Query.answer_of_rows {q : Query} {source : Source} {rows : List Solution}
    {filling : q.template.Filling} {data : Option Json}
    (hrows : source.evaluate q.algebra = .ok (rows, none))
    (hfilling : q.template.addAll rows q.template.start = .ok filling)
    (hdata : completeData (q.template.result filling) = .ok data) :
    q.answer source = .ok ⟨data, q.warnings⟩ := by
  refine bind_eq_ok.mpr ⟨_, mapError_eq_ok.mpr hrows, ?_⟩
  refine bind_eq_ok.mpr ⟨filling, mapError_eq_ok.mpr hfilling, ?_⟩
  exact bind_eq_ok.mpr ⟨data, mapError_eq_ok.mpr hdata, rfl⟩

/-- The answer to a query that is delivered some rows. -/
lemma Query.answer_of_answer {q : Query} {source : Source} {rows : List Solution} {d : Json}
    (hrows : source.evaluate q.algebra = .ok (rows, none))
    (hd : q.template.answer rows = .ok d) : q.answer source = .ok ⟨some d, q.warnings⟩ := by
  obtain ⟨filling, hfilling, hresult⟩ := bind_eq_ok.mp hd
  exact answer_of_rows hrows hfilling (by rw [hresult]; rfl)

/-- The answer to a query whose solutions are found in the order in which they are listed. -/
lemma Query.answer_of_isSorted {q : Query} {g : Graph} {found : List Solution} {d : Json}
    (hfound : q.algebra.evaluate g [] = .ok found)
    (hsorted : (Table.ofSolutions q.algebra found).IsSorted)
    (hd : q.template.answer (Table.ofSolutions q.algebra found).solutions = .ok d) :
    q.answer (.graph g) = .ok ⟨some d, q.warnings⟩ :=
  answer_of_answer (evaluate_of_isSorted hfound hsorted) hd

lemma get?_extend_nil (header : List Variable) (m : Solution) :
    RowOf header m (Solution.extend [] header m) := by
  intro v
  rw [Pattern.get?_extend]
  exact Option.none_or

/-- The rows that are delivered for a projected pattern are its solutions. -/
lemma Source.Delivers.rows {source : Source} {g : Graph} {p : Pattern} {header : List Variable}
    (h : source.Delivers g (.project p header)) :
    ∃ found rows, (Pattern.project p header).evaluate g [] = .ok found ∧
      source.evaluate (.project p header) = .ok (rows, none) ∧
      (∀ row ∈ rows, ∃ s ∈ found, row.get? = s.get?) ∧
      ∀ s ∈ found, ∃ row ∈ rows, row.get? = s.get? := by
  obtain ⟨found, rows, hfound, hperm, hrows⟩ := h
  have hrow : ∀ s ∈ found, (Table.bindings header (Table.rowOf header s)).get? = s.get? := by
    intro s hs
    obtain ⟨m, -, rfl⟩ := (Pattern.mem_evaluate_iff hfound s).mp hs
    funext v
    rw [Table.rowOf_bindings, get?_extend_nil]
    split <;> rfl
  have hsolutions : (Table.ofSolutions (.project p header) found).solutions =
      found.map fun s => Table.bindings header (Table.rowOf header s) := List.map_map
  rw [hsolutions] at hperm
  refine ⟨found, rows, hfound, hrows, fun row hmem => ?_, fun s hs => ?_⟩
  · obtain ⟨s, hs, rfl⟩ := List.mem_map.mp (hperm.mem_iff.mp hmem)
    exact ⟨s, hs, hrow s hs⟩
  · exact ⟨_, hperm.mem_iff.mpr (List.mem_map.mpr ⟨s, hs, rfl⟩), hrow s hs⟩

/-- The answer to a query folds the solutions that are delivered, which are projected matches. -/
theorem Fragment.rows_of_answer {f : Fragment} {g : Graph} {source : Source} {r : Response}
    (hsource : source.Delivers g f.toQuery.algebra) (h : f.toQuery.answer source = .ok r) :
    ∃ found rows, f.toQuery.algebra.evaluate g [] = .ok found ∧
      (∀ row ∈ rows, ∃ s ∈ found, row.get? = s.get?) ∧
      (∀ s ∈ found, ∃ row ∈ rows, row.get? = s.get?) ∧
      ∃ filling, f.template.addAll rows f.template.start = .ok filling ∧
        completeData (f.template.result filling) = .ok r.data := by
  obtain ⟨found, rows, hfound, hevaluate, hrows, hsolutions⟩ := hsource.rows
  obtain ⟨_, heval, h⟩ := bind_eq_ok.mp h
  cases hevaluate.symm.trans (mapError_eq_ok.mp heval)
  obtain ⟨filling, hfilling, h⟩ := bind_eq_ok.mp h
  obtain ⟨data, hdata, heq⟩ := bind_eq_ok.mp h
  cases heq
  exact ⟨found, rows, hfound, hrows, hsolutions, filling, mapError_eq_ok.mp hfilling,
    mapError_eq_ok.mp hdata⟩

/-- The solutions of a query are the matches of its pattern, restricted to what the template
uses. -/
lemma Fragment.solutions_of_query {f : Fragment} {g : Graph} {found : List Solution}
    (h : f.toQuery.algebra.evaluate g [] = .ok found) :
    (∀ s ∈ found, ∃ m, f.operation.toPattern.Matches g [] m ∧
      RowOf f.toQuery.projections m s) ∧
    ∀ m, f.operation.toPattern.Matches g [] m → ∃ s ∈ found, RowOf f.toQuery.projections m s := by
  constructor
  · intro s hs
    obtain ⟨m, hm, rfl⟩ := (Pattern.mem_evaluate_iff h s).mp hs
    exact ⟨m, hm, get?_extend_nil _ m⟩
  · exact fun m hm => ⟨_, (Pattern.mem_evaluate_iff h _).mpr ⟨m, hm, rfl⟩, get?_extend_nil _ m⟩

lemma completeData_eq_some {x : Except AnswerError Json} {d : Json}
    (h : completeData x = .ok (some d)) : x = .ok d := by
  cases x with
  | ok d' =>
    cases h
    rfl
  | error e =>
    simp only [completeData] at h
    split at h <;> cases h

/-- Whether rows have the bindings of the matches of a pattern for some variables. -/
structure Pattern.Rows (g : Graph) (p : Pattern) (vs : List Variable) (rows : List Solution) :
    Prop where
  exists_match (row : Solution) (hrow : row ∈ rows) :
    ∃ m, p.Matches g [] m ∧ ∀ v ∈ vs, row.get? v = m.get? v
  exists_row (m : Solution) (hm : p.Matches g [] m) :
    ∃ row ∈ rows, ∀ v ∈ vs, row.get? v = m.get? v

lemma Pattern.Rows.mono {g : Graph} {p : Pattern} {vs ws : List Variable} {rows : List Solution}
    (h : p.Rows g vs rows) (hsub : ∀ x ∈ ws, x ∈ vs) : p.Rows g ws rows := by
  refine ⟨fun row hrow => ?_, fun m hm => ?_⟩
  · obtain ⟨m, hm, heq⟩ := h.exists_match row hrow
    exact ⟨m, hm, fun x hx => heq x (hsub x hx)⟩
  · obtain ⟨row, hrow, heq⟩ := h.exists_row m hm
    exact ⟨row, hrow, fun x hx => heq x (hsub x hx)⟩

/-- The rows that are delivered for a query: the matches of its pattern, restricted to what the
template uses. -/
theorem Fragment.rows_of_delivers {f : Fragment} {g : Graph} {source : Source}
    (h : source.Delivers g f.toQuery.algebra) :
    ∃ rows, source.evaluate f.toQuery.algebra = .ok (rows, none) ∧
      (∀ row ∈ rows, ∃ m, f.operation.toPattern.Matches g [] m ∧
        RowOf f.toQuery.projections m row) ∧
      ∀ m, f.operation.toPattern.Matches g [] m →
        ∃ row ∈ rows, RowOf f.toQuery.projections m row := by
  obtain ⟨found, rows, hfound, hrows, hmem, hmem'⟩ := h.rows
  obtain ⟨hsolution, hmatch⟩ := Fragment.solutions_of_query hfound
  refine ⟨rows, hrows, fun row hrow => ?_, fun m hm => ?_⟩
  · obtain ⟨s, hs, heq⟩ := hmem row hrow
    obtain ⟨m, hm, hrowOf⟩ := hsolution s hs
    exact ⟨m, hm, fun v => by rw [heq, hrowOf v]⟩
  · obtain ⟨s, hs, hrowOf⟩ := hmatch m hm
    obtain ⟨row, hrow, heq⟩ := hmem' s hs
    exact ⟨row, hrow, fun v => by rw [heq, hrowOf v]⟩

/-- The solutions of a query that can be evaluated are delivered by the graph. -/
lemma Fragment.delivers_graph {f : Fragment} (hsupported : f.operation.toPattern.isSupported)
    (g : Graph) : (Source.graph g).Delivers g f.toQuery.algebra := by
  obtain ⟨found, hfound⟩ := Pattern.exists_evaluate (p := f.toQuery.algebra) hsupported g []
  exact Source.delivers_graph hfound

/-- A query is answered by what its template gives for the rows of its pattern. -/
lemma Fragment.answer_of_gives {f : Fragment} {g : Graph} {source : Source} {d : Json}
    (hsource : source.Delivers g f.toQuery.algebra)
    (h : ∀ rows, f.operation.toPattern.Rows g f.toQuery.projections rows →
      f.template.Gives rows d) :
    f.toQuery.answer source = .ok ⟨some d, f.warnings⟩ := by
  obtain ⟨rows, hrows, hmatch, hrow⟩ := Fragment.rows_of_delivers hsource
  have hagree : ∀ {m row : Solution}, RowOf f.toQuery.projections m row →
      ∀ v ∈ f.toQuery.projections, row.get? v = m.get? v :=
    fun h v hv => by rw [h v, if_pos hv]
  obtain ⟨filling, hfilling, hresult⟩ := h rows {
    exists_match := fun row hmem => (hmatch row hmem).imp fun m hm => ⟨hm.1, hagree hm.2⟩
    exists_row := fun m hm => (hrow m hm).imp fun row hrow => ⟨hrow.1, hagree hrow.2⟩ }
  have hdata : completeData (f.template.result filling) = .ok (some d) := by
    rw [hresult]
    rfl
  exact Query.answer_of_rows (q := f.toQuery) hrows hfilling hdata

/-- A document whose template gives the same for all rows of its pattern has one answer. -/
theorem Grammar.answersAlways_of_gives {g : Grammar} {context : Context} {document d : Json}
    {graph : Graph} {f : Fragment} (hcompile : g.compile context document = .ok f.toQuery)
    (hsupported : f.operation.toPattern.isSupported)
    (h : ∀ rows, f.operation.toPattern.Rows graph f.toQuery.projections rows →
      f.template.Gives rows d) :
    g.AnswersAlways context graph document ⟨some d, f.warnings⟩ := by
  refine ⟨bind_eq_ok.mpr ⟨_, mapError_eq_ok.mpr hcompile, ?_⟩, fun q source hq hsource => ?_⟩
  · exact Fragment.answer_of_gives (Fragment.delivers_graph hsupported graph) h
  · cases hcompile.symm.trans hq
    exact Fragment.answer_of_gives hsource h

end Exemplar
