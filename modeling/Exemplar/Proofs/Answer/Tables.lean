import Mathlib.Data.List.Perm.Basic
import Exemplar.Proofs.Answer.Rows
import Exemplar.Proofs.Compilation.Guards
import Exemplar.Proofs.Compilation.Items
import Exemplar.Proofs.Compilation.Projections

/-!
# Tables of compiled documents

A document is only compiled to patterns all parts of which can be evaluated, so a table of its
solutions is found in every graph. The table has a column for each projected variable, and in each
row the values that the variables have in a match. The table of an array is never empty, as an array
is optional.
-/

namespace Exemplar

/-! ### Parts of patterns -/

/-- A pattern and the patterns inside it, at any depth. -/
def Pattern.parts : Pattern → List Pattern
  | bgp triples => [bgp triples]
  | path subject p object => [path subject p object]
  | join left right => join left right :: (left.parts ++ right.parts)
  | leftJoin left right condition => leftJoin left right condition :: (left.parts ++ right.parts)
  | values header rows => [values header rows]
  | project inner header => project inner header :: inner.parts
  | distinct inner => distinct inner :: inner.parts
  | union left right => union left right :: (left.parts ++ right.parts)
  | minus left right => minus left right :: (left.parts ++ right.parts)
  | filter inner condition => filter inner condition :: inner.parts
  | slice inner => slice inner :: inner.parts
  | reduced inner => reduced inner :: inner.parts

/-- What is inside a pattern that can be evaluated can be evaluated as well. -/
lemma Pattern.isSupported_of_mem_parts {p part : Pattern} (hp : p.isSupported)
    (h : part ∈ p.parts) : part.isSupported := by
  induction p with
  | bgp | path | values =>
    rw [List.mem_singleton.mp h]
    exact hp
  | join left right ihl ihr =>
    obtain ⟨hl, hr⟩ := Bool.and_eq_true_iff.mp hp
    rcases List.mem_cons.mp h with rfl | h
    · exact hp
    · exact (List.mem_append.mp h).elim (ihl hl) (ihr hr)
  | leftJoin left right condition ihl ihr =>
    cases condition with
    | some v => cases hp
    | none =>
      obtain ⟨hl, hr⟩ := Bool.and_eq_true_iff.mp hp
      rcases List.mem_cons.mp h with rfl | h
      · exact hp
      · exact (List.mem_append.mp h).elim (ihl hl) (ihr hr)
  | project inner header ih | distinct inner ih =>
    rcases List.mem_cons.mp h with rfl | h
    · exact hp
    · exact ih hp h
  | union | minus | filter | slice | reduced => cases hp

/-! ### Tables -/

/-- Whether a table lists the values of some variables in some solutions: one column for each
variable and one row for each solution, in some order. What is read back from a row binds the
variables as the solution does, and nothing else. -/
structure Table.Lists (t : Table) (header : List Variable) (found : List Solution) : Prop where
  header_eq : t.header = header
  exists_order : ∃ order : List Solution, order.Perm found ∧
    t.rows = order.map (fun s => header.map s.get?) ∧
    List.Forall₂ (RowOf header) order t.solutions

namespace Table

/-- A cell has the value of its variable if no variable is listed twice. -/
lemma rowOf_of_nodup {header : List Variable} (h : header.Nodup) (s : Solution) :
    rowOf header s = header.map s.get? := by
  induction header generalizing s with
  | nil => rfl
  | cons v vs ih =>
    obtain ⟨hv, hvs⟩ := List.nodup_cons.mp h
    rw [rowOf, ih hvs, List.map_cons]
    refine congrArg _ (List.map_congr_left fun w hw => ?_)
    rw [get?_filter_ne, if_neg fun heq : w = v => hv (heq ▸ hw)]

variable {g : Graph} {p : Pattern} {header : List Variable} {found : List Solution}

/-- The table of a projected pattern lists the matches of the pattern. -/
lemma exists_evaluate_project (hheader : header.Nodup) (hfound : p.evaluate g [] = .ok found) :
    ∃ t, Table.evaluate g (.project p header) = .ok t ∧ t.Lists header found := by
  refine ⟨_, bind_eq_ok.mpr ⟨_, bind_eq_ok.mpr ⟨found, hfound, rfl⟩, rfl⟩, rfl, ?_⟩
  have hrow : ∀ s, rowOf header (Solution.extend [] header s) = header.map s.get? := by
    intro s
    rw [rowOf_of_nodup hheader]
    exact List.map_congr_left fun v hv => by rw [get?_extend_nil, if_pos hv]
  -- the rows are sorted, which some order of the matches explains
  have hrows : List.Forall₂ (fun row s => row = header.map (Solution.get? s))
      ((found.map (Solution.extend [] header)).map (rowOf header)) found := by
    simp [List.forall₂_map_left_iff, List.forall₂_same, hrow]
  obtain ⟨order, hsorted, hperm⟩ := List.perm_comp_forall₂ (sortRows_perm _) hrows
  have hrows : sortRows ((found.map (Solution.extend [] header)).map (rowOf header)) =
      order.map fun s => header.map s.get? := by
    rw [← List.forall₂_eq_eq_eq, List.forall₂_map_right_iff]
    exact hsorted
  refine ⟨order, hperm, hrows, ?_⟩
  change List.Forall₂ (RowOf header) order
    ((sortRows ((found.map (Solution.extend [] header)).map (rowOf header))).map (bindings header))
  rw [hrows, List.map_map, List.forall₂_map_right_iff, List.forall₂_same]
  intro s _
  have := rowOf_bindings header s
  rwa [rowOf_of_nodup hheader] at this

lemma Lists.solutions_ne_nil {t : Table} (h : t.Lists header found) (hfound : found ≠ []) :
    t.solutions ≠ [] := by
  obtain ⟨order, hperm, -, hsolutions⟩ := h.exists_order
  intro hnil
  rw [hnil] at hsolutions
  cases hsolutions
  exact hfound hperm.symm.eq_nil

end Table

/-! ### Optional operations -/

/-- An optional operation has a match in every graph. -/
lemma Operation.exists_matches_toPattern {g : Graph} {o : Operation} (hoptional : o.isOptional)
    (s : Solution) : ∃ m, o.toPattern.Matches g s m := by
  by_cases hempty : o.isEmpty
  · have hbuild : o.toPattern = .unit := by
      obtain ⟨triples, required, optionals, optional⟩ := o
      simp only [isEmpty, Bool.and_eq_true, List.isEmpty_iff] at hempty
      obtain ⟨⟨rfl, rfl⟩, rfl⟩ := hempty
      simp [toPattern, isEmpty, build, requiredPattern, bgp, joinAll]
    rw [hbuild]
    exact ⟨s, Pattern.matches_unit.mpr rfl⟩
  · simp only [matches_toPattern_iff hoptional hempty]
    by_cases hmatch : ∃ m, o.build.Matches g s m
    · exact hmatch.imp fun _ => .inl
    · exact ⟨s, .inr ⟨rfl, not_exists.mp hmatch⟩⟩

/-- The documents that are optional are the arrays, also below `@graph`. -/
lemma CompiledDocument.isOptional_iff {g : Grammar} (hg : g.Usual) {document : Json} {s : Scope}
    {f : Fragment} (h : CompiledDocument g document s f) :
    f.operation.isOptional ↔ (∃ items, document = .array items) ∨
      ∃ entries, document = .object entries ∧ isGraphContainer entries := by
  cases h with
  | array inner hinner h =>
    obtain ⟨template, f', -, -, rfl⟩ := compileNodeArray_eq_ok hg hinner h
    exact iff_of_true rfl (.inl ⟨_, rfl⟩)
  | graph hcontainer _ _ inner hinner h =>
    obtain ⟨template, f', -, -, rfl⟩ := compileNodeArray_eq_ok hg hinner h
    exact iff_of_true rfl (.inr ⟨_, rfl, hcontainer⟩)
  | node hcontainer inner hinner htype h =>
    obtain ⟨context, identity, parts, -, -, -, rfl⟩ := compileNodeObject_eq_ok hg hinner htype h
    simp [nodeFragment_not_isOptional, hcontainer]
  | scalar harray hobject => simp [Fragment.echo, harray, hobject]

/-! ### Compiled documents -/

/-- Every compiled document can be evaluated over every graph, with no part of its pattern that is
rejected anywhere. The table of its solutions lists the projected variables in the matches of the
pattern, and has a row if the document is optional as a whole, as arrays are. -/
theorem Grammar.compile_evaluates {g : Grammar} (hg : g.Usual) {context : Context}
    {document : Json} {q : Query} (hq : g.compile context document = .ok q) (graph : Graph) :
    (∀ part ∈ q.algebra.parts, ∀ s, ∃ found, part.evaluate graph s = .ok found) ∧
    ∃ f found t, compileLevels g document.depth g.document document (.root context) = .ok f ∧
      q = f.toQuery ∧ q.algebra = .project f.operation.toPattern q.projections ∧
      f.operation.toPattern.evaluate graph [] = .ok found ∧
      q.algebra.evaluate graph [] = .ok (found.map (Solution.extend [] q.projections)) ∧
      Table.evaluate graph q.algebra = .ok t ∧ t.Lists q.projections found ∧
      (f.operation.isOptional ↔ (∃ items, document = .array items) ∨
        ∃ entries, document = .object entries ∧ isGraphContainer entries) ∧
      (f.operation.isOptional → t.solutions ≠ []) := by
  obtain ⟨f, hf, rfl⟩ := map_eq_ok.mp hq
  have hdocument := hg.compiledDocument hf
  have hsupported := hdocument.isSupported hg
  have hnodup : f.toQuery.projections.Nodup := (hdocument.projects hg).nodup.filter _
  obtain ⟨found, hfound⟩ :=
    Pattern.exists_evaluate (p := f.operation.toPattern) hsupported graph []
  obtain ⟨t, ht, hlists⟩ := Table.exists_evaluate_project hnodup hfound
  refine ⟨fun part hpart s =>
      Pattern.exists_evaluate (Pattern.isSupported_of_mem_parts hsupported hpart) graph s,
    f, found, t, hf, rfl, rfl, hfound, bind_eq_ok.mpr ⟨found, hfound, rfl⟩, ht, hlists,
    hdocument.isOptional_iff hg, fun hoptional => ?_⟩
  obtain ⟨m, hm⟩ := Operation.exists_matches_toPattern (g := graph) hoptional []
  exact hlists.solutions_ne_nil (List.ne_nil_of_mem ((Pattern.mem_evaluate_iff hfound m).mpr hm))

/-- An array of nodes with lists has a solution even in the empty graph. -/
theorem Grammar.compile_evaluates_array : ∃ q t,
    Grammar.standard.compile .empty (.array [listedNodes]) = .ok q ∧
      q.projections.length = 5 ∧ Table.evaluate .empty q.algebra = .ok t ∧
      t.header = q.projections ∧ t.solutions ≠ [] := by
  obtain ⟨q, hq, hlength⟩ : ∃ q,
      Grammar.standard.compile .empty (.array [listedNodes]) = .ok q ∧ q.projections.length = 5 :=
    ⟨_, rfl, rfl⟩
  obtain ⟨-, f, found, t, -, -, -, -, -, ht, hlists, hoptional, hsolutions⟩ :=
    Grammar.compile_evaluates Grammar.standard_usual hq .empty
  exact ⟨q, t, hq, hlength, ht, hlists.header_eq, hsolutions (hoptional.mpr (.inl ⟨_, rfl⟩))⟩

end Exemplar
