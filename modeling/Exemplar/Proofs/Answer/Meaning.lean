import Exemplar.Proofs.Algebra.BottomUp
import Exemplar.Proofs.Answer.Tables
import Exemplar.Proofs.Compilation.Composition
import Exemplar.Proofs.Compilation.WellDesigned

/-!
# The meaning of compiled documents

What a source delivers for a document are the solutions that its pattern has from the bottom up,
restricted to the variables that its template uses. The pattern is well designed, and without the
chains of lists it is built from triple patterns and tables only, so evaluation finds its meaning.
-/

namespace Exemplar

/-! ### Restriction -/

/-- The assignment with the terms of some variables only. -/
def Assignment.restrict (vs : List Variable) (μ : Assignment) : Assignment :=
  fun x => if x ∈ vs then μ x else none

section

variable {vs ws : List Variable} {μ ν : Assignment}

lemma Assignment.restrict_eq_iff :
    μ.restrict vs = ν.restrict vs ↔ ∀ x ∈ vs, μ x = ν x := by
  constructor
  · intro h x hx
    simpa [restrict, hx] using congrFun h x
  · intro h
    funext x
    by_cases hx : x ∈ vs <;> simp [restrict, hx, h]

lemma Assignment.restrict_restrict (h : ∀ x ∈ vs, x ∈ ws) :
    (μ.restrict ws).restrict vs = μ.restrict vs :=
  restrict_eq_iff.mpr fun x hx => by simp [restrict, h x hx]

lemma RowOf.get?_eq {s row : Solution} (h : RowOf vs s row) :
    row.get? = Assignment.restrict vs s.get? :=
  funext h

/-- The rows that are delivered for a query stand for the matches of its pattern, restricted to its
projections. -/
lemma Fragment.assignments_of_delivers {f : Fragment} {g : Graph} {source : Source}
    (h : source.Delivers g f.toQuery.algebra) :
    ∃ rows, source.evaluate f.toQuery.algebra = .ok (rows, none) ∧
      assignments rows = Assignment.restrict f.toQuery.projections ''
        reached (f.operation.toPattern.Matches g) [] := by
  obtain ⟨rows, hrows, hmatch, hrow⟩ := Fragment.rows_of_delivers h
  refine ⟨rows, hrows, Set.ext fun μ => ⟨?_, ?_⟩⟩
  · rintro ⟨row, hmem, rfl⟩
    obtain ⟨m, hm, h⟩ := hmatch row hmem
    exact ⟨m.get?, ⟨m, hm, rfl⟩, h.get?_eq.symm⟩
  · rintro ⟨_, ⟨m, hm, rfl⟩, rfl⟩
    obtain ⟨row, hmem, h⟩ := hrow m hm
    exact ⟨row, hmem, h.get?_eq⟩

end

/-! ### Patterns without paths -/

namespace Pattern

variable {p : Pattern} {x : Variable}

def isPath : Pattern → Bool
  | path _ _ _ => true
  | _ => false

/-- Whether there is a path in a pattern, at any depth. -/
def HasPath (p : Pattern) : Prop := ∃ part ∈ p.parts, part.isPath

instance : Decidable p.HasPath := inferInstanceAs (Decidable (∃ part ∈ p.parts, part.isPath))

lemma HasPath.mono {part : Pattern} (h : part.HasPath) (hsub : part.parts ⊆ p.parts) :
    p.HasPath :=
  h.imp fun _ hpath => ⟨hsub hpath.1, hpath.2⟩

/-- Joins are relational if their sides are, unless there are chains and one of them has a path. -/
lemma composes_isRelational (chained : Prop) :
    Composes fun p => (chained → ¬ p.HasPath) → p.isRelational where
  bgp _ _ := rfl
  values _ _ _ := rfl
  join hleft hright h := Bool.and_eq_true_iff.mpr
    ⟨hleft fun hc hp => h hc (hp.mono (by simp [parts])),
      hright fun hc hp => h hc (hp.mono (by simp [parts]))⟩
  leftJoin hleft hright h := Bool.and_eq_true_iff.mpr
    ⟨hleft fun hc hp => h hc (hp.mono (by simp [parts])),
      hright fun hc hp => h hc (hp.mono (by simp [parts]))⟩

/-- The variables of triple patterns are certain. -/
lemma mem_certain_of_inTriples (hp : p.isRelational) (hx : x ∈ p.inTriples) : x ∈ p.certain := by
  induction p with
  | bgp => exact hx
  | path | values => cases hx
  | join left right ihl ihr =>
    obtain ⟨hleft, hright⟩ := Bool.and_eq_true_iff.mp hp
    exact List.mem_append.mpr ((List.mem_append.mp hx).imp (ihl hleft) (ihr hright))
  | leftJoin left right condition ihl ihr =>
    cases condition with
    | some c => cases hp
    | none => exact ihl (Bool.and_eq_true_iff.mp hp).1 hx
  | project | distinct | union | minus | filter | slice | reduced => cases hp

lemma WellDesigned.certain (hp : p.isRelational) {outside : List Variable}
    (h : p.WellDesigned inTriples outside) : p.WellDesigned certain outside := by
  induction p generalizing outside with
  | bgp | path | values => trivial
  | join left right ihl ihr =>
    obtain ⟨hleft, hright⟩ := Bool.and_eq_true_iff.mp hp
    exact ⟨ihl hleft h.1, ihr hright h.2⟩
  | leftJoin left right condition ihl ihr =>
    cases condition with
    | some c => cases hp
    | none =>
      obtain ⟨hleft, hright⟩ := Bool.and_eq_true_iff.mp hp
      obtain ⟨hbound, hwdleft, hwdright⟩ := h
      exact ⟨fun v hv hout => mem_certain_of_inTriples hleft (hbound v hv hout),
        ihl hleft hwdleft, ihr hright hwdright⟩
  | project | distinct | union | minus | filter | slice | reduced => cases hp

end Pattern

/-! ### Documents -/

section

variable {g : Grammar} (hg : g.Usual)

include hg

/-- Without chains, the pattern of a document is relational. -/
lemma CompiledDocument.isRelational {document : Json} {s : Scope} {f : Fragment}
    (h : CompiledDocument g document s f)
    (hchains : g.listObject = .linkedList → ¬ f.operation.toPattern.HasPath) :
    f.operation.toPattern.isRelational := by
  have hpath : g.listObject = .linkedList → Pattern.HoldsOfChains fun p =>
      (g.listObject = .linkedList → ¬ p.HasPath) → p.isRelational :=
    fun hlinked _ _ hnone => absurd ⟨_, List.mem_singleton.mpr rfl, rfl⟩ (hnone hlinked)
  exact h.holds (Pattern.composes_isRelational _) hpath hg hchains

/-- Whatever delivers the solutions of a document that is compiled without a warning, and whose
lists are no chains, delivers the bottom-up meaning of its pattern, restricted to the variables that
its template uses: if the node at the root is known or has a required entry, and if no item of a
list is an array. The graph itself delivers them. -/
theorem Grammar.compile_meaning {context : Context} {document : Json} {q : Query}
    (hq : g.compile context document = .ok q) (hwarnings : q.warnings = []) {root : Entries}
    (hroot : RootNode context document root) (hrequires : RequiresNode g (.root context) root)
    (hitems : ∀ template, ItemOfDocument g context document template →
      ∀ items, template ≠ .array items)
    (hchains : g.listObject = .linkedList → ¬ q.algebra.HasPath) {graph : Graph}
    (hgraph : graph.FullyIndexed) :
    ∃ p, q.algebra = .project p q.projections ∧
      (Source.graph graph).Delivers graph q.algebra ∧
      ∀ source : Source, source.Delivers graph q.algebra →
        ∃ rows, source.evaluate q.algebra = .ok (rows, none) ∧
          assignments rows = Assignment.restrict q.projections '' p.meaning graph := by
  obtain ⟨f, hf, rfl⟩ := hg.compile_eq_ok hq
  have hrelational : f.operation.toPattern.isRelational := by
    refine hf.isRelational hg fun hlinked hpath => hchains hlinked (hpath.mono ?_)
    exact List.subset_cons_self _ _
  have hwd : f.operation.toPattern.WellDesigned Pattern.certain [] :=
    (hf.closed hg hwarnings hroot hrequires hitems).nested.wellDesigned_toPattern.certain
      hrelational
  refine ⟨f.operation.toPattern, rfl, Fragment.delivers_graph (hf.isSupported hg) graph, ?_⟩
  intro source hsource
  obtain ⟨rows, hrows, hassignments⟩ := Fragment.assignments_of_delivers hsource
  refine ⟨rows, hrows, hassignments.trans (congrArg _ ?_)⟩
  have hjoin : reached (f.operation.toPattern.Matches graph) [] =
      Assignment.join {Solution.get? []} (f.operation.toPattern.meaning graph) :=
    Pattern.matched_eq_join hgraph hrelational hwd fun v hv => absurd rfl hv
  exact hjoin.trans join_empty

end

section

/-- Asks for nodes with a value, and for all their values of another kind. -/
def valuedNode : Entries :=
  [("@id", .string "?"), ("ex:p", .string "?"), ("ex:q", .array [.string "?"])]

/-- Two nodes with a value, of which one has another value as well. -/
def valuedNodes : Graph :=
  ⟨[⟨.iri ⟨"ex:a"⟩, ⟨"ex:p"⟩, .literal (.simple "x")⟩,
    ⟨.iri ⟨"ex:b"⟩, ⟨"ex:p"⟩, .literal (.simple "y")⟩,
    ⟨.iri ⟨"ex:b"⟩, ⟨"ex:q"⟩, .literal (.simple "z")⟩], by decide⟩

/-- A left join, whose right side has no match for one of two nodes. -/
example : ∃ q p rows, Grammar.standard.compile .empty (.object valuedNode) = .ok q ∧
    q.algebra = .project p q.projections ∧
    (Source.graph valuedNodes).evaluate q.algebra = .ok (rows, none) ∧ rows.length = 2 ∧
    assignments rows = Assignment.restrict q.projections '' p.meaning valuedNodes := by
  obtain ⟨q, found, hq, hwarnings, hchains, hfound, hsorted, hlength⟩ : ∃ q found,
      Grammar.standard.compile .empty (.object valuedNode) = .ok q ∧ q.warnings = [] ∧
      ¬ q.algebra.HasPath ∧ q.algebra.evaluate valuedNodes [] = .ok found ∧
      (Table.ofSolutions q.algebra found).IsSorted ∧
      (Table.ofSolutions q.algebra found).solutions.length = 2 :=
    ⟨_, _, rfl, rfl, by decide +kernel, rfl, by decide, rfl⟩
  obtain ⟨p, halgebra, hgraph, hmeaning⟩ :=
    Grammar.compile_meaning Grammar.standard_usual hq hwarnings (.document (by decide))
      ⟨.empty, rfl, .inr ⟨"ex:p", _, .tail _ (.head _),
        .inr ⟨⟨⟨"ex:p"⟩, rfl⟩, fun items hkind => nomatch hkind⟩⟩⟩
      (fun template hi => hi.apart
        (by simp [Json.ArraysApart, Json.ItemsApart, Json.EntriesApart, valuedNode]))
      (fun _ => hchains) (by decide : valuedNodes.FullyIndexed)
  obtain ⟨rows, hrows, heq⟩ := hmeaning _ hgraph
  cases (Query.evaluate_of_isSorted hfound hsorted).symm.trans hrows
  exact ⟨q, p, _, hq, halgebra, hrows, hlength, heq⟩

end

end Exemplar
