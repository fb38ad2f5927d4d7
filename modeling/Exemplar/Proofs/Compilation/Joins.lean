import Exemplar.Proofs.Algebra.Locality
import Exemplar.Proofs.Compilation.Composition

/-!
# Joins of operations

An operation that is joined into another one becomes an optional group of it, or is added to it
part by part. In the second case its required patterns are matched before the optional groups of
the first operation and not after them. This finds the same solutions if the groups share no
variable with the required patterns but those of triple patterns.
-/

namespace Exemplar

open Relation (Comp)

/-! ### Joining steps -/

/-- Whether a step joins the same assignments to every solution. -/
def IsJoin (step : MatchStep) : Prop :=
  ∃ B, ∀ s, reached step s = Assignment.join {s.get?} B

namespace IsJoin

variable {step next : MatchStep}

lemma stay : IsJoin fun s s' => s' = s := by
  refine ⟨{Solution.get? []}, fun s => ?_⟩
  rw [Assignment.join_comm, join_empty]
  ext μ
  simp [reached, eq_comm]

lemma comp (h : IsJoin step) (h' : IsJoin next) : IsJoin (Comp step next) := by
  obtain ⟨A, hA⟩ := h
  obtain ⟨B, hB⟩ := h'
  refine ⟨Assignment.join A B, fun s => ?_⟩
  rw [reached_comp fun m _ => hB m, hA, Assignment.join_assoc]

/-- Joins may be taken in the other order. -/
lemma commute (h : IsJoin step) (h' : IsJoin next) (s : Solution) :
    reached (Comp step next) s = reached (Comp next step) s := by
  obtain ⟨A, hA⟩ := h
  obtain ⟨B, hB⟩ := h'
  rw [reached_comp fun m _ => hB m, reached_comp fun m _ => hA m, hA, hB, Assignment.join_assoc,
    Assignment.join_assoc, Assignment.join_comm (A := A)]

end IsJoin

/-- Two searches that take the triples, then the other required patterns and at last the optional
groups of an operation may be interleaved. -/
lemma reached_interleaved {ta ra oa tb rb ob : MatchStep} {vs ws us : List Variable}
    (hrb : IsLocal vs rb) (hoa : IsLocal ws oa) (hob : IsLocal us ob) {s : Solution}
    (htriples : ∀ m, reached (Comp tb ra) m = reached (Comp ra tb) m)
    (hgroups : ∀ m, Comp ta ra s m →
      reached (Comp (Comp tb rb) oa) m = reached (Comp oa (Comp tb rb)) m) :
    reached (Comp (Comp (Comp ta tb) (Comp ra rb)) (Comp oa ob)) s =
      reached (Comp (Comp (Comp ta ra) oa) (Comp (Comp tb rb) ob)) s :=
  calc reached (Comp (Comp (Comp ta tb) (Comp ra rb)) (Comp oa ob)) s
      = reached (Comp (Comp ta (Comp tb ra)) (Comp rb (Comp oa ob))) s := by
        simp only [Relation.comp_assoc]
    _ = reached (Comp (Comp ta (Comp ra tb)) (Comp rb (Comp oa ob))) s :=
        reached_comp_congr (hrb.comp (hoa.comp hob)) fun m _ => htriples m
    _ = reached (Comp (Comp (Comp ta ra) (Comp (Comp tb rb) oa)) ob) s := by
        simp only [Relation.comp_assoc]
    _ = reached (Comp (Comp (Comp ta ra) (Comp oa (Comp tb rb))) ob) s :=
        reached_comp_congr hob hgroups
    _ = reached (Comp (Comp (Comp ta ra) oa) (Comp (Comp tb rb) ob)) s := by
        simp only [Relation.comp_assoc]

namespace Pattern

/-- The patterns that operations require: triple patterns, tables and proper paths. -/
inductive IsBasic : Pattern → Prop
  | bgp (triples : List TriplePattern) : IsBasic (.bgp triples)
  | values (header : List Variable) (rows : List (List (Option Term))) :
    IsBasic (.values header rows)
  | path {p : Path} (hp : p.isProper) (subject object : PatternTerm) :
    IsBasic (.path subject p object)

variable {g : Graph}

lemma IsBasic.isSupported {p : Pattern} (h : p.IsBasic) : p.isSupported := by
  cases h <;> rfl

lemma IsBasic.isJoin (hg : g.FullyIndexed) {p : Pattern} (h : p.IsBasic) :
    IsJoin (p.Matches g) := by
  cases h with
  | bgp triples => exact ⟨_, fun s => matched_bgp hg triples⟩
  | values header rows => exact ⟨_, fun s => matched_values header rows⟩
  | path hp subject object => exact ⟨_, fun s => matched_path hg hp subject object⟩

lemma isJoin_matchesAll (hg : g.FullyIndexed) {ps : List Pattern} (h : ∀ p ∈ ps, p.IsBasic) :
    IsJoin (MatchesAll g ps) := by
  induction ps with
  | nil => exact .stay
  | cons p rest ih =>
    rw [List.forall_mem_cons] at h
    exact (h.1.isJoin hg).comp (ih h.2)

/-- A left join keeps and extends each solution of its left side. -/
lemma exists_evaluate_leftJoin {left right : Pattern} (hleft : left.isSupported)
    (hright : right.isSupported) (g : Graph) (s : Solution) :
    ∃ found found', left.evaluate g s = .ok found ∧
      (leftJoin left right none).evaluate g s = .ok found' ∧
      (∀ m ∈ found, ∃ m' ∈ found', Below m.get? m'.get?) ∧
      ∀ m' ∈ found', ∃ m ∈ found, Below m.get? m'.get? := by
  have hboth : (leftJoin left right none).isSupported :=
    Bool.and_eq_true_iff.mpr ⟨hleft, hright⟩
  obtain ⟨found, hfound⟩ := exists_evaluate hleft g s
  obtain ⟨found', hfound'⟩ := exists_evaluate hboth g s
  have hmem : ∀ m', m' ∈ found' ↔ ∃ m, left.Matches g s m ∧ right.MatchesOptional g m m' :=
    mem_evaluate_iff hfound'
  refine ⟨found, found', hfound, hfound', fun m hm => ?_, fun m' hm' => ?_⟩
  · have hm := (mem_evaluate_iff hfound m).mp hm
    by_cases hmatch : ∃ m', right.Matches g m m'
    · obtain ⟨m', hm'⟩ := hmatch
      exact ⟨m', (hmem m').mpr ⟨m, hm, .inl hm'⟩, hm'.extendsBy.1⟩
    · exact ⟨m, (hmem m).mpr ⟨m, hm, .inr ⟨rfl, not_exists.mp hmatch⟩⟩, .refl _⟩
  · obtain ⟨m, hm, hm'⟩ := (hmem m').mp hm'
    exact ⟨m, (mem_evaluate_iff hfound m).mpr hm, hm'.extendsBy.1⟩

lemma matches_bgp_append (ts us : List TriplePattern) :
    (bgp (ts ++ us)).Matches g = Comp ((bgp ts).Matches g) ((bgp us).Matches g) := by
  funext s s'
  simp only [Matches, matchTriples, List.foldl_append, eq_iff_iff]
  rw [foldl_solutions, List.mem_flatMap]
  rfl

lemma matchesAll_append (ps qs : List Pattern) :
    MatchesAll g (ps ++ qs) = Comp (MatchesAll g ps) (MatchesAll g qs) := by
  induction ps with
  | nil =>
    funext s s'
    simp [Comp, MatchesAll]
  | cons p rest ih =>
    show Comp (p.Matches g) (MatchesAll g (rest ++ qs)) =
      Comp (Comp (p.Matches g) (MatchesAll g rest)) (MatchesAll g qs)
    rw [ih, Relation.comp_assoc]

end Pattern

namespace Operation

open Pattern

/-! ### Built operations -/

/-- The operations that are built up from nothing by what a compiler does with them. -/
inductive Built : Operation → Prop
  | empty : Built {}
  | withTriple {o : Operation} (h : Built o) (t : TriplePattern) : Built (o.withTriple t)
  | withLink {o : Operation} (h : Built o) (t : TriplePattern) : Built (o.withLink t)
  | withRequired {o : Operation} (h : Built o) {p : Pattern} (hp : p.IsBasic) :
    Built (o.withRequired p)
  | join {o other : Operation} (h : Built o) (h' : Built other) : Built (o.join other)
  | asOptional {o : Operation} (h : Built o) : Built o.asOptional

variable {g : Graph} {o a b : Operation}

lemma Built.isBasic (h : o.Built) : ∀ p ∈ o.required, p.IsBasic := by
  induction h with
  | empty => simp
  | withTriple h t ih => exact ih
  | withLink h t ih => exact ih
  | withRequired h hp ih => exact List.forall_mem_append.mpr ⟨ih, by simpa using hp⟩
  | join h h' ih ih' =>
    rcases join_cases with hjoin | hjoin <;> rw [hjoin]
    · exact ih
    · refine List.forall_mem_append.mpr ⟨ih, ?_⟩
      unfold asPart
      split
      · simp
      · exact ih'
  | asOptional h ih => exact ih

lemma Built.isSupported (h : o.Built) : o.All (·.isSupported) := by
  induction h with
  | empty => exact all_of_triples [] false
  | withTriple h t ih => exact ⟨ih.required, ih.optionals⟩
  | withLink h t ih => exact ⟨ih.required, ih.optionals⟩
  | withRequired h hp ih =>
    exact ⟨List.forall_mem_append.mpr ⟨ih.required, by simpa using hp.isSupported⟩, ih.optionals⟩
  | join h h' ih ih' => exact ih.join composes_isSupported ih'
  | asOptional h ih => exact ⟨ih.required, ih.optionals⟩

/-- The parts of an operation are matched one after the other. -/
lemma matches_build_eq (o : Operation) :
    o.build.Matches g = Comp (Comp ((Pattern.bgp o.triples).Matches g) (MatchesAll g o.required))
      (MatchesOptionals g o.optionals) := by
  funext s s'
  rw [eq_iff_iff, matches_build]
  constructor
  · rintro ⟨m, m', hm, hm', hs'⟩
    exact ⟨m', ⟨m, hm, hm'⟩, hs'⟩
  · rintro ⟨m', ⟨m, hm, hm'⟩, hs'⟩
    exact ⟨m, m', hm, hm', hs'⟩

/-- The required patterns of the second operation may be matched before the optional groups of the
first one. -/
lemma reached_append (hg : g.FullyIndexed) (ha : a.Built) (hb : b.Built)
    (hshared : ∀ q ∈ a.optionals, ∀ x ∈ q.mentioned, x ∈ b.requiredPattern.mentioned →
      ∃ t ∈ a.triples, x ∈ t.vars) (s : Solution) :
    reached ((a.append b).build.Matches g) s =
      reached (Comp (a.build.Matches g) (b.build.Matches g)) s := by
  have htb := isLocal_matches (g := g) (p := .bgp b.triples) rfl
  have hrb := isLocal_matchesAll (g := g) hb.isSupported.required
  have hoa := isLocal_matchesOptionals (g := g) ha.isSupported.optionals
  have hob := isLocal_matchesOptionals (g := g) hb.isSupported.optionals
  have hoptionals : MatchesOptionals g (a.optionals ++ b.optionals) =
      Comp (MatchesOptionals g a.optionals) (MatchesOptionals g b.optionals) :=
    funext fun _ => funext fun _ => propext matchesOptionals_append
  simp only [matches_build_eq, append, matches_bgp_append, matchesAll_append, hoptionals]
  refine reached_interleaved hrb hoa hob (fun m => ?_) fun m hm => ?_
  · exact (IsBasic.bgp b.triples).isJoin hg |>.commute (isJoin_matchesAll hg ha.isBasic) m
  · -- a variable of a group and of the required patterns is bound by a triple pattern before them
    refine reached_commute (htb.comp hrb) hoa fun x hx hxa => ?_
    obtain ⟨q, hq, hxq⟩ := List.mem_flatMap.mp hxa
    have hxb : x ∈ b.requiredPattern.mentioned := by
      rw [mem_mentioned_requiredPattern]
      exact (List.mem_append.mp hx).imp List.mem_flatMap.mp List.mem_flatMap.mp
    obtain ⟨t, ht, hxt⟩ := hshared q hq x hxq hxb
    obtain ⟨n, hn, hm⟩ := hm
    exact (((matchTriples_spec hn).2 t ht).mono hm.extendsBy.1).binds hxt

lemma build_join_of_optional (hoptional : b.isOptional) (hempty : ¬ b.isEmpty) :
    (a.join b).build = .leftJoin a.build b.build none := by
  rw [join_of_optional hoptional hempty]
  show (a.optionals ++ [b.build]).foldl _ a.requiredPattern = _
  rw [List.foldl_append]
  rfl

/-- Joining operations keeps what is optional optional. An optional operation becomes the right side
of a left join, so each solution of the first one is kept and extended. Otherwise the operations are
joined part by part, and the solutions are those of the join of both patterns, if every variable
that a group of the first one shares with the required patterns of the second one is in a triple
pattern of the first one. -/
theorem join_keeps_optionality (ha : a.Built) (hb : b.Built) :
    (b.isOptional → ¬ b.isEmpty →
      (a.join b).build = .leftJoin a.build b.build none ∧
      ∀ (g : Graph) (s : Solution), ∃ found found',
        a.build.evaluate g s = .ok found ∧ (a.join b).build.evaluate g s = .ok found' ∧
        (∀ m ∈ found, ∃ m' ∈ found', Below m.get? m'.get?) ∧
        ∀ m' ∈ found', ∃ m ∈ found, Below m.get? m'.get?) ∧
    (b.isOptional = false →
      (a.join b).triples = a.triples ++ b.triples ∧
      (a.join b).required = a.required ++ b.required ∧
      (a.join b).optionals = a.optionals ++ b.optionals ∧
      ((∀ q ∈ a.optionals, ∀ x ∈ q.mentioned, x ∈ b.requiredPattern.mentioned →
          ∃ t ∈ a.triples, x ∈ t.vars) →
        ∀ g : Graph, g.FullyIndexed → ∃ found found',
          (a.join b).build.evaluate g [] = .ok found ∧
          (Pattern.join a.build b.build).evaluate g [] = .ok found' ∧
          assignments found = assignments found')) := by
  have hleft := ha.isSupported.build composes_isSupported
  have hright := hb.isSupported.build composes_isSupported
  have hsupported := (ha.join hb).isSupported.build composes_isSupported
  refine ⟨fun hoptional hempty => ?_, fun hoptional => ?_⟩
  · rw [build_join_of_optional hoptional hempty]
    exact ⟨rfl, fun g s => exists_evaluate_leftJoin hleft hright g s⟩
  · rw [join_of_not_optional hoptional] at hsupported ⊢
    refine ⟨rfl, rfl, rfl, fun hshared g hg => ?_⟩
    have hjoin : (Pattern.join a.build b.build).isSupported :=
      Bool.and_eq_true_iff.mpr ⟨hleft, hright⟩
    obtain ⟨found, hfound⟩ := exists_evaluate hsupported g []
    obtain ⟨found', hfound'⟩ := exists_evaluate hjoin g []
    refine ⟨found, found', hfound, hfound', ?_⟩
    rw [assignments_eq_matched hfound, assignments_eq_matched hfound']
    exact reached_append hg ha hb hshared []

section

/-- Asks for whom someone knows, and for the names of those who have one. -/
def knownNames : Operation :=
  (({} : Operation).withTriple
    ⟨.variable ⟨"x"⟩, .constant (.iri ⟨"ex:knows"⟩), .variable ⟨"y"⟩⟩).join
    (({} : Operation).withTriple
      ⟨.variable ⟨"y"⟩, .constant (.iri ⟨"ex:name"⟩), .variable ⟨"n"⟩⟩).asOptional

/-- Asks for whom a known person knows, of two nodes. -/
def knownByKnown : Operation :=
  (({} : Operation).withRequired (.values [⟨"z"⟩] [[some (.iri ⟨"ex:a"⟩)],
    [some (.iri ⟨"ex:c"⟩)]])).withLink
    ⟨.variable ⟨"y"⟩, .constant (.iri ⟨"ex:knows"⟩), .variable ⟨"z"⟩⟩

/-- The same operation as an optional group and part by part, where the first one has a group that
shares a variable. -/
theorem join_keeps_optionality_group_and_parts :
    knownNames.Built ∧ knownByKnown.Built ∧
      (knownNames.join knownByKnown.asOptional).build =
        .leftJoin knownNames.build knownByKnown.build none ∧
      (∃ found found', knownNames.build.evaluate acquaintances [] = .ok found ∧
        (knownNames.join knownByKnown.asOptional).build.evaluate acquaintances [] = .ok found' ∧
        found.length = 2 ∧ (∀ m ∈ found, ∃ m' ∈ found', Below m.get? m'.get?) ∧
        ∀ m' ∈ found', ∃ m ∈ found, Below m.get? m'.get?) ∧
      ∃ found found', (knownNames.join knownByKnown).build.evaluate acquaintances [] = .ok found ∧
        (Pattern.join knownNames.build knownByKnown.build).evaluate acquaintances [] =
          .ok found' ∧
        found.length = 1 ∧ assignments found = assignments found' := by
  have hnames : knownNames.Built :=
    .join (.withTriple .empty _) (.asOptional (.withTriple .empty _))
  have hknown : knownByKnown.Built := .withLink (.withRequired .empty (.values _ _)) _
  obtain ⟨hbuild, hextended⟩ := (join_keeps_optionality hnames hknown.asOptional).1 rfl (by decide)
  obtain ⟨found, found', hfound, hfound', hkept, honly⟩ := hextended acquaintances []
  obtain ⟨-, -, -, hjoined⟩ := (join_keeps_optionality hnames hknown).2 rfl
  obtain ⟨part, part', hpart, hpart', heq⟩ := hjoined (by decide) acquaintances (by decide)
  refine ⟨hnames, hknown, hbuild, ⟨found, found', hfound, hfound', ?_, hkept, honly⟩, part, part',
    hpart, hpart', ?_, heq⟩
  · cases hfound
    rfl
  · cases hpart
    rfl

/-- Asks for a value by a path. -/
def valueByPath : Operation :=
  ({} : Operation).withRequired
    (.path (.variable ⟨"x"⟩) (.link ⟨"ex:q"⟩) (.variable ⟨"y"⟩))

/-- Asks for a value by a triple pattern. -/
def valueByTriple : Operation :=
  ({} : Operation).withTriple
    ⟨.variable ⟨"x"⟩, .constant (.iri ⟨"ex:p"⟩), .variable ⟨"z"⟩⟩

/-- Whether the last blank node is found depends on the order in which joined parts are matched. -/
theorem last_node_lost_by_join :
    valueByPath.Built ∧ valueByTriple.Built ∧ valueByTriple.isOptional = false ∧
      valueByPath.optionals = [] ∧
      (Pattern.join valueByPath.build valueByTriple.build).evaluate Pattern.lastNode [] = .ok [] ∧
      ∃ s, (valueByPath.join valueByTriple).build.evaluate Pattern.lastNode [] = .ok [s] ∧
        assignments [s] ≠ assignments [] := by
  refine ⟨.withRequired .empty (.path rfl _ _), .withTriple .empty _, rfl, rfl, rfl, _, rfl, ?_⟩
  intro heq
  obtain ⟨s, hs, -⟩ := heq.subset ⟨_, List.mem_singleton.mpr rfl, rfl⟩
  cases hs

end

end Operation

end Exemplar
