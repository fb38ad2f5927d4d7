import Exemplar.Proofs.Algebra.BottomUp
import Exemplar.Proofs.Algebra.Rounds

/-!
# Solutions of triple patterns

The solutions that triple patterns have together, stated by the triples of the graph. They are the
same in whatever order the patterns are matched and whatever is known beforehand, and each of them
is listed once: a solution determines the triple that each pattern has been matched with.
-/

namespace Exemplar

variable {g : Graph} {triples : List TriplePattern} {s s' : Solution} {μ : Assignment}

/-- Whether an assignment extends a solution by terms for the variables of triple patterns, each of
which then stands for a triple of the graph. -/
structure TriplesMatched (g : Graph) (triples : List TriplePattern) (s : Solution)
    (μ : Assignment) : Prop where
  extends_solution : Below s.get? μ
  bound (v : Variable) : μ v ≠ none ↔ s.get? v ≠ none ∨ v ∈ triples.flatMap TriplePattern.vars
  holds : ∀ p ∈ triples, p.Holds g μ

lemma Solution.below_iff : Below s.get? μ ↔ ∀ v ∈ s.domain, μ v = s.get? v := by
  constructor
  · intro h v hv
    obtain ⟨t, ht⟩ := Option.isSome_iff_exists.mp ((mem_keys_iff_lookup_isSome s v).mp hv)
    exact (h v t ht).trans ht.symm
  · intro h v t ht
    rw [h v (mem_domain (by simp [ht])), ht]

lemma ExtendsBy.of_domain {vs : List Variable} (h : ∀ v ∈ s.domain, v ∈ vs) :
    ExtendsBy vs [] s := by
  refine ⟨fun v t ht => ?_, fun v t ht => .inr (h v (Solution.mem_domain (by simp [ht])))⟩
  cases ht

namespace TriplesMatched

lemma of_extendsBy (hext : ExtendsBy (triples.flatMap TriplePattern.vars) s s')
    (h : ∀ p ∈ triples, p.Holds g s'.get?) : TriplesMatched g triples s s'.get? := by
  refine ⟨hext.1, fun v => ⟨fun hv => ?_, ?_⟩, h⟩
  · obtain ⟨t, ht⟩ := Option.ne_none_iff_exists'.mp hv
    exact (hext.2 v t ht).imp_left fun hs => by simp [hs]
  · rintro (hv | hv)
    · obtain ⟨t, ht⟩ := Option.ne_none_iff_exists'.mp hv
      simp [hext.1 v t ht]
    · obtain ⟨p, hp, hv⟩ := List.mem_flatMap.mp hv
      exact (h p hp).binds hv

/-- Matches that are both below one assignment are the same, as they bind the same variables. -/
lemma eq_of_below {ν ν' : Assignment} (h : TriplesMatched g triples s ν)
    (h' : TriplesMatched g triples s ν') (hν : Below ν μ) (hν' : Below ν' μ) : ν = ν' := by
  funext v
  have hbound : ν v ≠ none ↔ ν' v ≠ none := (h.bound v).trans (h'.bound v).symm
  cases hv : ν v with
  | none => simpa [hv, eq_comm] using hbound
  | some t =>
    obtain ⟨t', ht'⟩ := Option.ne_none_iff_exists'.mp (hbound.mp (by simp [hv]))
    rw [ht', ← hν v t hv, hν' v t' ht']

/-- A match from a solution that knows more of the variables is a match that agrees with it. -/
lemma extended_iff (hext : ExtendsBy (triples.flatMap TriplePattern.vars) s s') :
    TriplesMatched g triples s' μ ↔ TriplesMatched g triples s μ ∧ Below s'.get? μ := by
  have hdomain : ∀ v, s'.get? v ≠ none ∨ v ∈ triples.flatMap TriplePattern.vars ↔
      s.get? v ≠ none ∨ v ∈ triples.flatMap TriplePattern.vars := by
    intro v
    constructor
    · rintro (hv | hv)
      · obtain ⟨t, ht⟩ := Option.ne_none_iff_exists'.mp hv
        exact (hext.2 v t ht).imp_left fun hs => by simp [hs]
      · exact .inr hv
    · rintro (hv | hv)
      · obtain ⟨t, ht⟩ := Option.ne_none_iff_exists'.mp hv
        exact .inl (by simp [hext.1 v t ht])
      · exact .inr hv
  constructor
  · intro h
    exact ⟨⟨hext.1.trans h.extends_solution, fun v => (h.bound v).trans (hdomain v), h.holds⟩,
      h.extends_solution⟩
  · rintro ⟨h, hbelow⟩
    exact ⟨hbelow, fun v => (h.bound v).trans (hdomain v).symm, h.holds⟩

lemma of_perm {triples' : List TriplePattern} (hperm : triples.Perm triples')
    (h : TriplesMatched g triples s μ) : TriplesMatched g triples' s μ := by
  refine ⟨h.extends_solution, fun v => (h.bound v).trans ?_, fun p hp => ?_⟩
  · rw [(hperm.flatMap_right TriplePattern.vars).mem_iff]
  · exact h.holds p (hperm.mem_iff.mpr hp)

end TriplesMatched

/-! ### Each solution once -/

lemma Graph.nodup_candidates (subject object : Option Term) (predicate : Option Iri) :
    (g.candidates subject predicate object).Nodup := by
  unfold candidates
  split
  · unfold about
    split
    · exact g.nodup.filter _
    · exact List.nodup_nil
  · exact nodup_mentioning _
  · exact g.nodup.filter _
  · exact g.nodup

lemma TriplePattern.nodup_candidates (p : TriplePattern) (s : Solution) :
    (p.candidates g s).Nodup := by
  unfold candidates
  split
  · exact Graph.nodup_candidates _ _ _
  · exact (Graph.nodup_candidates _ _ _).filter _
  · exact List.nodup_nil

/-- A solution determines the triple that a pattern has been matched with. -/
lemma TriplePattern.nodup_solutions (p : TriplePattern) (s : Solution) :
    ((p.solutions g s).map Solution.get?).Nodup := by
  rw [solutions, List.map_filterMap]
  refine (p.nodup_candidates s).filterMap ?_
  intro t u μ hμ hμ'
  obtain ⟨s', hs', rfl⟩ := Option.map_eq_some_iff.mp hμ
  obtain ⟨s'', hs'', heq⟩ := Option.map_eq_some_iff.mp hμ'
  obtain ⟨-, hsubject, hpredicate, hobject⟩ := unify?_spec hs'
  obtain ⟨-, hsubject', hpredicate', hobject'⟩ := unify?_spec hs''
  rw [heq] at hsubject' hpredicate' hobject'
  have hnode := Option.some.inj (hsubject.symm.trans hsubject')
  have hiri := Option.some.inj (hpredicate.symm.trans hpredicate')
  refine Triple.eq_of_eq (Term.node.inj hnode) ?_ (Option.some.inj (hobject.symm.trans hobject'))
  exact Node.iri.inj (Term.node.inj hiri)

/-- Different solutions of the first pattern have no common extension. -/
lemma nodup_matchTriples (triples : List TriplePattern) (s : Solution) :
    ((matchTriples g triples s).map Solution.get?).Nodup := by
  induction triples generalizing s with
  | nil => exact List.nodup_singleton _
  | cons p rest ih =>
    have hmatched : ∀ {m}, m ∈ p.solutions g s → TriplesMatched g [p] s m.get? := by
      intro m hm
      obtain ⟨hext, hholds⟩ := TriplePattern.solutions_spec hm
      exact .of_extendsBy (by simpa using hext) (by simpa using hholds)
    rw [matchTriples_cons, List.map_flatMap, List.nodup_flatMap]
    refine ⟨fun m _ => ih m, ?_⟩
    refine (List.pairwise_map.mp (p.nodup_solutions s)).imp_of_mem fun {m m'} hm hm' hne => ?_
    intro μ hμ hμ'
    obtain ⟨s', hs', rfl⟩ := List.mem_map.mp hμ
    obtain ⟨s'', hs'', heq⟩ := List.mem_map.mp hμ'
    refine hne ((hmatched hm).eq_of_below (hmatched hm') (matchTriples_spec hs').1.1 ?_)
    exact heq ▸ (matchTriples_spec hs'').1.1

/-! ### All solutions -/

lemma matched_of_mem_matchTriples (h : s' ∈ matchTriples g triples s) :
    TriplesMatched g triples s s'.get? := by
  obtain ⟨hext, hholds⟩ := matchTriples_spec h
  exact .of_extendsBy hext hholds

lemma mem_assignments_matchTriples (hg : g.FullyIndexed) :
    μ ∈ assignments (matchTriples g triples s) ↔ TriplesMatched g triples s μ := by
  constructor
  · rintro ⟨s', hs', rfl⟩
    exact matched_of_mem_matchTriples hs'
  · intro h
    obtain ⟨s', hs', hbelow⟩ :=
      Pattern.exists_mem_matchTriples_of_below hg h.extends_solution h.holds
    exact ⟨s', hs', (matched_of_mem_matchTriples hs').eq_of_below h hbelow (.refl μ)⟩

/-- Matches of the same kind are the same solutions, as many times. -/
lemma matchTriples_perm {found : List Solution} (hg : g.FullyIndexed)
    (hnodup : (found.map Solution.get?).Nodup)
    (h : ∀ μ, TriplesMatched g triples s μ ↔ μ ∈ found.map Solution.get?) :
    ((matchTriples g triples s).map Solution.get?).Perm (found.map Solution.get?) := by
  refine (List.perm_ext_iff_of_nodup (nodup_matchTriples triples s) hnodup).mpr fun μ => ?_
  rw [← h, ← mem_assignments_matchTriples hg]
  exact List.mem_map

namespace Pattern

/-- Triple patterns are matched exactly. Each assignment that is listed extends the solution that
is given by terms for the variables of the patterns, with which each pattern is a triple of the
graph, and none is listed twice. If all triples are found by their subjects and objects, every such
assignment is listed, the order of the patterns does not matter, and to know some of their variables
beforehand is to keep the solutions that agree with what is known. -/
theorem evaluate_bgp_exact (g : Graph) (triples : List TriplePattern) (s : Solution) :
    ∃ found, (bgp triples).evaluate g s = .ok found ∧ (found.map Solution.get?).Nodup ∧
      (∀ μ ∈ assignments found, TriplesMatched g triples s μ) ∧
      (g.FullyIndexed →
        (∀ μ, TriplesMatched g triples s μ → μ ∈ assignments found) ∧
        (∀ triples', triples.Perm triples' → ∃ found',
          (bgp triples').evaluate g s = .ok found' ∧
            (found'.map Solution.get?).Perm (found.map Solution.get?)) ∧
        ∀ s', ExtendsBy (triples.flatMap TriplePattern.vars) s s' → ∃ found',
          (bgp triples).evaluate g s' = .ok found' ∧
            (found'.map Solution.get?).Perm
              ((found.filter fun m => ∀ v ∈ s'.domain, m.get? v = s'.get? v).map
                Solution.get?)) := by
  refine ⟨_, rfl, nodup_matchTriples triples s, ?_, fun hg => ⟨?_, ?_, ?_⟩⟩
  · rintro _ ⟨s', hs', rfl⟩
    exact matched_of_mem_matchTriples hs'
  · exact fun μ h => (mem_assignments_matchTriples hg).mpr h
  · intro triples' hperm
    refine ⟨_, rfl, matchTriples_perm hg (nodup_matchTriples triples s) fun μ => ?_⟩
    rw [List.mem_map]
    exact Iff.trans ⟨.of_perm hperm.symm, .of_perm hperm⟩ (mem_assignments_matchTriples hg).symm
  · intro s' hext
    refine ⟨_, rfl, matchTriples_perm hg ?_ fun μ => ?_⟩
    · exact (nodup_matchTriples triples s).sublist (List.filter_sublist.map _)
    · rw [TriplesMatched.extended_iff hext, ← mem_assignments_matchTriples hg]
      simp only [List.mem_map, List.mem_filter, decide_eq_true_eq]
      constructor
      · rintro ⟨⟨m, hm, rfl⟩, hbelow⟩
        exact ⟨m, ⟨hm, Solution.below_iff.mp hbelow⟩, rfl⟩
      · rintro ⟨m, ⟨hm, hagree⟩, rfl⟩
        exact ⟨⟨m, hm, rfl⟩, Solution.below_iff.mpr hagree⟩

/-- Asks who knows whom by the same predicate, over two steps. -/
def twoSteps : List TriplePattern :=
  [⟨.variable ⟨"x"⟩, .variable ⟨"p"⟩, .variable ⟨"y"⟩⟩,
    ⟨.variable ⟨"y"⟩, .variable ⟨"p"⟩, .variable ⟨"z"⟩⟩]

/-- Two patterns that share a node and their predicate, in either order, and with a literal for the
predicate or a node for the end beforehand. -/
theorem evaluate_bgp_exact_two_steps :
    ∃ found, (bgp twoSteps).evaluate acquaintances [] = .ok found ∧ found.length = 1 ∧
      (found.map Solution.get?).Nodup ∧
      (∃ found', (bgp twoSteps.reverse).evaluate acquaintances [] = .ok found' ∧
        (found'.map Solution.get?).Perm (found.map Solution.get?)) ∧
      (∃ found', (bgp twoSteps).evaluate acquaintances [(⟨"p"⟩, .literal (.simple "C"))] =
        .ok found' ∧ found' = []) ∧
      ∃ found', (bgp twoSteps).evaluate acquaintances [(⟨"z"⟩, .iri ⟨"ex:c"⟩)] = .ok found' ∧
        (found'.map Solution.get?).Perm (found.map Solution.get?) := by
  obtain ⟨found, hfound, hnodup, -, h⟩ := evaluate_bgp_exact acquaintances twoSteps []
  obtain ⟨-, horder, hknown⟩ := h (by decide)
  cases hfound
  refine ⟨_, rfl, rfl, hnodup, horder _ (List.reverse_perm twoSteps).symm, ?_, ?_⟩
  · obtain ⟨found', hfound', -⟩ :=
      hknown [(⟨"p"⟩, .literal (.simple "C"))] (.of_domain (by decide))
    cases hfound'
    exact ⟨_, rfl, rfl⟩
  · exact hknown [(⟨"z"⟩, .iri ⟨"ex:c"⟩)] (.of_domain (by decide))

/-- A triple of the last blank node is not found by its subject, though the pattern that fixes this
subject is matched by it. -/
theorem known_last_node_not_matched :
    let triples : List TriplePattern :=
      [⟨.constant (.blank .last), .constant (.iri ⟨"ex:p"⟩), .variable ⟨"x"⟩⟩]
    (bgp triples).evaluate lastNode [] = .ok [] ∧
      TriplesMatched lastNode triples [] (Solution.get? [(⟨"x"⟩, .literal (.simple "x"))]) := by
  refine ⟨rfl, .of_extendsBy (.of_domain (by decide)) fun p hp => ?_⟩
  rw [List.mem_singleton.mp hp]
  exact ⟨_, List.mem_cons_self, rfl, rfl, rfl⟩

end Pattern

end Exemplar
