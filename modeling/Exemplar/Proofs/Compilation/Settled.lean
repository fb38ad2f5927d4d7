import Exemplar.Proofs.Compilation.Guards

/-!
# Settled patterns

Patterns without a choice: their triples are in the graph as they are written, and their tables have
one row. They match in any way in which an assignment says beforehand what their variables stand
for, and bind each of them to that.
-/

namespace Exemplar

variable {g : Graph} {μ : Assignment}

/-! ### Triple patterns -/

/-- Whether a triple pattern is a triple of a graph as it is written, about a named node. -/
def TriplePattern.Stated (g : Graph) (p : TriplePattern) : Prop :=
  ∃ node predicate object, ⟨.iri node, predicate, object⟩ ∈ g.triples ∧
    p = .link (.constant (.iri node)) predicate (.constant object)

lemma TriplePattern.Stated.vars_eq {p : TriplePattern} (h : p.Stated g) : p.vars = [] := by
  obtain ⟨node, predicate, object, -, rfl⟩ := h
  rfl

lemma TriplePattern.Stated.mem_solutions {p : TriplePattern} (h : p.Stated g) {s s' : Solution} :
    s' ∈ p.solutions g s ↔ s' = s := by
  obtain ⟨node, predicate, object, hmem, rfl⟩ := h
  have hindexed : Graph.isIndexed (.iri node) := by simp [Graph.isIndexed, Term.iri, Term.blank]
  have hcandidate : ⟨.iri node, predicate, object⟩ ∈
      (link (.constant (.iri node)) predicate (.constant object)).candidates g s := by
    rw [candidates_of_known (n := .iri node) rfl rfl]
    simpa [Graph.about, hmem, Term.iri] using hindexed
  constructor
  · intro hs'
    obtain ⟨t, -, hunify⟩ := List.mem_filterMap.mp hs'
    simp only [link, Solution.unify?] at hunify
    grind
  · rintro rfl
    exact List.mem_filterMap.mpr ⟨_, hcandidate, by simp [link, Solution.unify?, Term.iri]⟩

/-- Triple patterns that are stated leave a solution as it is. -/
lemma mem_matchTriples_of_stated {triples : List TriplePattern}
    (h : ∀ p ∈ triples, p.Stated g) {s s' : Solution} :
    s' ∈ matchTriples g triples s ↔ s' = s := by
  induction triples with
  | nil => exact List.mem_singleton
  | cons p rest ih =>
    rw [List.forall_mem_cons] at h
    simp [mem_matchTriples_cons, h.1.mem_solutions, ih h.2]

/-! ### Patterns -/

namespace Pattern

/-- Whether a pattern matches wherever the variables that are bound have the terms of an
assignment, and binds what it mentions to these terms. -/
def Settles (g : Graph) (μ : Assignment) (p : Pattern) : Prop :=
  ∀ s : Solution, Below s.get? μ → (∃ s', p.Matches g s s') ∧
    ∀ s', p.Matches g s s' → Below s'.get? μ ∧ ∀ x ∈ p.mentioned, s'.get? x ≠ none

lemma settles_values {v : Variable} {t : Term} (hv : μ v = some t) :
    (values [v] [[some t]]).Settles g μ := by
  intro s hs
  have hmatches : ∀ s', (values [v] [[some t]]).Matches g s s' ↔ s.bind? v t = some s' := by
    intro s'
    simp [Matches, Solution.bindRow?]
  simp only [hmatches]
  have hbind : s.unify? (.variable v) t = s.bind? v t := rfl
  obtain ⟨m, hm, hbelow⟩ := Solution.exists_unify? hs (p := .variable v) hv
  refine ⟨⟨m, hm⟩, fun s' hs' => ?_⟩
  cases hm.symm.trans hs'
  refine ⟨hbelow, fun x hx => ?_⟩
  rw [List.mem_singleton.mp hx, Solution.get?_bind?_self hs']
  simp

/-- An optional pattern that is settled is matched. -/
lemma Settles.matchesOptional {p : Pattern} (h : p.Settles g μ) {s s' : Solution}
    (hs : Below s.get? μ) : p.MatchesOptional g s s' ↔ p.Matches g s s' := by
  obtain ⟨⟨m, hm⟩, -⟩ := h s hs
  exact ⟨fun hs' => hs'.resolve_right fun hnone => hnone.2 m hm, .inl⟩

lemma matchesOptionals_of_settles {ps : List Pattern} (h : ∀ p ∈ ps, p.Settles g μ)
    {s s' : Solution} (hs : Below s.get? μ) :
    MatchesOptionals g ps s s' ↔ MatchesAll g ps s s' := by
  induction ps generalizing s with
  | nil => rfl
  | cons p rest ih =>
    rw [List.forall_mem_cons] at h
    refine exists_congr fun m => ?_
    rw [h.1.matchesOptional hs]
    exact and_congr_right fun hm => ih h.2 ((h.1 s hs).2 m hm).1

/-- Patterns that are settled are settled one after the other. -/
lemma settles_all {ps : List Pattern} (h : ∀ p ∈ ps, p.Settles g μ) {s : Solution}
    (hs : Below s.get? μ) : (∃ s', MatchesAll g ps s s') ∧
      ∀ s', MatchesAll g ps s s' →
        Below s'.get? μ ∧ ∀ p ∈ ps, ∀ x ∈ p.mentioned, s'.get? x ≠ none := by
  induction ps generalizing s with
  | nil =>
    refine ⟨⟨s, rfl⟩, ?_⟩
    rintro s' rfl
    exact ⟨hs, by simp⟩
  | cons p rest ih =>
    rw [List.forall_mem_cons] at h
    obtain ⟨⟨m, hm⟩, hmatch⟩ := h.1 s hs
    refine ⟨?_, ?_⟩
    · obtain ⟨s', hs'⟩ := (ih h.2 (hmatch m hm).1).1
      exact ⟨s', m, hm, hs'⟩
    · rintro s' ⟨m, hm, hrest⟩
      obtain ⟨hbelow, hbound⟩ := hmatch m hm
      obtain ⟨hbelow', hbound'⟩ := (ih h.2 hbelow).2 s' hrest
      refine ⟨hbelow', List.forall_mem_cons.mpr ⟨fun x hx hnone => hbound x hx ?_, hbound'⟩⟩
      exact hrest.extendsBy.1.eq_none hnone

end Pattern

/-! ### Operations -/

namespace Operation

/-- Whether the triple patterns of an operation are stated, and all other patterns settled. -/
structure Settles (g : Graph) (μ : Assignment) (o : Operation) : Prop where
  triples : ∀ p ∈ o.triples, p.Stated g
  required : ∀ p ∈ o.required, p.Settles g μ
  optionals : ∀ p ∈ o.optionals, p.Settles g μ

variable {o other : Operation}

lemma settles_empty : ({} : Operation).Settles g μ := ⟨by simp, by simp, by simp⟩

namespace Settles

lemma build (h : o.Settles g μ) : o.build.Settles g μ := by
  intro s hs
  have hmatches : ∀ s', o.build.Matches g s s' ↔
      ∃ m, Pattern.MatchesAll g o.required s m ∧ Pattern.MatchesOptionals g o.optionals m s' := by
    simp [matches_build, mem_matchTriples_of_stated h.triples]
  obtain ⟨⟨m, hm⟩, hrequired⟩ := Pattern.settles_all h.required hs
  simp only [hmatches]
  constructor
  · obtain ⟨s', hs'⟩ := (Pattern.settles_all h.optionals (hrequired m hm).1).1
    exact ⟨s', m, hm, (Pattern.matchesOptionals_of_settles h.optionals (hrequired m hm).1).mpr hs'⟩
  · rintro s' ⟨m, hm, hs'⟩
    obtain ⟨hbelow, hbound⟩ := hrequired m hm
    rw [Pattern.matchesOptionals_of_settles h.optionals hbelow] at hs'
    obtain ⟨hbelow', hbound'⟩ := (Pattern.settles_all h.optionals hbelow).2 s' hs'
    refine ⟨hbelow', fun x hx => ?_⟩
    rcases mem_mentioned.mp (mem_mentioned_build.mp hx) with ⟨t, ht, hx⟩ | ⟨p, hp, hx⟩ | ⟨p, hp, hx⟩
    · rw [(h.triples t ht).vars_eq] at hx
      cases hx
    · exact fun hnone => hbound p hp x hx (hs'.extendsBy.1.eq_none hnone)
    · exact hbound' p hp x hx

lemma toPattern (h : o.Settles g μ) : o.toPattern.Settles g μ := by
  by_cases hoptional : o.isOptional ∧ ¬ o.isEmpty
  · intro s hs
    simp only [matches_toPattern_iff hoptional.1 hoptional.2, h.build.matchesOptional hs,
      mem_mentioned_toPattern, ← mem_mentioned_build (o := o)]
    exact h.build s hs
  · have hpattern : o.toPattern = o.build := by
      unfold Operation.toPattern
      rw [if_neg (by simpa using hoptional)]
    rw [hpattern]
    exact h.build

lemma append (h : o.Settles g μ) (h' : other.Settles g μ) : (o.append other).Settles g μ where
  triples := List.forall_mem_append.mpr ⟨h.triples, h'.triples⟩
  required := List.forall_mem_append.mpr ⟨h.required, h'.required⟩
  optionals := List.forall_mem_append.mpr ⟨h.optionals, h'.optionals⟩

lemma asPart (h : o.Settles g μ) : o.asPart.Settles g μ := by
  unfold Operation.asPart
  split
  · exact ⟨by simp, by simp, by simpa using h.build⟩
  · exact h

lemma join (h : o.Settles g μ) (h' : other.Settles g μ) : (o.join other).Settles g μ := by
  rcases (Operation.join_cases : o.join other = o ∨ o.join other = o.append other.asPart) with
    heq | heq <;> rw [heq]
  · exact h
  · exact h.append h'.asPart

lemma foldl_join {parts : List EntryPart} (h : o.Settles g μ)
    (hparts : ∀ part ∈ parts, part.operation.Settles g μ) :
    (parts.foldl (fun operation part => operation.join part.operation) o).Settles g μ :=
  List.foldlRecOn parts _ h fun _ ho part hpart => ho.join (hparts part hpart)

lemma withLink (h : o.Settles g μ) {t : TriplePattern} (ht : t.Stated g) :
    (o.withLink t).Settles g μ :=
  ⟨List.forall_mem_cons.mpr ⟨ht, h.triples⟩, h.required, h.optionals⟩

lemma asOptional (h : o.Settles g μ) : o.asOptional.Settles g μ :=
  ⟨h.triples, h.required, h.optionals⟩

lemma withRequired (h : o.Settles g μ) {p : Pattern} (hp : p.Settles g μ) :
    (o.withRequired p).Settles g μ :=
  ⟨h.triples, List.forall_mem_append.mpr ⟨h.required, by simpa using hp⟩, h.optionals⟩

end Settles

end Operation

end Exemplar
