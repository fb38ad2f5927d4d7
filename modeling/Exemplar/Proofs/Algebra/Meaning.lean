import Exemplar.Algebra.Evaluation
import Exemplar.Proofs.Outcome

/-!
# The meaning of patterns

When a solution matches a pattern, apart from how solutions are computed. A match extends the
solution that it starts from by terms for the variables that the pattern mentions, and all triple
patterns of a basic pattern hold of it.
-/

namespace Exemplar

/-- The terms that variables stand for. -/
abbrev Assignment := Variable → Option Term

/-- What a position stands for. -/
def PatternTerm.value (μ : Assignment) : PatternTerm → Option Term
  | .variable v => μ v
  | .constant t => some t

/-- Whether a triple pattern stands for a triple of a graph. -/
def TriplePattern.Holds (g : Graph) (μ : Assignment) (p : TriplePattern) : Prop :=
  ∃ t ∈ g.triples, p.subject.value μ = some (.node t.subject) ∧
    p.predicate.value μ = some (.iri t.predicate) ∧ p.object.value μ = some t.object

/-- Whether everything that is bound in one assignment has the same term in another. -/
def Below (ν μ : Assignment) : Prop := ∀ v t, ν v = some t → μ v = some t

lemma Below.refl (μ : Assignment) : Below μ μ := fun _ _ h => h

lemma Below.trans {ν μ ρ : Assignment} (h : Below ν μ) (h' : Below μ ρ) : Below ν ρ :=
  fun v t ht => h' v t (h v t ht)

lemma Below.eq_none {ν μ : Assignment} (h : Below ν μ) {v : Variable} (hμ : μ v = none) :
    ν v = none := by
  by_contra hsome
  obtain ⟨t, ht⟩ := Option.ne_none_iff_exists'.mp hsome
  rw [h v t ht] at hμ
  cases hμ

/-- The assignment that is one where it is bound, and else another one. -/
def Assignment.or (μ ν : Assignment) : Assignment := fun x => (μ x).or (ν x)

lemma Assignment.or_of_none {μ ν : Assignment} {x : Variable} (h : μ x = none) :
    μ.or ν x = ν x := by
  simp [Assignment.or, h]

lemma Below.or_left (μ ν : Assignment) : Below μ (μ.or ν) := fun x t h => by
  simp [Assignment.or, h]

lemma PatternTerm.value_of_below {ν μ : Assignment} (h : Below ν μ) {p : PatternTerm} {t : Term}
    (ht : p.value ν = some t) : p.value μ = some t := by
  match p with
  | .variable v => exact h v t ht
  | .constant _ => exact ht

lemma TriplePattern.Holds.mono {g : Graph} {ν μ : Assignment} {p : TriplePattern}
    (hp : p.Holds g ν) (h : Below ν μ) : p.Holds g μ := by
  obtain ⟨t, ht, hs, hpred, ho⟩ := hp
  exact ⟨t, ht, PatternTerm.value_of_below h hs, PatternTerm.value_of_below h hpred,
    PatternTerm.value_of_below h ho⟩

lemma PatternTerm.value_congr {μ ν : Assignment} {p : PatternTerm}
    (h : ∀ x ∈ p.vars, μ x = ν x) : p.value μ = p.value ν := by
  match p with
  | .variable v => exact h v List.mem_cons_self
  | .constant _ => rfl

lemma TriplePattern.Holds.congr {g : Graph} {μ ν : Assignment} {p : TriplePattern}
    (hp : p.Holds g μ) (h : ∀ x ∈ p.vars, μ x = ν x) : p.Holds g ν := by
  obtain ⟨t, ht, hs, hpred, ho⟩ := hp
  refine ⟨t, ht, ?_, ?_, ?_⟩
  · rwa [← PatternTerm.value_congr fun x hx => h x (by simp [vars, hx])]
  · rwa [← PatternTerm.value_congr fun x hx => h x (by simp [vars, hx])]
  · rwa [← PatternTerm.value_congr fun x hx => h x (by simp [vars, hx])]

/-- The variables of a position that stands for a term are bound. -/
lemma PatternTerm.binds {μ : Assignment} {p : PatternTerm} {t : Term} (h : p.value μ = some t)
    {x : Variable} (hx : x ∈ p.vars) : μ x ≠ none := by
  match p with
  | .variable v =>
    obtain rfl : x = v := List.mem_singleton.mp hx
    intro hnone
    simp [value, hnone] at h
  | .constant _ => cases hx

lemma TriplePattern.Holds.binds {g : Graph} {μ : Assignment} {p : TriplePattern}
    (hp : p.Holds g μ) {x : Variable} (hx : x ∈ p.vars) : μ x ≠ none := by
  obtain ⟨t, -, hs, hpred, ho⟩ := hp
  simp only [vars, List.mem_append] at hx
  obtain (hx | hx) | hx := hx
  · exact PatternTerm.binds hs hx
  · exact PatternTerm.binds hpred hx
  · exact PatternTerm.binds ho hx

lemma Solution.resolve?_eq (s : Solution) (p : PatternTerm) : s.resolve? p = p.value s.get? := by
  cases p <;> rfl

/-- A position that is known in a solution is the same in every assignment above it. -/
lemma Solution.eq_of_resolve? {s : Solution} {μ : Assignment} (hs : Below s.get? μ)
    {p : PatternTerm} {t u : Term} (hu : p.value μ = some u) (ht : s.resolve? p = some t) :
    t = u := by
  rw [resolve?_eq] at ht
  exact Option.some.inj ((PatternTerm.value_of_below hs ht).symm.trans hu)

/-- Whether a solution extends another one by variables of a list only. -/
def ExtendsBy (vs : List Variable) (s s' : Solution) : Prop :=
  Below s.get? s'.get? ∧ ∀ v t, s'.get? v = some t → s.get? v = some t ∨ v ∈ vs

namespace ExtendsBy

lemma refl (vs : List Variable) (s : Solution) : ExtendsBy vs s s :=
  ⟨Below.refl _, fun _ _ h => .inl h⟩

lemma mono {vs ws : List Variable} {s s' : Solution} (h : ExtendsBy vs s s')
    (hsub : ∀ v ∈ vs, v ∈ ws) : ExtendsBy ws s s' :=
  ⟨h.1, fun v t ht => (h.2 v t ht).imp id (hsub v)⟩

lemma trans {vs ws : List Variable} {s m s' : Solution} (h : ExtendsBy vs s m)
    (h' : ExtendsBy ws m s') : ExtendsBy (vs ++ ws) s s' := by
  refine ⟨h.1.trans h'.1, fun v t ht => ?_⟩
  rcases h'.2 v t ht with hm | hv
  · rcases h.2 v t hm with hs | hv
    · exact .inl hs
    · exact .inr (List.mem_append_left _ hv)
  · exact .inr (List.mem_append_right _ hv)

end ExtendsBy

/-! ### Unification -/

namespace Solution

lemma get?_cons (v w : Variable) (t : Term) (s : Solution) :
    get? ((v, t) :: s) w = if w = v then some t else s.get? w := by
  by_cases h : w = v
  · simp [get?, h]
  · have hne : (w == v) = false := by simpa using h
    simp [get?, List.lookup_cons, hne, h]

lemma get?_append (s t : Solution) (v : Variable) :
    get? (s ++ t) v = (s.get? v).or (t.get? v) :=
  List.lookup_append

lemma extendsBy_bind? {s s' : Solution} {v : Variable} {t : Term} (h : s.bind? v t = some s') :
    ExtendsBy [v] s s' := by
  refine ⟨fun w u hw => get?_bind?_of_some h hw, fun w u hw => ?_⟩
  unfold bind? at h
  split at h
  · cases h
    rw [get?_cons] at hw
    split at hw
    · next heq => exact .inr (by simp [heq])
    · exact .inl hw
  · split at h
    · cases h
      exact .inl hw
    · cases h

/-- A position that is unified with a term stands for it. -/
lemma unify?_spec {s s' : Solution} {p : PatternTerm} {t : Term} (h : s.unify? p t = some s') :
    ExtendsBy p.vars s s' ∧ p.value s'.get? = some t := by
  match p with
  | .variable v => exact ⟨extendsBy_bind? h, get?_bind?_self h⟩
  | .constant c =>
    simp only [unify?] at h
    split at h
    · next heq =>
      cases h
      exact ⟨.refl _ s, congrArg some heq⟩
    · cases h

/-- What an assignment above a solution says about a position can be unified with it. -/
lemma exists_unify? {s : Solution} {p : PatternTerm} {t : Term} {μ : Assignment}
    (hs : Below s.get? μ) (hp : p.value μ = some t) :
    ∃ s', s.unify? p t = some s' ∧ Below s'.get? μ := by
  match p with
  | .constant c =>
    obtain rfl : c = t := Option.some.inj hp
    exact ⟨s, by simp [unify?], hs⟩
  | .variable v =>
    have hv : μ v = some t := hp
    simp only [unify?, bind?]
    cases hbound : s.get? v with
    | none =>
      refine ⟨(v, t) :: s, rfl, fun w u hw => ?_⟩
      rw [get?_cons] at hw
      split at hw
      · next heq => rw [heq, hv, hw]
      · exact hs w u hw
    | some u =>
      obtain rfl : u = t := Option.some.inj ((hs v u hbound).symm.trans hv)
      exact ⟨s, by simp, hs⟩

/-- Two positions that are unified with terms stand for them. -/
lemma unify?_pair_spec {s s' : Solution} {p q : PatternTerm} {a b : Term}
    (h : (s.unify? p a).bind (·.unify? q b) = some s') :
    ExtendsBy (p.vars ++ q.vars) s s' ∧ p.value s'.get? = some a ∧ q.value s'.get? = some b := by
  obtain ⟨m, hm, hs'⟩ := Option.bind_eq_some_iff.mp h
  obtain ⟨hext, ha⟩ := unify?_spec hm
  obtain ⟨hext', hb⟩ := unify?_spec hs'
  exact ⟨hext.trans hext', PatternTerm.value_of_below hext'.1 ha, hb⟩

lemma exists_unify?_pair {s : Solution} {p q : PatternTerm} {a b : Term} {μ : Assignment}
    (hs : Below s.get? μ) (ha : p.value μ = some a) (hb : q.value μ = some b) :
    ∃ s', (s.unify? p a).bind (·.unify? q b) = some s' ∧ Below s'.get? μ := by
  obtain ⟨m, hm, hbelow⟩ := exists_unify? hs ha
  obtain ⟨s', hs', hbelow'⟩ := exists_unify? hbelow hb
  exact ⟨s', Option.bind_eq_some_iff.mpr ⟨m, hm, hs'⟩, hbelow'⟩

end Solution

/-! ### Triple patterns -/

lemma Graph.mem_objects {g : Graph} {n o : Term} {p : Iri} :
    o ∈ g.objects n p ↔ ∃ t ∈ g.triples, n = .node t.subject ∧ p = t.predicate ∧ o = t.object := by
  simp only [Graph.objects, List.mem_filterMap, Option.ite_none_right_eq_some, Option.some.injEq]
  constructor
  · rintro ⟨t, ht, ⟨rfl, rfl⟩, rfl⟩
    exact ⟨t, ht, rfl, rfl, rfl⟩
  · rintro ⟨t, ht, rfl, rfl, rfl⟩
    exact ⟨t, ht, ⟨rfl, rfl⟩, rfl⟩

section

variable {g : Graph}

lemma Graph.mem_candidates {subject object : Option Term} {predicate : Option Iri} {t : Triple}
    (h : t ∈ g.candidates subject predicate object) : t ∈ g.triples := by
  unfold candidates about mentioning withPredicate at h
  split at h
  · split at h
    · exact (List.mem_filter.mp h).1
    · cases h
  · split at h
    · exact (List.mem_filter.mp h).1
    · cases h
  · exact (List.mem_filter.mp h).1
  · exact h

lemma TriplePattern.mem_candidates {p : TriplePattern} {s : Solution} {t : Triple}
    (h : t ∈ p.candidates g s) : t ∈ g.triples := by
  unfold candidates at h
  split at h
  · exact Graph.mem_candidates h
  · exact Graph.mem_candidates (List.mem_filter.mp h).1
  · cases h

/-- The candidates for a triple pattern whose subject and predicate are known. -/
lemma TriplePattern.candidates_of_known {p : TriplePattern} {s : Solution} {n : Term} {i : Iri}
    (hsubject : s.resolve? p.subject = some n) (hpredicate : p.predicate = .constant (.iri i)) :
    p.candidates g s = (g.about n).filter (·.predicate = i) := by
  have hresolve : s.resolve? p.predicate = some (.node (.iri i)) := by
    rw [hpredicate]
    rfl
  simp only [candidates, hsubject, hresolve, Graph.candidates]

/-- A triple pattern that is unified with a triple stands for it. -/
lemma TriplePattern.unify?_spec {p : TriplePattern} {t : Triple} {s s' : Solution}
    (h : (do
      let s ← s.unify? p.subject (.node t.subject)
      let s ← s.unify? p.predicate (.iri t.predicate)
      s.unify? p.object t.object) = some s') :
    ExtendsBy p.vars s s' ∧ p.subject.value s'.get? = some (.node t.subject) ∧
      p.predicate.value s'.get? = some (.iri t.predicate) ∧
      p.object.value s'.get? = some t.object := by
  obtain ⟨s₁, h₁, h⟩ := Option.bind_eq_some_iff.mp h
  obtain ⟨s₂, h₂, h₃⟩ := Option.bind_eq_some_iff.mp h
  obtain ⟨e₁, v₁⟩ := Solution.unify?_spec h₁
  obtain ⟨e₂, v₂⟩ := Solution.unify?_spec h₂
  obtain ⟨e₃, v₃⟩ := Solution.unify?_spec h₃
  refine ⟨(e₁.trans e₂).trans e₃, ?_, ?_, v₃⟩
  · exact PatternTerm.value_of_below (e₂.1.trans e₃.1) v₁
  · exact PatternTerm.value_of_below e₃.1 v₂

lemma TriplePattern.solutions_spec {p : TriplePattern} {s s' : Solution}
    (h : s' ∈ p.solutions g s) : ExtendsBy p.vars s s' ∧ p.Holds g s'.get? := by
  obtain ⟨t, ht, h⟩ := List.mem_filterMap.mp h
  obtain ⟨hext, hvalues⟩ := unify?_spec h
  exact ⟨hext, t, TriplePattern.mem_candidates ht, hvalues⟩

lemma foldl_solutions (triples : List TriplePattern) (found : List Solution) :
    triples.foldl (fun found p => found.flatMap (p.solutions g)) found =
      found.flatMap (matchTriples g triples) := by
  unfold matchTriples
  induction triples generalizing found with
  | nil => simp
  | cons p rest ih =>
    simp only [List.foldl_cons, List.flatMap_singleton]
    rw [ih, List.flatMap_assoc]
    congr
    funext s
    exact (ih _).symm

lemma matchTriples_cons (p : TriplePattern) (rest : List TriplePattern) (s : Solution) :
    matchTriples g (p :: rest) s = (p.solutions g s).flatMap (matchTriples g rest) := by
  rw [matchTriples, List.foldl_cons, List.flatMap_singleton, foldl_solutions]

lemma mem_matchTriples_cons {p : TriplePattern} {rest : List TriplePattern} {s s' : Solution} :
    s' ∈ matchTriples g (p :: rest) s ↔ ∃ m ∈ p.solutions g s, s' ∈ matchTriples g rest m := by
  rw [matchTriples_cons, List.mem_flatMap]

/-- All triple patterns hold of what matches them. -/
lemma matchTriples_spec {triples : List TriplePattern} {s s' : Solution}
    (h : s' ∈ matchTriples g triples s) :
    ExtendsBy (triples.flatMap TriplePattern.vars) s s' ∧ ∀ p ∈ triples, p.Holds g s'.get? := by
  induction triples generalizing s with
  | nil =>
    obtain rfl : s' = s := List.mem_singleton.mp h
    exact ⟨.refl _ s', by simp⟩
  | cons p rest ih =>
    obtain ⟨m, hm, hs'⟩ := mem_matchTriples_cons.mp h
    obtain ⟨hext, hholds⟩ := TriplePattern.solutions_spec hm
    obtain ⟨hext', hrest⟩ := ih hs'
    refine ⟨hext.trans hext', List.forall_mem_cons.mpr ⟨hholds.mono hext'.1, hrest⟩⟩

/-- A graph all of whose triples are found by their subjects. -/
def Graph.Indexed (g : Graph) : Prop := ∀ t ∈ g.triples, Graph.isIndexed (.node t.subject)

instance (g : Graph) : Decidable g.Indexed :=
  inferInstanceAs (Decidable (∀ t ∈ g.triples, Graph.isIndexed (.node t.subject)))

lemma Graph.mem_candidates_of_indexed (hg : g.Indexed) {t : Triple} (ht : t ∈ g.triples)
    {subject object : Option Term} {predicate : Option Iri}
    (hsubject : ∀ u, subject = some u → u = .node t.subject)
    (hpredicate : ∀ i, predicate = some i → i = t.predicate)
    (hobject : subject = none → ∀ u, object = some u → u = t.object ∧ Graph.isIndexed u) :
    t ∈ g.candidates subject predicate object := by
  cases subject with
  | some u =>
    obtain rfl := hsubject u rfl
    simp [candidates, about, hg t ht, ht]
  | none =>
    cases object with
    | some u =>
      obtain ⟨rfl, hindexed⟩ := hobject rfl u rfl
      simp [candidates, mentioning, hindexed, ht]
    | none =>
      cases predicate with
      | some i =>
        obtain rfl := hpredicate i rfl
        simp [candidates, withPredicate, ht]
      | none => exact ht

lemma TriplePattern.mem_candidates_of_indexed (hg : g.Indexed) {p : TriplePattern} {s : Solution}
    {t : Triple} (ht : t ∈ g.triples)
    (hsubject : ∀ u, s.resolve? p.subject = some u → u = .node t.subject)
    (hpredicate : ∀ u, s.resolve? p.predicate = some u → u = .iri t.predicate)
    (hobject : s.resolve? p.subject = none → ∀ u, s.resolve? p.object = some u →
      u = t.object ∧ Graph.isIndexed u) : t ∈ p.candidates g s := by
  unfold candidates
  split
  · exact Graph.mem_candidates_of_indexed hg ht hsubject (by simp) hobject
  · next predicate heq =>
    cases hpredicate _ heq
    refine List.mem_filter.mpr ⟨?_, by simp⟩
    exact Graph.mem_candidates_of_indexed hg ht hsubject (by simp) hobject
  · next u hnot heq => exact absurd (hpredicate u heq) (hnot t.predicate)

/-- A triple pattern is found by its subject, or else by an object that is not the last node. -/
lemma TriplePattern.exists_mem_solutions (hg : g.Indexed) {p : TriplePattern} {s : Solution}
    {μ : Assignment} (hs : Below s.get? μ)
    (hlookup : s.resolve? p.subject = none → ∀ u, s.resolve? p.object = some u →
      Graph.isIndexed u)
    (hp : p.Holds g μ) : ∃ s' ∈ p.solutions g s, Below s'.get? μ := by
  obtain ⟨t, ht, hsubject, hpredicate, hobject⟩ := hp
  obtain ⟨s₁, h₁, hs₁⟩ := Solution.exists_unify? hs hsubject
  obtain ⟨s₂, h₂, hs₂⟩ := Solution.exists_unify? hs₁ hpredicate
  obtain ⟨s₃, h₃, hs₃⟩ := Solution.exists_unify? hs₂ hobject
  refine ⟨s₃, List.mem_filterMap.mpr ⟨t, ?_, ?_⟩, hs₃⟩
  · exact mem_candidates_of_indexed hg ht (fun _ => Solution.eq_of_resolve? hs hsubject)
      (fun _ => Solution.eq_of_resolve? hs hpredicate)
      fun hnone u hu => ⟨Solution.eq_of_resolve? hs hobject hu, hlookup hnone u hu⟩
  · simp [h₁, h₂, h₃]

/-- Every assignment of which all triple patterns of a node hold is found. -/
lemma exists_mem_matchTriples (hg : g.Indexed) {v : Variable} {triples : List TriplePattern}
    (hsubject : ∀ p ∈ triples, p.subject = .variable v) {s : Solution} {μ : Assignment}
    (hs : Below s.get? μ)
    (hlookup : s.get? v = none → ∀ p ∈ triples, ∀ u, s.resolve? p.object = some u →
      Graph.isIndexed u)
    (h : ∀ p ∈ triples, p.Holds g μ) : ∃ s' ∈ matchTriples g triples s, Below s'.get? μ := by
  induction triples generalizing s with
  | nil => exact ⟨s, List.mem_singleton.mpr rfl, hs⟩
  | cons p rest ih =>
    rw [List.forall_mem_cons] at h hsubject
    obtain ⟨m, hm, hbelow⟩ := TriplePattern.exists_mem_solutions hg hs
      (fun hnone => hlookup (by simpa [hsubject.1, Solution.resolve?] using hnone) p
        List.mem_cons_self) h.1
    -- the node is known from the first triple on
    have hbound : m.get? v ≠ none := by
      obtain ⟨t, -, hnode, -⟩ := (TriplePattern.solutions_spec hm).2
      rw [hsubject.1] at hnode
      exact fun hnone => by simp [PatternTerm.value, hnone] at hnode
    obtain ⟨s', hs', hbelow'⟩ := ih hsubject.2 hbelow (fun hnone => absurd hnone hbound) h.2
    exact ⟨s', mem_matchTriples_cons.mpr ⟨m, hm, hs'⟩, hbelow'⟩

end

/-! ### Patterns -/

namespace Pattern

/-- When a solution matches a pattern, as an extension of another solution. -/
def Matches (g : Graph) : Pattern → Solution → Solution → Prop
  | bgp triples, s, s' => s' ∈ matchTriples g triples s
  | path subject p object, s, s' => s' ∈ p.solutions g subject object s
  | join left right, s, s' => ∃ m, left.Matches g s m ∧ right.Matches g m s'
  | leftJoin left right none, s, s' =>
    ∃ m, left.Matches g s m ∧ (right.Matches g m s' ∨ (s' = m ∧ ∀ m', ¬ right.Matches g m m'))
  | values vs rows, s, s' => ∃ row ∈ rows, s.bindRow? vs row = some s'
  | project inner vs, s, s' => ∃ m, inner.Matches g s m ∧ s' = s.extend vs m
  | distinct inner, s, s' =>
    ∃ found, inner.evaluate g s = .ok found ∧ s' ∈ found.eraseDupsBy Solution.same
  | _, _, _ => False

lemma mem_extendAll {next : Solution → Except EvaluationError (List Solution)}
    {left found : List Solution} (h : extendAll next left = .ok found) (s' : Solution) :
    s' ∈ found ↔ ∃ m ∈ left, ∃ part, next m = .ok part ∧ s' ∈ part := by
  obtain ⟨parts, hparts, rfl⟩ := map_eq_ok.mp h
  rw [mapM_eq_ok] at hparts
  rw [List.mem_flatten]
  constructor
  · rintro ⟨part, hpart, hs'⟩
    obtain ⟨m, hm, heq⟩ := exists_mem_left hparts hpart
    exact ⟨m, hm, part, heq, hs'⟩
  · rintro ⟨m, hm, part, heq, hs'⟩
    obtain ⟨part', hpart', heq'⟩ := exists_mem_right hparts hm
    rw [heq] at heq'
    cases heq'
    exact ⟨part, hpart', hs'⟩

lemma mem_keepUnmatched {m s' : Solution} {found : List Solution} :
    s' ∈ keepUnmatched m found ↔ s' ∈ found ∨ (s' = m ∧ ∀ m', m' ∉ found) := by
  cases found with
  | nil => simp [keepUnmatched]
  | cons m' rest =>
    have hne : ¬ ∀ m'', m'' ∉ m' :: rest := fun h => h m' List.mem_cons_self
    simp only [keepUnmatched, hne, and_false, or_false]

/-- Evaluation finds the matches of a pattern. -/
theorem mem_evaluate_iff {g : Graph} {p : Pattern} {s : Solution} {found : List Solution}
    (h : p.evaluate g s = .ok found) (s' : Solution) : s' ∈ found ↔ p.Matches g s s' := by
  induction p generalizing s found s' with
  | bgp triples =>
    cases h
    rfl
  | path subject p object =>
    cases h
    rfl
  | join left right ihl ihr =>
    obtain ⟨ls, hls, h⟩ := bind_eq_ok.mp h
    rw [mem_extendAll h]
    constructor
    · rintro ⟨m, hm, part, hpart, hs'⟩
      exact ⟨m, (ihl hls m).mp hm, (ihr hpart s').mp hs'⟩
    · rintro ⟨m, hm, hs'⟩
      have hmem := (ihl hls m).mpr hm
      obtain ⟨parts, hparts, -⟩ := map_eq_ok.mp h
      obtain ⟨part, -, hpart⟩ := exists_mem_right (mapM_eq_ok.mp hparts) hmem
      exact ⟨m, hmem, part, hpart, (ihr hpart s').mpr hs'⟩
  | leftJoin left right condition ihl ihr =>
    cases condition with
    | some c => cases h
    | none =>
      obtain ⟨ls, hls, h⟩ := bind_eq_ok.mp h
      have hpart : ∀ m part, (right.evaluate g m).map (keepUnmatched m) = .ok part →
          (s' ∈ part ↔
            right.Matches g m s' ∨ (s' = m ∧ ∀ m', ¬ right.Matches g m m')) := by
        intro m part hpart
        obtain ⟨found, hfound, rfl⟩ := map_eq_ok.mp hpart
        simp only [mem_keepUnmatched, ihr hfound]
      rw [mem_extendAll h]
      constructor
      · rintro ⟨m, hm, part, heq, hs'⟩
        exact ⟨m, (ihl hls m).mp hm, (hpart m part heq).mp hs'⟩
      · rintro ⟨m, hm, hs'⟩
        have hmem := (ihl hls m).mpr hm
        obtain ⟨parts, hparts, -⟩ := map_eq_ok.mp h
        obtain ⟨part, -, heq⟩ := exists_mem_right (mapM_eq_ok.mp hparts) hmem
        exact ⟨m, hmem, part, heq, (hpart m part heq).mpr hs'⟩
  | values vs rows =>
    cases h
    exact List.mem_filterMap
  | project inner vs ih =>
    obtain ⟨inners, hinners, heq⟩ := bind_eq_ok.mp h
    cases heq
    rw [List.mem_map]
    constructor
    · rintro ⟨m, hm, rfl⟩
      exact ⟨m, (ih hinners m).mp hm, rfl⟩
    · rintro ⟨m, hm, rfl⟩
      exact ⟨m, (ih hinners m).mpr hm, rfl⟩
  | distinct inner ih =>
    obtain ⟨inners, hinners, heq⟩ := bind_eq_ok.mp h
    cases heq
    constructor
    · exact fun hs' => ⟨inners, hinners, hs'⟩
    · rintro ⟨found, hfound, hs'⟩
      rw [hinners] at hfound
      cases hfound
      exact hs'
  | union | minus | filter | slice | reduced => cases h

/-! ### What matches extend -/

lemma bindRow?_extendsBy {s s' : Solution} {vs : List Variable} {row : List (Option Term)}
    (h : s.bindRow? vs row = some s') : ExtendsBy vs s s' := by
  induction vs generalizing s row with
  | nil =>
    cases row <;>
    · simp only [Solution.bindRow?, Option.some.injEq] at h
      exact h ▸ .refl _ s
  | cons v vs ih =>
    match row with
    | [] =>
      simp only [Solution.bindRow?, Option.some.injEq] at h
      exact h ▸ .refl _ s
    | none :: row => exact (ih h).mono fun w hw => List.mem_cons_of_mem v hw
    | some t :: row =>
      obtain ⟨m, hm, hs'⟩ := Option.bind_eq_some_iff.mp h
      exact (Solution.extendsBy_bind? hm).trans (ih hs')

lemma path_extendsBy {g : Graph} {p : Path} {subject object : PatternTerm} {s s' : Solution}
    (h : s' ∈ p.solutions g subject object s) :
    ExtendsBy (subject.vars ++ object.vars) s s' := by
  obtain ⟨⟨start, stop⟩, -, h⟩ := List.mem_filterMap.mp h
  exact (Solution.unify?_pair_spec h).1

lemma get?_extend (s other : Solution) (vs : List Variable) (v : Variable) :
    (s.extend vs other).get? v =
      (s.get? v).or (if v ∈ vs then other.get? v else none) := by
  have hfilter : ∀ other : Solution,
      Solution.get? (other.filter fun e => e.1 ∈ vs ∧ s.get? e.1 = none) v =
        if v ∈ vs ∧ s.get? v = none then other.get? v else none := by
    intro other
    induction other with
    | nil => split <;> rfl
    | cons e rest ih =>
      obtain ⟨w, t⟩ := e
      by_cases hw : w ∈ vs ∧ s.get? w = none
      · rw [List.filter_cons_of_pos (by simpa using hw), Solution.get?_cons, ih,
          Solution.get?_cons]
        by_cases hvw : v = w
        · subst hvw
          simp [hw]
        · simp [hvw]
      · rw [List.filter_cons_of_neg (by simpa using hw), ih, Solution.get?_cons]
        by_cases hvw : v = w
        · subst hvw
          simp [hw]
        · simp [hvw]
  rw [Solution.extend, Solution.get?_append, hfilter]
  cases s.get? v <;> simp

lemma mem_of_mem_eraseDupsBy {α : Type} {r : α → α → Bool} {as : List α} {a : α}
    (h : a ∈ as.eraseDupsBy r) : a ∈ as := by
  have hloop : ∀ as bs, a ∈ List.eraseDupsBy.loop r as bs → a ∈ as ∨ a ∈ bs := by
    intro as
    induction as with
    | nil => intro bs h; exact .inr (List.mem_reverse.mp h)
    | cons c as ih =>
      intro bs h
      unfold List.eraseDupsBy.loop at h
      split at h
      · exact (ih bs h).imp (List.mem_cons_of_mem c) id
      · rcases ih (c :: bs) h with has | hcbs
        · exact .inl (List.mem_cons_of_mem c has)
        · rcases List.mem_cons.mp hcbs with rfl | hbs
          · exact .inl List.mem_cons_self
          · exact .inr hbs
  exact (hloop as [] h).resolve_right (by simp)

/-- A match binds no variables but those that its pattern mentions. -/
theorem Matches.extendsBy {g : Graph} {p : Pattern} {s s' : Solution} (h : p.Matches g s s') :
    ExtendsBy p.mentioned s s' := by
  induction p generalizing s s' with
  | bgp triples => exact (matchTriples_spec h).1
  | path subject p object => exact path_extendsBy h
  | join left right ihl ihr =>
    obtain ⟨m, hm, hs'⟩ := h
    exact (ihl hm).trans (ihr hs')
  | leftJoin left right condition ihl ihr =>
    cases condition with
    | some c => exact h.elim
    | none =>
      obtain ⟨m, hm, hs' | ⟨rfl, -⟩⟩ := h
      · exact (ihl hm).trans (ihr hs')
      · exact (ihl hm).mono fun v hv => List.mem_append_left _ hv
  | values vs rows =>
    obtain ⟨row, -, hrow⟩ := h
    exact bindRow?_extendsBy hrow
  | project inner vs ih =>
    obtain ⟨m, hm, rfl⟩ := h
    have hbelow := ih hm
    refine ⟨fun v t ht => ?_, fun v t ht => ?_⟩
    · rw [get?_extend, ht]
      rfl
    · rw [get?_extend] at ht
      cases hs : s.get? v with
      | some u => exact .inl (by simpa [hs] using ht)
      | none =>
        rw [hs, Option.none_or] at ht
        split at ht
        · rcases hbelow.2 v t ht with hsv | hv
          · rw [hs] at hsv
            cases hsv
          · exact .inr hv
        · cases ht
  | distinct inner ih =>
    obtain ⟨found, hfound, hs'⟩ := h
    exact ih ((mem_evaluate_iff hfound s').mp (mem_of_mem_eraseDupsBy hs'))
  | union | minus | filter | slice | reduced => exact h.elim

/-! ### Support -/

/-- Whether no part of a pattern is one that cannot be evaluated. -/
def isSupported : Pattern → Bool
  | bgp _ => true
  | path _ _ _ => true
  | join left right => left.isSupported && right.isSupported
  | leftJoin left right none => left.isSupported && right.isSupported
  | values _ _ => true
  | project inner _ => inner.isSupported
  | distinct inner => inner.isSupported
  | _ => false

lemma exists_extendAll {next : Solution → Except EvaluationError (List Solution)}
    (h : ∀ s, ∃ found, next s = .ok found) (left : List Solution) :
    ∃ found, extendAll next left = .ok found := by
  choose f hf using h
  refine ⟨(left.map f).flatten, map_eq_ok.mpr ⟨left.map f, mapM_eq_ok.mpr ?_, rfl⟩⟩
  rw [List.forall₂_map_right_iff]
  exact List.forall₂_same.mpr fun s _ => hf s

theorem exists_evaluate {p : Pattern} (hp : p.isSupported) (g : Graph) (s : Solution) :
    ∃ found, p.evaluate g s = .ok found := by
  induction p generalizing s with
  | bgp triples => exact ⟨_, rfl⟩
  | path subject p object => exact ⟨_, rfl⟩
  | values header rows => exact ⟨_, rfl⟩
  | join left right ihl ihr =>
    obtain ⟨hpleft, hpright⟩ := Bool.and_eq_true_iff.mp hp
    obtain ⟨ls, hls⟩ := ihl hpleft s
    obtain ⟨found, hfound⟩ := exists_extendAll (ihr hpright) ls
    exact ⟨found, bind_eq_ok.mpr ⟨ls, hls, hfound⟩⟩
  | leftJoin left right condition ihl ihr =>
    cases condition with
    | some c => cases hp
    | none =>
      obtain ⟨hpleft, hpright⟩ := Bool.and_eq_true_iff.mp hp
      obtain ⟨ls, hls⟩ := ihl hpleft s
      have hnext : ∀ s, ∃ found, (right.evaluate g s).map (keepUnmatched s) = .ok found := by
        intro s
        obtain ⟨part, hpart⟩ := ihr hpright s
        exact ⟨_, map_eq_ok.mpr ⟨part, hpart, rfl⟩⟩
      obtain ⟨found, hfound⟩ := exists_extendAll hnext ls
      exact ⟨found, bind_eq_ok.mpr ⟨ls, hls, hfound⟩⟩
  | project inner vs ih =>
    obtain ⟨found, hfound⟩ := ih hp s
    exact ⟨_, bind_eq_ok.mpr ⟨found, hfound, rfl⟩⟩
  | distinct inner ih =>
    obtain ⟨found, hfound⟩ := ih hp s
    exact ⟨_, bind_eq_ok.mpr ⟨found, hfound, rfl⟩⟩
  | union | minus | filter | slice | reduced => cases hp

end Pattern

end Exemplar
