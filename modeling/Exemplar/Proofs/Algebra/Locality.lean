import Exemplar.Proofs.Algebra.BottomUp
import Exemplar.Proofs.Compilation.Guards
import Mathlib.Data.Set.Function
import Mathlib.Logic.Relation

/-!
# Locality

What a pattern adds to a solution depends on the terms of its own variables only, and it changes
no others. So patterns that share no variable but bound ones may be matched in either order.
-/

namespace Exemplar

/-- A step that looks at some variables and binds no others. From solutions that agree on these it
leads to solutions that agree on these, and on whatever else they agreed on. -/
structure IsLocal (vs : List Variable) (step : MatchStep) : Prop where
  extendsBy : ∀ {s s'}, step s s' → ExtendsBy vs s s'
  congr : ∀ {V : Set Variable} {s t s'}, (∀ x ∈ vs, x ∈ V) → V.EqOn s.get? t.get? → step s s' →
    ∃ t', step t t' ∧ V.EqOn s'.get? t'.get?

namespace IsLocal

variable {vs ws : List Variable} {step next : MatchStep} {s t s' : Solution}

lemma mono (h : IsLocal vs step) (hsub : ∀ x ∈ vs, x ∈ ws) : IsLocal ws step where
  extendsBy hs' := (h.extendsBy hs').mono hsub
  congr hV := h.congr fun x hx => hV x (hsub x hx)

lemma stay : IsLocal vs fun s s' => s' = s where
  extendsBy := by
    rintro s s' rfl
    exact .refl _ _
  congr := by
    rintro V s t s' - heq rfl
    exact ⟨t, rfl, heq⟩

lemma comp (h : IsLocal vs step) (h' : IsLocal ws next) :
    IsLocal (vs ++ ws) (Relation.Comp step next) where
  extendsBy := by
    rintro s s' ⟨m, hm, hs'⟩
    exact (h.extendsBy hm).trans (h'.extendsBy hs')
  congr := by
    rintro V s t s' hV heq ⟨m, hm, hs'⟩
    obtain ⟨n, hn, hmn⟩ := h.congr (fun x hx => hV x (List.mem_append_left _ hx)) heq hm
    obtain ⟨t', ht', hst⟩ := h'.congr (fun x hx => hV x (List.mem_append_right _ hx)) hmn hs'
    exact ⟨t', ⟨n, hn, ht'⟩, hst⟩

/-- One of several steps is taken. Which ones there are may depend on the variables looked at. -/
lemma exists_mem {α : Type} {found : Solution → List α} {steps : α → MatchStep}
    (h : ∀ a, IsLocal vs (steps a))
    (hfound : ∀ s t : Solution, (∀ x ∈ vs, s.get? x = t.get? x) → found s = found t) :
    IsLocal vs fun s s' => ∃ a ∈ found s, steps a s s' where
  extendsBy := by
    rintro s s' ⟨a, -, hs'⟩
    exact (h a).extendsBy hs'
  congr := by
    rintro V s t s' hV heq ⟨a, ha, hs'⟩
    obtain ⟨t', ht', hst⟩ := (h a).congr hV heq hs'
    rw [hfound s t fun x hx => heq (hV x hx)] at ha
    exact ⟨t', ⟨a, ha, ht'⟩, hst⟩

/-- A step is taken if it can be. -/
lemma optional (h : IsLocal vs step) :
    IsLocal vs fun s s' => step s s' ∨ (s' = s ∧ ∀ m, ¬ step s m) where
  extendsBy := by
    rintro s s' (hs' | ⟨rfl, -⟩)
    · exact h.extendsBy hs'
    · exact .refl _ _
  congr := by
    rintro V s t s' hV heq (hs' | ⟨rfl, hnone⟩)
    · obtain ⟨t', ht', hst⟩ := h.congr hV heq hs'
      exact ⟨t', .inl ht', hst⟩
    · refine ⟨t, .inr ⟨rfl, fun m hm => ?_⟩, heq⟩
      obtain ⟨n, hn, -⟩ := h.congr hV heq.symm hm
      exact hnone n hn

lemma eqOn_compl (h : IsLocal vs step) (hs' : step s s') :
    Set.EqOn s'.get? s.get? {x | x ∉ vs} :=
  fun _ hx => (h.extendsBy hs').get?_eq hx

/-- The other order of two steps leads to a solution with the same terms, if the variables that both
look at are bound before. -/
lemma exists_commuted (h : IsLocal vs step) (h' : IsLocal ws next)
    (hbound : ∀ x ∈ vs, x ∈ ws → s.get? x ≠ none) (hs' : Relation.Comp step next s s') :
    ∃ t', Relation.Comp next step s t' ∧ t'.get? = s'.get? := by
  obtain ⟨m, hm, hs'⟩ := hs'
  have hbelow := (h.extendsBy hm).1
  have hbelow' := (h'.extendsBy hs').1
  -- neither step changes what the other one looks at
  have heq : Set.EqOn m.get? s.get? {x | x ∈ ws} := by
    intro x hx
    by_cases hv : x ∈ vs
    · obtain ⟨u, hu⟩ := Option.ne_none_iff_exists'.mp (hbound x hv hx)
      rw [hu, hbelow x u hu]
    · exact h.eqOn_compl hm hv
  obtain ⟨n, hn, hsn⟩ := h'.congr (fun x hx => hx) heq hs'
  have hbelown := (h'.extendsBy hn).1
  have heq' : Set.EqOn s.get? n.get? {x | x ∈ vs} := by
    intro x hx
    by_cases hw : x ∈ ws
    · obtain ⟨u, hu⟩ := Option.ne_none_iff_exists'.mp (hbound x hx hw)
      rw [hu, hbelown x u hu]
    · exact (h'.eqOn_compl hn hw).symm
  obtain ⟨t', ht', hmt⟩ := h.congr (fun x hx => hx) heq' hm
  refine ⟨t', ⟨n, hn, ht'⟩, funext fun x => ?_⟩
  have hfirst : x ∉ vs → t'.get? x = n.get? x := fun hx => h.eqOn_compl ht' hx
  have hlast : x ∉ ws → s'.get? x = m.get? x := fun hx => h'.eqOn_compl hs' hx
  by_cases hv : x ∈ vs
  · rw [← hmt hv]
    by_cases hw : x ∈ ws
    · obtain ⟨u, hu⟩ := Option.ne_none_iff_exists'.mp (hbound x hv hw)
      rw [hbelow x u hu, hbelow' x u (hbelow x u hu)]
    · exact (hlast hw).symm
  · rw [hfirst hv]
    by_cases hw : x ∈ ws
    · exact (hsn hw).symm
    · rw [hlast hw, h'.eqOn_compl hn hw, h.eqOn_compl hm hv]

end IsLocal

/-! ### What is reached -/

section

variable {vs ws : List Variable} {step next first last : MatchStep} {s : Solution}

lemma reached_commute (h : IsLocal vs step) (h' : IsLocal ws next)
    (hbound : ∀ x ∈ vs, x ∈ ws → s.get? x ≠ none) :
    reached (Relation.Comp step next) s = reached (Relation.Comp next step) s := by
  ext μ
  constructor
  · rintro ⟨s', hs', rfl⟩
    exact h.exists_commuted h' hbound hs'
  · rintro ⟨s', hs', rfl⟩
    exact h'.exists_commuted h (fun x hw hv => hbound x hv hw) hs'

lemma reached_comp_subset (h : IsLocal vs last)
    (heq : ∀ m, first s m → reached step m ⊆ reached next m) :
    reached (Relation.Comp (Relation.Comp first step) last) s ⊆
      reached (Relation.Comp (Relation.Comp first next) last) s := by
  rintro μ ⟨s', ⟨n, ⟨m, hm, hn⟩, hs'⟩, rfl⟩
  obtain ⟨n', hn', hget⟩ := heq m hm ⟨n, hn, rfl⟩
  obtain ⟨t', ht', hst⟩ := h.congr (V := Set.univ) (fun x _ => Set.mem_univ x)
    (fun x _ => congrFun hget.symm x) hs'
  exact ⟨t', ⟨n', ⟨m, hm, hn'⟩, ht'⟩, funext fun x => (hst (Set.mem_univ x)).symm⟩

/-- What is reached by steps before a local one decides what this one reaches. -/
lemma reached_comp_congr (h : IsLocal vs last)
    (heq : ∀ m, first s m → reached step m = reached next m) :
    reached (Relation.Comp (Relation.Comp first step) last) s =
      reached (Relation.Comp (Relation.Comp first next) last) s :=
  (reached_comp_subset h fun m hm => (heq m hm).subset).antisymm
    (reached_comp_subset h fun m hm => (heq m hm).symm.subset)

end

/-! ### Patterns -/

section

variable {g : Graph}

lemma isLocal_bind? (v : Variable) (u : Term) : IsLocal [v] fun s s' => s.bind? v u = some s' where
  extendsBy := Solution.extendsBy_bind?
  congr := by
    intro V s t s' hV heq hs'
    have hv : v ∈ V := hV v List.mem_cons_self
    simp only [Solution.bind?, ← heq hv] at hs' ⊢
    cases hbound : s.get? v with
    | none =>
      simp only [hbound, Option.some.injEq] at hs'
      subst hs'
      refine ⟨(v, u) :: t, rfl, fun x hx => ?_⟩
      rw [Solution.get?_cons, Solution.get?_cons, heq hx]
    | some w =>
      simp only [hbound] at hs'
      split at hs'
      · next hw =>
        cases hs'
        exact ⟨t, by simp [hw], heq⟩
      · cases hs'

lemma isLocal_unify? (p : PatternTerm) (u : Term) :
    IsLocal p.vars fun s s' => s.unify? p u = some s' := by
  match p with
  | .variable v => exact isLocal_bind? v u
  | .constant c =>
    by_cases hc : c = u
    · simpa [Solution.unify?, hc, eq_comm] using IsLocal.stay
    · exact ⟨fun h => by simp [Solution.unify?, hc] at h,
        fun _ _ h => by simp [Solution.unify?, hc] at h⟩

lemma Solution.resolve?_congr {s t : Solution} {p : PatternTerm}
    (h : ∀ x ∈ p.vars, s.get? x = t.get? x) : s.resolve? p = t.resolve? p := by
  rw [Solution.resolve?_eq, Solution.resolve?_eq]
  exact PatternTerm.value_congr h

/-- The candidates for a triple pattern are those for what is known of its variables. -/
lemma TriplePattern.candidates_congr {p : TriplePattern} {s t : Solution}
    (h : ∀ x ∈ p.vars, s.get? x = t.get? x) : p.candidates g s = p.candidates g t := by
  have hsubject : s.resolve? p.subject = t.resolve? p.subject :=
    Solution.resolve?_congr fun x hx => h x (by simp [vars, hx])
  have hpredicate : s.resolve? p.predicate = t.resolve? p.predicate :=
    Solution.resolve?_congr fun x hx => h x (by simp [vars, hx])
  have hobject : s.resolve? p.object = t.resolve? p.object :=
    Solution.resolve?_congr fun x hx => h x (by simp [vars, hx])
  simp only [candidates, hsubject, hpredicate, hobject]

lemma TriplePattern.isLocal (p : TriplePattern) :
    IsLocal p.vars fun s s' => s' ∈ p.solutions g s := by
  simp only [solutions, List.mem_filterMap, Option.bind_eq_bind, Option.bind_eq_some_iff]
  refine .exists_mem (fun t => ?_) fun s t heq => ?_
  · exact ((isLocal_unify? p.subject _).comp ((isLocal_unify? p.predicate _).comp
      (isLocal_unify? p.object _))).mono (by simp [vars])
  · rw [candidates_congr heq]

lemma isLocal_matchTriples (triples : List TriplePattern) :
    IsLocal (triples.flatMap TriplePattern.vars) fun s s' => s' ∈ matchTriples g triples s := by
  induction triples with
  | nil => simpa [matchTriples] using IsLocal.stay
  | cons p rest ih =>
    simp only [mem_matchTriples_cons]
    exact p.isLocal.comp ih

lemma Path.isLocal (p : Path) (subject object : PatternTerm) :
    IsLocal (subject.vars ++ object.vars) fun s s' => s' ∈ p.solutions g subject object s := by
  simp only [solutions, List.mem_filterMap, Option.bind_eq_some_iff]
  refine .exists_mem (fun ends => ?_) fun s t heq => ?_
  · exact (isLocal_unify? subject ends.1).comp (isLocal_unify? object ends.2)
  · rw [Solution.resolve?_congr fun x hx => heq x (List.mem_append_left _ hx),
      Solution.resolve?_congr fun x hx => heq x (List.mem_append_right _ hx)]

lemma isLocal_bindRow? (header : List Variable) (row : List (Option Term)) :
    IsLocal header fun s s' => s.bindRow? header row = some s' := by
  induction header generalizing row with
  | nil =>
    cases row <;> simpa [Solution.bindRow?, eq_comm] using IsLocal.stay
  | cons v header ih =>
    cases row with
    | nil => simpa [Solution.bindRow?, eq_comm] using IsLocal.stay
    | cons t? row =>
      cases t? with
      | none => exact (ih row).mono fun x hx => List.mem_cons_of_mem v hx
      | some u =>
        simp only [Solution.bindRow?, Option.bind_eq_some_iff]
        exact (isLocal_bind? v u).comp (ih row)

end

namespace Pattern

variable {g : Graph}

lemma get?_eq_of_same {s t : Solution} (h : s.same t) : s.get? = t.get? := by
  funext v
  rw [Solution.same, List.all_eq_true] at h
  by_cases hv : v ∈ s.domain ++ t.domain
  · exact beq_iff_eq.mp (h v hv)
  · have hnone : s.get? v = none ∧ t.get? v = none := by
      rw [List.mem_append, not_or] at hv
      exact ⟨by_contra fun hs => hv.1 (Solution.mem_domain hs),
        by_contra fun ht => hv.2 (Solution.mem_domain ht)⟩
    rw [hnone.1, hnone.2]

/-- Of solutions with the same terms one is kept. -/
lemma exists_mem_eraseDupsBy {found : List Solution} {s : Solution} (hs : s ∈ found) :
    ∃ s' ∈ found.eraseDupsBy Solution.same, s'.get? = s.get? := by
  -- the loop keeps what it has seen before
  have hseen : ∀ (as bs : List Solution) (t : Solution), t ∈ bs →
      t ∈ List.eraseDupsBy.loop Solution.same as bs := by
    intro as
    induction as with
    | nil => exact fun bs t ht => List.mem_reverse.mpr ht
    | cons a as ih =>
      intro bs t ht
      unfold List.eraseDupsBy.loop
      split
      · exact ih bs t ht
      · exact ih (a :: bs) t (List.mem_cons_of_mem a ht)
  have hloop : ∀ as bs : List Solution, s ∈ as →
      ∃ s' ∈ List.eraseDupsBy.loop Solution.same as bs, s'.get? = s.get? := by
    intro as
    induction as with
    | nil => exact fun bs hs => nomatch hs
    | cons a as ih =>
      intro bs hs
      unfold List.eraseDupsBy.loop
      rcases List.mem_cons.mp hs with rfl | hs
      · split
        · next hany =>
          obtain ⟨t, ht, hsame⟩ := List.any_eq_true.mp hany
          exact ⟨t, hseen as bs t ht, (get?_eq_of_same hsame).symm⟩
        · exact ⟨s, hseen as (s :: bs) s List.mem_cons_self, rfl⟩
      · split
        · exact ih bs hs
        · exact ih (a :: bs) hs
  exact hloop found [] hs

/-- What a pattern adds to a solution depends on the terms of its own variables. -/
theorem isLocal_matches {p : Pattern} (hp : p.isSupported) :
    IsLocal p.mentioned (p.Matches g) := by
  induction p with
  | bgp triples => exact isLocal_matchTriples triples
  | path subject p object => exact p.isLocal subject object
  | join left right ihl ihr =>
    obtain ⟨hleft, hright⟩ := Bool.and_eq_true_iff.mp hp
    exact (ihl hleft).comp (ihr hright)
  | leftJoin left right condition ihl ihr =>
    cases condition with
    | some c => cases hp
    | none =>
      obtain ⟨hleft, hright⟩ := Bool.and_eq_true_iff.mp hp
      exact (ihl hleft).comp (ihr hright).optional
  | values header rows => exact .exists_mem (isLocal_bindRow? header) fun _ _ _ => rfl
  | project inner header ih =>
    refine ⟨Matches.extendsBy, ?_⟩
    rintro V s t s' hV heq ⟨m, hm, rfl⟩
    obtain ⟨n, hn, hmn⟩ := (ih hp).congr hV heq hm
    refine ⟨_, ⟨n, hn, rfl⟩, fun x hx => ?_⟩
    rw [get?_extend, get?_extend, heq hx, hmn hx]
  | distinct inner ih =>
    refine ⟨Matches.extendsBy, ?_⟩
    rintro V s t s' hV heq ⟨found, hfound, hs'⟩
    obtain ⟨n, hn, hsn⟩ := (ih hp).congr hV heq
      ((mem_evaluate_iff hfound s').mp (mem_of_mem_eraseDupsBy hs'))
    obtain ⟨found', hfound'⟩ := exists_evaluate (p := inner) hp g t
    obtain ⟨t', ht', hnt⟩ := exists_mem_eraseDupsBy ((mem_evaluate_iff hfound' n).mpr hn)
    exact ⟨t', ⟨found', hfound', ht'⟩, fun x hx => by rw [hsn hx, hnt]⟩
  | union | minus | filter | slice | reduced => cases hp

lemma isLocal_matchesOptional {p : Pattern} (hp : p.isSupported) :
    IsLocal p.mentioned (p.MatchesOptional g) :=
  (isLocal_matches hp).optional

lemma isLocal_matchesAll {ps : List Pattern} (hps : ∀ p ∈ ps, p.isSupported) :
    IsLocal (ps.flatMap mentioned) (MatchesAll g ps) := by
  induction ps with
  | nil => exact .stay
  | cons p rest ih =>
    rw [List.forall_mem_cons] at hps
    exact (isLocal_matches hps.1).comp (ih hps.2)

lemma isLocal_matchesOptionals {ps : List Pattern} (hps : ∀ p ∈ ps, p.isSupported) :
    IsLocal (ps.flatMap mentioned) (MatchesOptionals g ps) := by
  induction ps with
  | nil => exact .stay
  | cons p rest ih =>
    rw [List.forall_mem_cons] at hps
    exact (isLocal_matchesOptional hps.1).comp (ih hps.2)

/-! ### Groups that change nothing else -/

lemma exists_matchesOptional (p : Pattern) (s : Solution) : ∃ s', p.MatchesOptional g s s' := by
  by_cases h : ∃ s', p.Matches g s s'
  · obtain ⟨s', hs'⟩ := h
    exact ⟨s', .inl hs'⟩
  · exact ⟨s, .inr ⟨rfl, not_exists.mp h⟩⟩

/-- A group that changes none of some variables may be added in front of groups with these variables
only. The matches are the same, as far as these variables are concerned. -/
lemma matchesOptionals_insert {V : Set Variable} {ps qs : List Pattern} {q : Pattern} {s : Solution}
    (hsupported : ∀ p ∈ qs, p.isSupported) (hqs : ∀ p ∈ qs, ∀ x ∈ p.mentioned, x ∈ V)
    (hq : ∀ m m', MatchesOptionals g ps s m → q.MatchesOptional g m m' → V.EqOn m.get? m'.get?) :
    (∀ s', MatchesOptionals g (ps ++ qs) s s' →
      ∃ t', MatchesOptionals g (ps ++ q :: qs) s t' ∧ V.EqOn s'.get? t'.get?) ∧
    ∀ t', MatchesOptionals g (ps ++ q :: qs) s t' →
      ∃ s', MatchesOptionals g (ps ++ qs) s s' ∧ V.EqOn s'.get? t'.get? := by
  have hlocal := isLocal_matchesOptionals (g := g) hsupported
  have hV : ∀ x ∈ qs.flatMap mentioned, x ∈ V := by
    intro x hx
    obtain ⟨p, hp, hx⟩ := List.mem_flatMap.mp hx
    exact hqs p hp x hx
  simp only [matchesOptionals_append]
  constructor
  · rintro s' ⟨m, hm, hs'⟩
    obtain ⟨m', hm'⟩ := exists_matchesOptional (g := g) q m
    obtain ⟨t', ht', heq⟩ := hlocal.congr hV (hq m m' hm hm') hs'
    exact ⟨t', ⟨m, hm, m', hm', ht'⟩, heq⟩
  · rintro t' ⟨m, hm, m', hm', ht'⟩
    obtain ⟨s', hs', heq⟩ := hlocal.congr hV (hq m m' hm hm').symm ht'
    exact ⟨s', ⟨m, hm, hs'⟩, heq.symm⟩

end Pattern

end Exemplar
