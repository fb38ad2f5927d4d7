import Exemplar.Algebra.Table
import Exemplar.Proofs.Algebra.Reachability
import Exemplar.Proofs.Algebra.WellDesigned
import Mathlib.Data.Set.Insert
import Mathlib.Logic.Relation

/-!
# Evaluation from the bottom up

The usual meaning of patterns: each part has solutions of its own, which are partial assignments,
and larger patterns join them. Evaluation passes the solutions found so far on to the parts that
remain instead. On well-designed patterns the two agree, whatever solution evaluation starts from.
-/

namespace Exemplar

/-! ### Joins of assignments -/

/-- Whether two assignments agree where both are bound. -/
def Compatible (μ ν : Assignment) : Prop := ∀ v t u, μ v = some t → ν v = some u → t = u

/-- The unions of compatible assignments of two sets. -/
def Assignment.join (A B : Set Assignment) : Set Assignment :=
  {μ | ∃ α ∈ A, ∃ β ∈ B, Compatible α β ∧ μ = α.or β}

/-- The joined assignments, and those of the first set that nothing in the second is compatible
with. -/
def Assignment.leftJoin (A B : Set Assignment) : Set Assignment :=
  join A B ∪ {α | α ∈ A ∧ ∀ β ∈ B, ¬ Compatible α β}

/-- The assignments that solutions stand for. -/
def assignments (found : List Solution) : Set Assignment := {μ | ∃ s ∈ found, s.get? = μ}

section

variable {α β γ μ ν : Assignment} {A B C : Set Assignment}

lemma Assignment.or_apply (μ ν : Assignment) (v : Variable) : μ.or ν v = (μ v).or (ν v) := rfl

lemma Assignment.or_of_some {v : Variable} {t : Term} (h : μ v = some t) : μ.or ν v = some t := by
  simp [or_apply, h]

lemma Assignment.or_ne_none {v : Variable} :
    α.or β v ≠ none ↔ α v ≠ none ∨ β v ≠ none := by
  simp [or_apply, Option.or_eq_none_iff, imp_iff_not_or]

lemma Assignment.or_assoc : (α.or β).or γ = α.or (β.or γ) := by
  funext v
  simp only [or_apply, Option.or_assoc]

lemma Compatible.below_right (h : Compatible μ ν) : Below ν (μ.or ν) := by
  intro v u hu
  cases ht : μ v with
  | none => rw [Assignment.or_of_none ht, hu]
  | some t => rw [Assignment.or_of_some ht, h v t u ht hu]

/-- Whatever an assignment is compatible with, smaller ones are. -/
lemma Compatible.mono (h : Compatible μ ν) (hα : Below α μ) (hβ : Below β ν) : Compatible α β :=
  fun v t u ht hu => h v t u (hα v t ht) (hβ v u hu)

lemma compatible_or_left (hα : Compatible α γ) (hβ : Compatible β γ) :
    Compatible (α.or β) γ := by
  intro v t u ht hu
  cases hv : α v with
  | none => exact hβ v t u (by rwa [Assignment.or_of_none hv] at ht) hu
  | some w => exact hα v t u (by rw [hv, ← ht, Assignment.or_of_some hv]) hu

lemma compatible_or_right (hβ : Compatible α β) (hγ : Compatible α γ) :
    Compatible α (β.or γ) := by
  intro v t u ht hu
  cases hv : β v with
  | none => exact hγ v t u ht (by rwa [Assignment.or_of_none hv] at hu)
  | some w => exact hβ v t u ht (by rw [hv, ← hu, Assignment.or_of_some hv])

theorem Assignment.join_comm : join A B = join B A := by
  have hor : ∀ {α β : Assignment}, Compatible α β → α.or β = β.or α := by
    intro α β h
    funext v
    cases hv : β v with
    | none => rw [or_of_none hv, or_apply, hv, Option.or_none]
    | some u => rw [or_of_some hv, h.below_right v u hv]
  ext μ
  constructor <;>
  · rintro ⟨α, hα, β, hβ, h, rfl⟩
    exact ⟨β, hβ, α, hα, fun v t u ht hu => (h v u t hu ht).symm, hor h⟩

theorem Assignment.join_assoc : join (join A B) C = join A (join B C) := by
  ext μ
  constructor
  · rintro ⟨_, ⟨α, hα, β, hβ, hαβ, rfl⟩, γ, hγ, h, rfl⟩
    have hβγ : Compatible β γ := h.mono hαβ.below_right (.refl γ)
    have hαγ : Compatible α γ := h.mono (.or_left α β) (.refl γ)
    exact ⟨α, hα, β.or γ, ⟨β, hβ, γ, hγ, hβγ, rfl⟩, compatible_or_right hαβ hαγ, or_assoc⟩
  · rintro ⟨α, hα, _, ⟨β, hβ, γ, hγ, hβγ, rfl⟩, h, rfl⟩
    have hαβ : Compatible α β := h.mono (.refl α) (.or_left β γ)
    have hαγ : Compatible α γ := h.mono (.refl α) hβγ.below_right
    exact ⟨α.or β, ⟨α, hα, β, hβ, hαβ, rfl⟩, γ, hγ, compatible_or_left hαγ hβγ, or_assoc.symm⟩

/-- A single assignment may be joined to a left join or to its left side, if this changes nothing
about what the right side is compatible with. -/
lemma Assignment.leftJoin_join {σ : Assignment}
    (h : ∀ α ∈ A, Compatible σ α → ∀ β ∈ B, (Compatible (σ.or α) β ↔ Compatible α β)) :
    leftJoin (join {σ} A) B = join {σ} (leftJoin A B) := by
  ext μ
  constructor
  · rintro (hμ | ⟨⟨_, rfl, α, hα, hσ, rfl⟩, hnone⟩)
    · rw [join_assoc] at hμ
      obtain ⟨_, rfl, γ, hγ, hμ⟩ := hμ
      exact ⟨_, rfl, γ, .inl hγ, hμ⟩
    · refine ⟨_, rfl, α, .inr ⟨hα, fun β hβ hcompatible => ?_⟩, hσ, rfl⟩
      exact hnone β hβ ((h α hα hσ β hβ).mpr hcompatible)
  · rintro ⟨_, rfl, γ, hγ | ⟨hγ, hnone⟩, hσ, rfl⟩
    · refine .inl ?_
      rw [join_assoc]
      exact ⟨_, rfl, γ, hγ, hσ, rfl⟩
    · refine .inr ⟨⟨_, rfl, γ, hγ, hσ, rfl⟩, fun β hβ hcompatible => ?_⟩
      exact hnone β hβ ((h γ hγ hσ β hβ).mp hcompatible)

lemma Assignment.mem_join_singleton :
    μ ∈ join {α} B ↔ ∃ β ∈ B, Compatible α β ∧ μ = α.or β := by
  constructor
  · rintro ⟨_, rfl, h⟩
    exact h
  · exact fun h => ⟨α, rfl, h⟩

/-- Nothing is bound in the empty solution. -/
lemma join_empty : Assignment.join {Solution.get? []} A = A := by
  have hempty : ∀ α : Assignment, Assignment.or (Solution.get? []) α = α := fun _ => rfl
  ext μ
  constructor
  · rintro ⟨_, rfl, α, hα, -, rfl⟩
    rwa [hempty]
  · intro hμ
    refine ⟨_, rfl, μ, hμ, ?_, (hempty μ).symm⟩
    intro v t u ht
    cases ht

lemma Solution.mem_domain {s : Solution} {v : Variable} (hv : s.get? v ≠ none) :
    v ∈ s.domain := by
  by_contra hnot
  apply hv
  rw [Solution.get?, List.lookup_eq_none_iff]
  intro e he
  simpa using fun heq : v = e.1 => hnot (List.mem_map.mpr ⟨e, he, heq.symm⟩)

end

/-! ### What is reached -/

/-- How solutions lead to others. -/
abbrev MatchStep := Solution → Solution → Prop

/-- The assignments of the solutions that a step leads to. -/
def reached (step : MatchStep) (s : Solution) : Set Assignment :=
  {μ | ∃ s', step s s' ∧ s'.get? = μ}

/-- If a step joins the same assignments to whatever the step before it leads to, then so do both
together. -/
lemma reached_comp {step next : MatchStep} {s : Solution} {B : Set Assignment}
    (h : ∀ m, step s m → reached next m = Assignment.join {m.get?} B) :
    reached (Relation.Comp step next) s = Assignment.join (reached step s) B := by
  ext μ
  constructor
  · rintro ⟨s', ⟨m, hm, hs'⟩, heq⟩
    have hμ : μ ∈ reached next m := ⟨s', hs', heq⟩
    rw [h m hm, Assignment.mem_join_singleton] at hμ
    exact ⟨m.get?, ⟨m, hm, rfl⟩, hμ⟩
  · rintro ⟨_, ⟨m, hm, rfl⟩, hβ⟩
    have hμ : μ ∈ reached next m := by
      rwa [h m hm, Assignment.mem_join_singleton]
    obtain ⟨s', hs', heq⟩ := hμ
    exact ⟨s', ⟨m, hm, hs'⟩, heq⟩

/-! ### The meaning of a pattern -/

namespace Pattern

/-- The solutions of a pattern in a graph. A blank node in a pattern stands for itself. -/
def meaning (g : Graph) : Pattern → Set Assignment
  | bgp triples =>
    {μ | (∀ p ∈ triples, p.Holds g μ) ∧ ∀ v, μ v ≠ none → v ∈ triples.flatMap TriplePattern.vars}
  | path subject p object =>
    {μ | (∃ a b, p.Connects g a b ∧ subject.value μ = some a ∧ object.value μ = some b) ∧
      ∀ v, μ v ≠ none → v ∈ subject.vars ++ object.vars}
  | join left right => Assignment.join (left.meaning g) (right.meaning g)
  | leftJoin left right none => Assignment.leftJoin (left.meaning g) (right.meaning g)
  | values header rows =>
    {μ | ∃ row ∈ rows, ∀ v t, μ v = some t ↔ (v, some t) ∈ header.zip row}
  | _ => ∅

/-- Whether a pattern is built from triple patterns, proper paths and tables by joins and left joins
without a condition. -/
def isRelational : Pattern → Bool
  | bgp _ => true
  | path _ p _ => p.isProper
  | join left right => left.isRelational && right.isRelational
  | leftJoin left right none => left.isRelational && right.isRelational
  | values _ _ => true
  | _ => false

/-! ### What is found from a solution -/

/-- The assignments of the matches of a pattern from a solution. -/
def matched (g : Graph) (p : Pattern) (s : Solution) : Set Assignment :=
  {μ | ∃ s', p.Matches g s s' ∧ s'.get? = μ}

section

variable {g : Graph} {s : Solution}

/-- A search for the extensions of which something holds joins the solution that it starts from to
all assignments of its variables of which this holds. -/
lemma found_eq_join {Found : Solution → Prop} {Holds : Assignment → Prop} {vs : List Variable}
    (hsound : ∀ s', Found s' → ExtendsBy vs s s' ∧ Holds s'.get?)
    (hcomplete : ∀ μ, Below s.get? μ → Holds μ → ∃ s', Found s' ∧ Below s'.get? μ)
    (hbinds : ∀ μ, Holds μ → ∀ v ∈ vs, μ v ≠ none)
    (hcongr : ∀ μ ν, Holds μ → (∀ v ∈ vs, μ v = ν v) → Holds ν) :
    {μ | ∃ s', Found s' ∧ s'.get? = μ} =
      Assignment.join {s.get?} {β | Holds β ∧ ∀ v, β v ≠ none → v ∈ vs} := by
  ext μ
  constructor
  · rintro ⟨s', hs', rfl⟩
    obtain ⟨⟨hbelow, hvars⟩, hholds⟩ := hsound s' hs'
    -- what is found says the same of the variables of the search only
    let β : Assignment := fun v => if v ∈ vs then s'.get? v else none
    have hβ : ∀ v ∈ vs, s'.get? v = β v := fun v hv => (if_pos hv).symm
    have hβbelow : Below β s'.get? := by
      intro v t ht
      by_cases hv : v ∈ vs
      · rwa [hβ v hv]
      · simp [β, hv] at ht
    have hcompatible : Compatible s.get? β := by
      intro v t u ht hu
      have heq := (hbelow v t ht).symm.trans (hβbelow v u hu)
      exact Option.some.inj heq
    refine ⟨_, rfl, β, ⟨hcongr _ _ hholds hβ, ?_⟩, hcompatible, ?_⟩
    · intro v hv
      by_contra hnot
      exact hv (if_neg hnot)
    · funext v
      cases ht : s'.get? v with
      | none =>
        rw [Assignment.or_of_none (hbelow.eq_none ht), hβbelow.eq_none ht]
      | some t =>
        rcases hvars v t ht with hs | hv
        · exact (Assignment.or_of_some hs).symm
        · exact (hcompatible.below_right v t (by rwa [← hβ v hv])).symm
  · rintro ⟨_, rfl, β, ⟨hholds, hdomain⟩, hcompatible, rfl⟩
    have hβ := hcompatible.below_right
    have hagree : ∀ v ∈ vs, β v = Assignment.or s.get? β v := by
      intro v hv
      obtain ⟨t, ht⟩ := Option.ne_none_iff_exists'.mp (hbinds β hholds v hv)
      rw [ht, hβ v t ht]
    obtain ⟨s', hs', hbelow⟩ := hcomplete _ (.or_left _ _) (hcongr _ _ hholds hagree)
    obtain ⟨⟨hextends, -⟩, hfound⟩ := hsound s' hs'
    refine ⟨s', hs', ?_⟩
    funext v
    cases ht : s'.get? v with
    | some t => exact (hbelow v t ht).symm
    | none =>
      have hβv : β v = none := by
        by_contra hsome
        exact hbinds _ hfound v (hdomain v hsome) ht
      rw [Assignment.or_of_none (hextends.eq_none ht), hβv]

/-! ### Parts -/

/-- Every assignment of which all triple patterns hold is found. -/
lemma exists_mem_matchTriples_of_below (hg : g.FullyIndexed) {triples : List TriplePattern}
    {μ : Assignment} (hs : Below s.get? μ) (h : ∀ p ∈ triples, p.Holds g μ) :
    ∃ s' ∈ matchTriples g triples s, Below s'.get? μ := by
  induction triples generalizing s with
  | nil => exact ⟨s, List.mem_singleton.mpr rfl, hs⟩
  | cons p rest ih =>
    rw [List.forall_mem_cons] at h
    have hlookup : ∀ u, s.resolve? p.object = some u → Graph.isIndexed u := by
      intro u hu
      obtain ⟨t, ht, -, -, hobject⟩ := h.1
      exact Solution.eq_of_resolve? hs hobject hu ▸ hg.2 t ht
    obtain ⟨m, hm, hbelow⟩ := TriplePattern.exists_mem_solutions hg.1 hs (fun _ => hlookup) h.1
    obtain ⟨s', hs', hbelow'⟩ := ih hbelow h.2
    exact ⟨s', mem_matchTriples_cons.mpr ⟨m, hm, hs'⟩, hbelow'⟩

lemma matched_bgp (hg : g.FullyIndexed) (triples : List TriplePattern) :
    matched g (.bgp triples) s = Assignment.join {s.get?} ((bgp triples).meaning g) := by
  apply found_eq_join
  · exact fun s' hs' => matchTriples_spec hs'
  · exact fun μ hμ h => exists_mem_matchTriples_of_below hg hμ h
  · intro μ h v hv
    obtain ⟨p, hp, hv⟩ := List.mem_flatMap.mp hv
    exact (h p hp).binds hv
  · intro μ ν h heq p hp
    exact (h p hp).congr fun v hv => heq v (List.mem_flatMap.mpr ⟨p, hp, hv⟩)

lemma matched_path (hg : g.FullyIndexed) {p : Path} (hp : p.isProper)
    (subject object : PatternTerm) :
    matched g (.path subject p object) s =
      Assignment.join {s.get?} ((path subject p object).meaning g) := by
  apply found_eq_join
  · intro s' hs'
    obtain ⟨⟨a, b⟩, hab, h⟩ := List.mem_filterMap.mp hs'
    obtain ⟨hext, hends⟩ := Solution.unify?_pair_spec h
    exact ⟨hext, a, b, ((Path.mem_pairsBetween hg hp).mp hab).1, hends⟩
  · rintro μ hμ ⟨a, b, hab, hsubject, hobject⟩
    have hpair := (Path.mem_pairsBetween hg hp).mpr ⟨hab,
      fun t ht => (Solution.eq_of_resolve? hμ hsubject ht).symm,
      fun t ht => (Solution.eq_of_resolve? hμ hobject ht).symm⟩
    obtain ⟨s', hs', hbelow⟩ := Solution.exists_unify?_pair hμ hsubject hobject
    exact ⟨s', List.mem_filterMap.mpr ⟨_, hpair, hs'⟩, hbelow⟩
  · rintro μ ⟨a, b, -, hsubject, hobject⟩ v hv
    rcases List.mem_append.mp hv with hv | hv
    · exact PatternTerm.binds hsubject hv
    · exact PatternTerm.binds hobject hv
  · rintro μ ν ⟨a, b, hab, hsubject, hobject⟩ heq
    refine ⟨a, b, hab, ?_, ?_⟩
    · rwa [← PatternTerm.value_congr fun v hv => heq v (List.mem_append_left _ hv)]
    · rwa [← PatternTerm.value_congr fun v hv => heq v (List.mem_append_right _ hv)]

/-! ### Tables -/

lemma mem_bindings {header : List Variable} {row : List (Option Term)} {v : Variable} {t : Term} :
    (v, t) ∈ Table.bindings header row ↔ (v, some t) ∈ header.zip row := by
  induction header generalizing row with
  | nil => simp [Table.bindings]
  | cons w header ih =>
    match row with
    | [] => simp [Table.bindings]
    | none :: row => simp [Table.bindings, ih]
    | some u :: row => simp [Table.bindings, ih]

lemma bindRow?_spec {s' : Solution} {header : List Variable} {row : List (Option Term)}
    (h : s.bindRow? header row = some s') :
    ExtendsBy (Table.bindings header row).domain s s' ∧
      ∀ v t, (v, t) ∈ Table.bindings header row → s'.get? v = some t := by
  induction header generalizing s row with
  | nil =>
    cases row <;>
    · obtain rfl : s = s' := Option.some.inj h
      exact ⟨.refl _ s, fun v t ht => nomatch ht⟩
  | cons w header ih =>
    match row with
    | [] =>
      obtain rfl : s = s' := Option.some.inj h
      exact ⟨.refl _ s, fun v t ht => nomatch ht⟩
    | none :: row => exact ih h
    | some u :: row =>
      obtain ⟨m, hm, hs'⟩ := Option.bind_eq_some_iff.mp h
      obtain ⟨hext, hvalues⟩ := ih hs'
      refine ⟨(Solution.extendsBy_bind? hm).trans hext, fun v t ht => ?_⟩
      rcases List.mem_cons.mp ht with heq | ht
      · cases heq
        exact hext.1 _ _ (Solution.get?_bind?_self hm)
      · exact hvalues v t ht

lemma exists_bindRow? {header : List Variable} {row : List (Option Term)} {μ : Assignment}
    (hs : Below s.get? μ) (h : ∀ v t, (v, t) ∈ Table.bindings header row → μ v = some t) :
    ∃ s', s.bindRow? header row = some s' ∧ Below s'.get? μ := by
  induction header generalizing s row with
  | nil => cases row <;> exact ⟨s, rfl, hs⟩
  | cons w header ih =>
    match row with
    | [] => exact ⟨s, rfl, hs⟩
    | none :: row => exact ih hs h
    | some u :: row =>
      have hw : PatternTerm.value μ (.variable w) = some u := h w u List.mem_cons_self
      obtain ⟨m, hm, hbelow⟩ := Solution.exists_unify? hs hw
      obtain ⟨s', hs', hbelow'⟩ := ih hbelow fun v t ht => h v t (List.mem_cons_of_mem _ ht)
      exact ⟨s', Option.bind_eq_some_iff.mpr ⟨m, hm, hs'⟩, hbelow'⟩

/-- A row joins its own assignment. -/
lemma found_row (header : List Variable) (row : List (Option Term)) :
    {μ | ∃ s', s.bindRow? header row = some s' ∧ s'.get? = μ} =
      Assignment.join {s.get?} {μ | ∀ v t, μ v = some t ↔ (v, some t) ∈ header.zip row} := by
  have hmem : ∀ {v : Variable}, v ∈ (Table.bindings header row).domain ↔
      ∃ t, (v, t) ∈ Table.bindings header row := by
    intro v
    simp [Solution.domain]
  have hset : {μ : Assignment | ∀ v t, μ v = some t ↔ (v, some t) ∈ header.zip row} =
      {μ | (∀ v t, (v, t) ∈ Table.bindings header row → μ v = some t) ∧
        ∀ v, μ v ≠ none → v ∈ (Table.bindings header row).domain} := by
    ext μ
    simp only [Set.mem_ofPred_eq, ← mem_bindings]
    constructor
    · intro h
      refine ⟨fun v t ht => (h v t).mpr ht, fun v hv => ?_⟩
      obtain ⟨t, ht⟩ := Option.ne_none_iff_exists'.mp hv
      exact hmem.mpr ⟨t, (h v t).mp ht⟩
    · rintro ⟨hvalues, hdomain⟩ v t
      refine ⟨fun ht => ?_, hvalues v t⟩
      obtain ⟨u, hu⟩ := hmem.mp (hdomain v (by simp [ht]))
      rw [hvalues v u hu] at ht
      rwa [← Option.some.inj ht]
  rw [hset]
  apply found_eq_join
  · exact fun s' hs' => bindRow?_spec hs'
  · exact fun μ hμ h => exists_bindRow? hμ h
  · intro μ h v hv
    obtain ⟨t, ht⟩ := hmem.mp hv
    simp [h v t ht]
  · intro μ ν h heq v t ht
    rw [← heq v (hmem.mpr ⟨t, ht⟩), h v t ht]

lemma matched_values (header : List Variable) (rows : List (List (Option Term))) :
    matched g (.values header rows) s =
      Assignment.join {s.get?} ((values header rows).meaning g) := by
  ext μ
  have hrow : ∀ row, (∃ s', s.bindRow? header row = some s' ∧ s'.get? = μ) ↔
      ∃ β : Assignment, (∀ v t, β v = some t ↔ (v, some t) ∈ header.zip row) ∧
        Compatible s.get? β ∧ μ = Assignment.or s.get? β := by
    intro row
    have hfound := Set.ext_iff.mp (found_row (s := s) header row) μ
    rwa [Assignment.mem_join_singleton] at hfound
  rw [Assignment.mem_join_singleton]
  constructor
  · rintro ⟨s', ⟨row, hmem, hs'⟩, heq⟩
    obtain ⟨β, hβ, h⟩ := (hrow row).mp ⟨s', hs', heq⟩
    exact ⟨β, ⟨row, hmem, hβ⟩, h⟩
  · rintro ⟨β, ⟨row, hmem, hβ⟩, h⟩
    obtain ⟨s', hs', heq⟩ := (hrow row).mpr ⟨β, hβ, h⟩
    exact ⟨s', ⟨row, hmem, hs'⟩, heq⟩

/-! ### Joins and left joins -/

lemma assignments_eq_matched {p : Pattern} {found : List Solution}
    (h : p.evaluate g s = .ok found) : assignments found = matched g p s := by
  ext μ
  simp only [assignments, matched, Set.mem_ofPred_eq, mem_evaluate_iff h]

/-- If the right side joins each match of the left side to some assignments, then so does the whole
pattern. -/
lemma matched_join {left right : Pattern} {B : Set Assignment}
    (hright : ∀ m, left.Matches g s m → matched g right m = Assignment.join {m.get?} B) :
    matched g (.join left right) s = Assignment.join (matched g left s) B :=
  reached_comp hright

lemma matched_leftJoin {left right : Pattern} {B : Set Assignment}
    (hright : ∀ m, left.Matches g s m → matched g right m = Assignment.join {m.get?} B) :
    matched g (.leftJoin left right none) s = Assignment.leftJoin (matched g left s) B := by
  have hjoin : ∀ μ, μ ∈ Assignment.join (matched g left s) B ↔
      ∃ m s', left.Matches g s m ∧ right.Matches g m s' ∧ s'.get? = μ := by
    intro μ
    rw [← matched_join hright]
    constructor
    · rintro ⟨s', ⟨m, hm, hs'⟩, heq⟩
      exact ⟨m, s', hm, hs', heq⟩
    · rintro ⟨m, s', hm, hs', heq⟩
      exact ⟨s', ⟨m, hm, hs'⟩, heq⟩
  have hunmatched : ∀ m, left.Matches g s m →
      ((∀ m', ¬ right.Matches g m m') ↔ ∀ β ∈ B, ¬ Compatible m.get? β) := by
    intro m hm
    constructor
    · intro hnone β hβ hcompatible
      have hmem : Assignment.or m.get? β ∈ matched g right m := by
        rw [hright m hm, Assignment.mem_join_singleton]
        exact ⟨β, hβ, hcompatible, rfl⟩
      obtain ⟨m', hm', -⟩ := hmem
      exact hnone m' hm'
    · intro hnone m' hm'
      have hmem : m'.get? ∈ matched g right m := ⟨m', hm', rfl⟩
      rw [hright m hm, Assignment.mem_join_singleton] at hmem
      obtain ⟨β, hβ, hcompatible, -⟩ := hmem
      exact hnone β hβ hcompatible
  ext μ
  constructor
  · rintro ⟨s', ⟨m, hm, hs' | ⟨rfl, hnone⟩⟩, rfl⟩
    · exact .inl ((hjoin _).mpr ⟨m, s', hm, hs', rfl⟩)
    · exact .inr ⟨⟨_, hm, rfl⟩, (hunmatched _ hm).mp hnone⟩
  · rintro (h | ⟨⟨m, hm, rfl⟩, hnone⟩)
    · obtain ⟨m, s', hm, hs', rfl⟩ := (hjoin μ).mp h
      exact ⟨s', ⟨m, hm, .inl hs'⟩, rfl⟩
    · exact ⟨m, ⟨m, hm, .inr ⟨rfl, (hunmatched m hm).mpr hnone⟩⟩, rfl⟩

end

section

variable {g : Graph} {p : Pattern} {μ : Assignment} {v : Variable}

lemma mem_mentioned_of_mem_meaning (h : μ ∈ p.meaning g) (hv : μ v ≠ none) :
    v ∈ p.mentioned := by
  induction p generalizing μ with
  | bgp triples => exact h.2 v hv
  | path subject p object => exact h.2 v hv
  | join left right ihl ihr =>
    obtain ⟨α, hα, β, hβ, -, rfl⟩ := h
    apply List.mem_append.mpr
    exact (Assignment.or_ne_none.mp hv).imp (ihl hα) (ihr hβ)
  | leftJoin left right condition ihl ihr =>
    cases condition with
    | some c => exact h.elim
    | none =>
      apply List.mem_append.mpr
      rcases h with ⟨α, hα, β, hβ, -, rfl⟩ | ⟨hleft, -⟩
      · exact (Assignment.or_ne_none.mp hv).imp (ihl hα) (ihr hβ)
      · exact .inl (ihl hleft hv)
  | values header rows =>
    obtain ⟨row, -, hrow⟩ := h
    obtain ⟨t, ht⟩ := Option.ne_none_iff_exists'.mp hv
    exact (List.of_mem_zip ((hrow v t).mp ht)).1
  | project | distinct | union | minus | filter | slice | reduced => exact h.elim

lemma exists_mem_zip {header : List Variable} {rows : List (List (Option Term))}
    (hv : v ∈ definedColumns header rows) {row : List (Option Term)} (hrow : row ∈ rows) :
    ∃ t, (v, some t) ∈ header.zip row := by
  obtain ⟨⟨w, i⟩, hmem, rfl⟩ := List.mem_map.mp hv
  obtain ⟨hcolumn, hdefined⟩ := List.mem_filter.mp hmem
  have hcell := List.all_eq_true.mp hdefined row hrow
  obtain ⟨t, ht⟩ := Option.isSome_iff_exists.mp hcell
  refine ⟨t, List.mem_iff_getElem?.mpr ⟨i, ?_⟩⟩
  rw [List.getElem?_zip_eq_some]
  exact ⟨List.mem_zipIdx_iff_getElem?.mp hcolumn, by simpa [Option.join_eq_some_iff] using ht⟩

/-- Every solution binds the variables that are certain. -/
lemma binds_certain (h : μ ∈ p.meaning g) (hv : v ∈ p.certain) : μ v ≠ none := by
  induction p generalizing μ with
  | bgp triples =>
    obtain ⟨t, ht, hv⟩ := List.mem_flatMap.mp hv
    exact (h.1 t ht).binds hv
  | path subject p object =>
    obtain ⟨⟨a, b, -, hsubject, hobject⟩, -⟩ := h
    rcases List.mem_append.mp hv with hv | hv
    · exact PatternTerm.binds hsubject hv
    · exact PatternTerm.binds hobject hv
  | join left right ihl ihr =>
    obtain ⟨α, hα, β, hβ, -, rfl⟩ := h
    rw [Assignment.or_ne_none]
    exact (List.mem_append.mp hv).imp (ihl hα) (ihr hβ)
  | leftJoin left right condition ihl ihr =>
    cases condition with
    | some c => exact h.elim
    | none =>
      rcases h with ⟨α, hα, β, hβ, -, rfl⟩ | ⟨hleft, -⟩
      · exact Assignment.or_ne_none.mpr (.inl (ihl hα hv))
      · exact ihl hleft hv
  | values header rows =>
    obtain ⟨row, hmem, hrow⟩ := h
    obtain ⟨t, ht⟩ := exists_mem_zip hv hmem
    simp [(hrow v t).mpr ht]
  | project | distinct | union | minus | filter | slice | reduced => exact h.elim

/-- The right side of a left join is compatible with a solution of the left side as soon as it is
with what this adds to a solution in which the variables of the right side are certain. -/
lemma compatible_or_iff {left right : Pattern} {σ α β : Assignment}
    (hα : α ∈ left.meaning g) (hβ : β ∈ right.meaning g) (hσ : Compatible σ α)
    (hcertain : ∀ v ∈ right.mentioned, σ v ≠ none → v ∈ left.certain) :
    Compatible (σ.or α) β ↔ Compatible α β := by
  refine ⟨fun h => h.mono hσ.below_right (.refl β), fun h => ?_⟩
  intro v t u ht hu
  cases hv : σ v with
  | none => exact h v t u (by rwa [Assignment.or_of_none hv] at ht) hu
  | some w =>
    have hright : v ∈ right.mentioned := mem_mentioned_of_mem_meaning hβ (by simp [hu])
    have hbound : α v ≠ none := binds_certain hα (hcertain v hright (by simp [hv]))
    obtain ⟨x, hx⟩ := Option.ne_none_iff_exists'.mp hbound
    have hsame := hσ.below_right v x hx
    rw [ht] at hsame
    exact h v t u (hx.trans hsame.symm) hu

/-- What the left side of a join binds counts as outside of the right side. -/
lemma mem_outside {s s' : Solution} {vs outside : List Variable} (h : ExtendsBy vs s s')
    (hs : ∀ v, s.get? v ≠ none → v ∈ outside) (v : Variable) (hv : s'.get? v ≠ none) :
    v ∈ vs ++ outside := by
  obtain ⟨t, ht⟩ := Option.ne_none_iff_exists'.mp hv
  rcases h.2 v t ht with ht | hv
  · exact List.mem_append_right _ (hs v (by simp [ht]))
  · exact List.mem_append_left _ hv

/-- From any solution whose variables count as occurring outside of the pattern, evaluation finds
what joins the solution to a solution of the pattern. -/
theorem matched_eq_join (hg : g.FullyIndexed) (hp : p.isRelational) {outside : List Variable}
    (hwd : p.WellDesigned certain outside) {s : Solution}
    (hs : ∀ v, s.get? v ≠ none → v ∈ outside) :
    matched g p s = Assignment.join {s.get?} (p.meaning g) := by
  induction p generalizing s outside with
  | bgp triples => exact matched_bgp hg triples
  | path subject p object => exact matched_path hg hp subject object
  | values header rows => exact matched_values header rows
  | join left right ihl ihr =>
    obtain ⟨hpleft, hpright⟩ := Bool.and_eq_true_iff.mp hp
    have hright : ∀ m, left.Matches g s m →
        matched g right m = Assignment.join {m.get?} (right.meaning g) :=
      fun m hm => ihr hpright hwd.2 (mem_outside hm.extendsBy hs)
    rw [matched_join hright, ihl hpleft hwd.1 fun v hv => List.mem_append_right _ (hs v hv),
      Assignment.join_assoc]
    rfl
  | leftJoin left right condition ihl ihr =>
    cases condition with
    | some c => cases hp
    | none =>
      obtain ⟨hpleft, hpright⟩ := Bool.and_eq_true_iff.mp hp
      obtain ⟨hcertain, hwdleft, hwdright⟩ := hwd
      have hright : ∀ m, left.Matches g s m →
          matched g right m = Assignment.join {m.get?} (right.meaning g) :=
        fun m hm => ihr hpright hwdright (mem_outside hm.extendsBy hs)
      rw [matched_leftJoin hright,
        ihl hpleft hwdleft fun v hv => List.mem_append_right _ (hs v hv)]
      apply Assignment.leftJoin_join
      intro α hα hσ β hβ
      exact compatible_or_iff hα hβ hσ fun v hv hsv => hcertain v hv (hs v hsv)
  | project | distinct | union | minus | filter | slice | reduced => cases hp

lemma isSupported_of_isRelational (hp : p.isRelational) : p.isSupported := by
  induction p with
  | bgp | path | values => rfl
  | join left right ihl ihr =>
    obtain ⟨hleft, hright⟩ := Bool.and_eq_true_iff.mp hp
    exact Bool.and_eq_true_iff.mpr ⟨ihl hleft, ihr hright⟩
  | leftJoin left right condition ihl ihr =>
    cases condition with
    | some c => cases hp
    | none =>
      obtain ⟨hleft, hright⟩ := Bool.and_eq_true_iff.mp hp
      exact Bool.and_eq_true_iff.mpr ⟨ihl hleft, ihr hright⟩
  | project | distinct | union | minus | filter | slice | reduced => cases hp

/-- Evaluation finds exactly the solutions of a well-designed pattern. More generally it joins them
to the solution that it starts from, if the variables of this solution may count as occurring
outside of the pattern: of those in the right side of a left join, it binds only ones that the left
side binds itself. -/
theorem evaluate_eq_meaning (hg : g.FullyIndexed) (hp : p.isRelational)
    (hwd : p.WellDesigned certain []) :
    (∃ found, p.evaluate g [] = .ok found ∧ assignments found = p.meaning g) ∧
    ∀ s : Solution, p.WellDesigned certain s.domain →
      ∃ found, p.evaluate g s = .ok found ∧
        assignments found = Assignment.join {s.get?} (p.meaning g) := by
  have hjoin : ∀ s : Solution, p.WellDesigned certain s.domain →
      ∃ found, p.evaluate g s = .ok found ∧
        assignments found = Assignment.join {s.get?} (p.meaning g) := by
    intro s hwd
    obtain ⟨found, hfound⟩ := exists_evaluate (isSupported_of_isRelational hp) g s
    refine ⟨found, hfound, ?_⟩
    rw [← matched_eq_join hg hp hwd]
    · ext μ
      simp only [assignments, matched, Set.mem_ofPred_eq, mem_evaluate_iff hfound]
    · exact fun v hv => Solution.mem_domain hv
  obtain ⟨found, hfound, heq⟩ := hjoin [] hwd
  exact ⟨⟨found, hfound, heq.trans join_empty⟩, hjoin⟩

end

section

/-- Who knows whom, and the names of some of them. -/
def acquaintances : Graph :=
  ⟨[⟨.iri ⟨"ex:a"⟩, ⟨"ex:knows"⟩, .iri ⟨"ex:b"⟩⟩, ⟨.iri ⟨"ex:b"⟩, ⟨"ex:knows"⟩, .iri ⟨"ex:c"⟩⟩,
    ⟨.iri ⟨"ex:c"⟩, ⟨"ex:name"⟩, .literal (.simple "C")⟩], by decide⟩

/-- Asks for whom some nodes know, however indirectly, with their names and mail addresses. -/
def reachableNames : Pattern :=
  .leftJoin
    (.join (.values [⟨"x"⟩, ⟨"k"⟩] [[some (.iri ⟨"ex:a"⟩), none],
        [some (.iri ⟨"ex:b"⟩), some (.literal (.simple "1"))]])
      (.path (.variable ⟨"x"⟩) (.oneOrMore (.link ⟨"ex:knows"⟩)) (.variable ⟨"y"⟩)))
    (.leftJoin (.bgp [⟨.variable ⟨"y"⟩, .constant (.iri ⟨"ex:name"⟩), .variable ⟨"n"⟩⟩])
      (.bgp [⟨.variable ⟨"y"⟩, .constant (.iri ⟨"ex:mail"⟩), .variable ⟨"m"⟩⟩]) none) none

/-- Nested left joins over a path and a table with an undefined cell, from the empty solution and
from one that binds an end of the path. -/
theorem evaluate_eq_meaning_nested :
    (∃ found, reachableNames.evaluate acquaintances [] = .ok found ∧ found.length = 3 ∧
      assignments found = reachableNames.meaning acquaintances) ∧
    ∃ found, reachableNames.evaluate acquaintances [(⟨"y"⟩, .iri ⟨"ex:c"⟩)] = .ok found ∧
      found.length = 2 ∧
      assignments found = Assignment.join {Solution.get? [(⟨"y"⟩, .iri ⟨"ex:c"⟩)]}
        (reachableNames.meaning acquaintances) := by
  obtain ⟨⟨found, hfound, heq⟩, hjoin⟩ := evaluate_eq_meaning (g := acquaintances)
    (p := reachableNames) (by decide) rfl (by decide)
  obtain ⟨found', hfound', heq'⟩ := hjoin [(⟨"y"⟩, .iri ⟨"ex:c"⟩)] (by decide)
  refine ⟨⟨found, hfound, ?_, heq⟩, found', hfound', ?_, heq'⟩
  · cases hfound
    rfl
  · cases hfound'
    rfl

/-- The last blank node with two values. -/
def lastNode : Graph :=
  ⟨[⟨.blank .last, ⟨"ex:p"⟩, .literal (.simple "x")⟩,
    ⟨.blank .last, ⟨"ex:q"⟩, .literal (.simple "y")⟩], by decide⟩

/-- Asks for a node with two values. -/
def twoValues : Pattern :=
  .bgp [⟨.variable ⟨"a"⟩, .constant (.iri ⟨"ex:p"⟩), .variable ⟨"b"⟩⟩,
    ⟨.variable ⟨"a"⟩, .constant (.iri ⟨"ex:q"⟩), .variable ⟨"c"⟩⟩]

/-- A solution with the last blank node is not found. -/
theorem last_node_not_found :
    twoValues.isRelational ∧ twoValues.WellDesigned certain [] ∧
      twoValues.evaluate lastNode [] = .ok [] ∧
      Solution.get? [(⟨"a"⟩, .blank .last), (⟨"b"⟩, .literal (.simple "x")),
        (⟨"c"⟩, .literal (.simple "y"))] ∈ twoValues.meaning lastNode := by
  refine ⟨rfl, by decide, rfl, ?_, ?_⟩
  · intro p hp
    rcases List.mem_cons.mp hp with rfl | hp
    · exact ⟨_, List.mem_cons_self, rfl, rfl, rfl⟩
    · rw [List.mem_singleton.mp hp]
      exact ⟨_, List.mem_cons_of_mem _ List.mem_cons_self, rfl, rfl, rfl⟩
  · have hvars : ∀ v ∈ ([⟨"a"⟩, ⟨"b"⟩, ⟨"c"⟩] : List Variable), v ∈ twoValues.mentioned := by decide
    exact fun v hv => hvars v (Solution.mem_domain hv)

end

end Pattern

end Exemplar
