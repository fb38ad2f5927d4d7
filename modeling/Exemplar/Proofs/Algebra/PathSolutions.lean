import Exemplar.Proofs.Algebra.BottomUp
import Exemplar.Proofs.Algebra.Rounds

/-!
# Solutions of a path

The solutions that a path has between two positions, stated by the terms that it connects. They are
the same whether an end of the path is known beforehand or is found on the way, and each of them is
listed once, as long as the pairs of terms are.
-/

namespace Exemplar

namespace Path

variable {g : Graph} {p : Path} {a b : Term}

/-- Whether an assignment extends a solution by terms for the ends of a path, which it connects. A
path neither of whose ends is known starts at a term of the graph. -/
def Matched (g : Graph) (p : Path) (subject object : PatternTerm) (s : Solution)
    (μ : Assignment) : Prop :=
  Below s.get? μ ∧ (∀ v t, μ v = some t → s.get? v = some t ∨ v ∈ subject.vars ++ object.vars) ∧
    ∃ a b, subject.value μ = some a ∧ object.value μ = some b ∧ p.Connects g a b ∧
      (s.resolve? subject = none → s.resolve? object = none → a ∈ g.terms)

/-- Whether no two triples that a path follows have the same ends. Only a path that excludes some
predicates follows triples with different ones at once. -/
def Unrepeated (g : Graph) : Path → Prop
  | negated excluded => ∀ t ∈ g.triples, ∀ u ∈ g.triples, t.predicate ∉ excluded →
      u.predicate ∉ excluded → t.subject = u.subject → t.object = u.object → t = u
  | _ => True

/-! ### Pairs -/

lemma nodup_startingAnywhere : (g.terms.flatMap
    fun start => (p.reach g .forward start).map (start, ·)).Nodup := by
  refine List.nodup_flatMap.mpr ⟨fun start _ => ?_, ?_⟩
  · exact (nodup_reach p .forward start).map fun _ _ h => (Prod.mk.inj h).2
  · refine (nodup_eraseDups _).imp fun hne => ?_
    rintro ⟨a, b⟩ h h'
    obtain ⟨_, -, heq⟩ := List.mem_map.mp h
    obtain ⟨_, -, heq'⟩ := List.mem_map.mp h'
    exact hne ((Prod.mk.inj heq).1.trans (Prod.mk.inj heq').1.symm)

/-- The ends of triples are listed once if and only if no two triples share theirs. -/
lemma nodup_ends_iff {accepted : Iri → Bool} :
    (g.ends accepted).Nodup ↔ ∀ t ∈ g.triples, ∀ u ∈ g.triples, accepted t.predicate →
      accepted u.predicate → t.subject = u.subject → t.object = u.object → t = u := by
  constructor
  · intro hnodup t ht u hu haccepted haccepted' hsubject hobject
    refine eq_of_nodup_filterMap hnodup ht hu (if_pos haccepted) ?_
    rw [if_pos haccepted', hsubject, hobject]
  · intro h
    refine List.pairwise_filterMap.mpr (g.nodup.imp_of_mem ?_)
    rintro t u ht hu hne pair hpair pair' hpair' rfl
    obtain ⟨haccepted, heq⟩ := Option.ite_none_right_eq_some.mp hpair
    obtain ⟨haccepted', heq'⟩ := Option.ite_none_right_eq_some.mp hpair'
    obtain ⟨hsubject, hobject⟩ := Prod.mk.inj (Option.some.inj (heq.trans heq'.symm))
    exact hne (h t ht u hu haccepted haccepted' (Term.node.inj hsubject) hobject)

/-- All pairs are listed once if and only if no two triples repeat one. -/
lemma nodup_pairs_iff : (p.pairs g).Nodup ↔ p.Unrepeated g := by
  cases p with
  | link predicate =>
    rw [pairs, nodup_ends_iff]
    refine iff_of_true (fun t _ u _ ht hu hsubject hobject => ?_) trivial
    have hpredicate := (of_decide_eq_true ht).trans (of_decide_eq_true hu).symm
    exact Triple.eq_of_eq hsubject hpredicate hobject
  | negated excluded =>
    rw [pairs, nodup_ends_iff]
    simp only [decide_eq_true_eq]
    rfl
  | _ => exact iff_of_true nodup_startingAnywhere trivial

lemma nodup_pairsBetween {start stop : Option Term}
    (h : start = none → stop = none → p.Unrepeated g) :
    (p.pairsBetween g start stop).Nodup := by
  cases start with
  | none =>
    cases stop with
    | none => exact nodup_pairs_iff.mpr (h rfl rfl)
    | some stop => exact (nodup_reach p .backward stop).map fun _ _ h => (Prod.mk.inj h).1
  | some start =>
    cases stop with
    | none => exact (nodup_reach p .forward start).map fun _ _ h => (Prod.mk.inj h).2
    | some stop =>
      simp only [pairsBetween]
      split
      · exact List.nodup_singleton _
      · exact List.nodup_nil

/-! ### Solutions -/

variable {subject object : PatternTerm} {s s' : Solution} {μ : Assignment}

/-- The solutions of a path are the matching assignments. -/
lemma mem_assignments_solutions (hg : g.FullyIndexed) :
    μ ∈ assignments (p.solutions g subject object s) ↔ p.Matched g subject object s μ := by
  constructor
  · rintro ⟨s', hs', rfl⟩
    obtain ⟨⟨a, b⟩, hpair, h⟩ := List.mem_filterMap.mp hs'
    obtain ⟨hext, hsubject, hobject⟩ := Solution.unify?_pair_spec h
    obtain ⟨hconnects, -, -, hterms⟩ := (mem_pairsBetween_iff hg).mp hpair
    exact ⟨hext.1, hext.2, a, b, hsubject, hobject, hconnects, hterms⟩
  · rintro ⟨hbelow, hvars, a, b, hsubject, hobject, hconnects, hterms⟩
    have hpair := (mem_pairsBetween_iff hg).mpr ⟨hconnects,
      fun t ht => (Solution.eq_of_resolve? hbelow hsubject ht).symm,
      fun t ht => (Solution.eq_of_resolve? hbelow hobject ht).symm, hterms⟩
    obtain ⟨s', hunify, hbelow'⟩ := Solution.exists_unify?_pair hbelow hsubject hobject
    obtain ⟨hext, hsubject', hobject'⟩ := Solution.unify?_pair_spec hunify
    refine ⟨s', List.mem_filterMap.mpr ⟨_, hpair, hunify⟩, funext fun v => ?_⟩
    cases hμ : μ v with
    | none => exact hbelow'.eq_none hμ
    | some t =>
      -- a variable of an end is bound, and only to what it has above
      have hbound : v ∈ subject.vars ++ object.vars → s'.get? v = some t := by
        intro hv
        have hsome : s'.get? v ≠ none := by
          rcases List.mem_append.mp hv with hv | hv
          · exact PatternTerm.binds hsubject' hv
          · exact PatternTerm.binds hobject' hv
        obtain ⟨u, hu⟩ := Option.ne_none_iff_exists'.mp hsome
        rwa [← Option.some.inj ((hbelow' v u hu).symm.trans hμ)]
      exact (hvars v t hμ).elim (hext.1 v t) hbound

/-- Solutions with the same terms for the ends are the same, so no pair gives one twice. -/
lemma nodup_solutions (h : s.resolve? subject = none → s.resolve? object = none →
    p.Unrepeated g) : ((p.solutions g subject object s).map Solution.get?).Nodup := by
  rw [solutions, List.map_filterMap]
  refine (nodup_pairsBetween h).filterMap ?_
  rintro ⟨a, b⟩ ⟨a', b'⟩ μ hμ hμ'
  obtain ⟨s', hs', rfl⟩ := Option.map_eq_some_iff.mp hμ
  obtain ⟨s'', hs'', heq⟩ := Option.map_eq_some_iff.mp hμ'
  obtain ⟨-, hsubject, hobject⟩ := Solution.unify?_pair_spec hs'
  obtain ⟨-, hsubject', hobject'⟩ := Solution.unify?_pair_spec hs''
  rw [heq] at hsubject' hobject'
  obtain rfl := Option.some.inj (hsubject.symm.trans hsubject')
  obtain rfl := Option.some.inj (hobject.symm.trans hobject')
  rfl

/-! ### Known ends -/

section

variable {v : Variable} {t : Term}

lemma resolve?_eq_none_of_cons {q : PatternTerm}
    (h : Solution.resolve? ((v, t) :: s) q = none) : s.resolve? q = none := by
  match q with
  | .variable w =>
    rw [Solution.resolve?, Solution.get?_cons] at h
    split at h
    · cases h
    · exact h
  | .constant c => cases h

lemma get?_cons_of_some {w : Variable} {u : Term} (hfree : s.get? v = none)
    (hw : s.get? w = some u) : Solution.get? ((v, t) :: s) w = some u := by
  have hne : w ≠ v := fun heq => by rw [heq, hfree] at hw; cases hw
  rwa [Solution.get?_cons, if_neg hne]

lemma below_cons_iff (hfree : s.get? v = none) :
    Below (Solution.get? ((v, t) :: s)) μ ↔ Below s.get? μ ∧ μ v = some t := by
  constructor
  · intro h
    refine ⟨fun w u hw => h w u (get?_cons_of_some hfree hw), h v t ?_⟩
    rw [Solution.get?_cons, if_pos rfl]
  · rintro ⟨h, hμ⟩ w u hw
    rw [Solution.get?_cons] at hw
    split at hw
    · next heq => rw [heq, hμ, hw]
    · exact h w u hw

/-- If an end of a path is a term of the graph, then so is its start. -/
lemma start_mem_terms_of_end (hv : v ∈ subject.vars ++ object.vars) (hμ : μ v = some t)
    (ht : t ∈ g.terms) (hsubject : subject.value μ = some a) (hobject : object.value μ = some b)
    (h : p.Connects g a b) : a ∈ g.terms := by
  have hend : ∀ {q : PatternTerm} {u : Term}, v ∈ q.vars → q.value μ = some u → u ∈ g.terms := by
    intro q u hmem hu
    match q with
    | .variable w =>
      obtain rfl := List.mem_singleton.mp hmem
      rwa [← Option.some.inj (hμ.symm.trans hu)]
    | .constant c => cases hmem
  rcases List.mem_append.mp hv with hmem | hmem
  · exact hend hmem hsubject
  · have hb := hend hmem hobject
    exact h.mem_terms.elim (fun heq => heq ▸ hb) And.left

/-- A match from a solution that knows an end is a match that has this end. -/
lemma matched_cons_iff (hv : v ∈ subject.vars ++ object.vars) (hfree : s.get? v = none)
    (ht : t ∈ g.terms) :
    p.Matched g subject object ((v, t) :: s) μ ↔
      p.Matched g subject object s μ ∧ μ v = some t := by
  constructor
  · rintro ⟨h, hvars, a, b, hsubject, hobject, hconnects, -⟩
    obtain ⟨h, hμ⟩ := (below_cons_iff hfree).mp h
    refine ⟨⟨h, fun w u hw => ?_, a, b, hsubject, hobject, hconnects, fun _ _ => ?_⟩, hμ⟩
    · rcases hvars w u hw with hbound | hmem
      · rw [Solution.get?_cons] at hbound
        split at hbound
        · next heq => exact .inr (heq ▸ hv)
        · exact .inl hbound
      · exact .inr hmem
    · exact start_mem_terms_of_end hv hμ ht hsubject hobject hconnects
  · rintro ⟨⟨h, hvars, a, b, hsubject, hobject, hconnects, hterms⟩, hμ⟩
    refine ⟨(below_cons_iff hfree).mpr ⟨h, hμ⟩, fun w u hw => ?_, a, b, hsubject, hobject,
      hconnects, fun hs ho => hterms (resolve?_eq_none_of_cons hs) (resolve?_eq_none_of_cons ho)⟩
    exact (hvars w u hw).imp_left (get?_cons_of_some hfree)

/-- To know an end of a path beforehand is to keep the solutions that have this end. -/
lemma solutions_cons_perm (hg : g.FullyIndexed) (hv : v ∈ subject.vars ++ object.vars)
    (hfree : s.get? v = none) (ht : t ∈ g.terms)
    (h : s.resolve? subject = none → s.resolve? object = none → p.Unrepeated g) :
    ((p.solutions g subject object ((v, t) :: s)).map Solution.get?).Perm
      (((p.solutions g subject object s).filter (·.get? v = some t)).map Solution.get?) := by
  have hkept : ∀ μ, μ ∈ ((p.solutions g subject object s).filter (·.get? v = some t)).map
      Solution.get? ↔ μ ∈ assignments (p.solutions g subject object s) ∧ μ v = some t := by
    intro μ
    simp only [List.mem_map, List.mem_filter, decide_eq_true_eq]
    constructor
    · rintro ⟨s', ⟨hs', ht⟩, rfl⟩
      exact ⟨⟨s', hs', rfl⟩, ht⟩
    · rintro ⟨⟨s', hs', rfl⟩, ht⟩
      exact ⟨s', ⟨hs', ht⟩, rfl⟩
  refine (List.perm_ext_iff_of_nodup (nodup_solutions ?_) ?_).mpr fun μ => ?_
  · exact fun hs ho => h (resolve?_eq_none_of_cons hs) (resolve?_eq_none_of_cons ho)
  · exact (nodup_solutions h).sublist (List.filter_sublist.map _)
  · rw [hkept, mem_assignments_solutions hg, ← matched_cons_iff hv hfree ht,
      ← mem_assignments_solutions hg]
    exact List.mem_map

end

/-- The pairs that a path connects are those of a term of the graph and a term that is reached from
it. They are listed once, unless the path excludes predicates and two triples with others have the
same ends. The solutions are then listed once too, whichever ends are known, and to know an end
beforehand is to keep the solutions that have this end. -/
theorem solutions_exact {g : Graph} (hg : g.FullyIndexed) (p : Path) :
    (∀ a b, (a, b) ∈ p.pairs g ↔ a ∈ g.terms ∧ b ∈ p.reach g .forward a) ∧
      ((p.pairs g).Nodup ↔ p.Unrepeated g) ∧
      ∀ subject object s,
        (∀ μ, μ ∈ assignments (p.solutions g subject object s) ↔
          p.Matched g subject object s μ) ∧
        ((s.resolve? subject = none → s.resolve? object = none → p.Unrepeated g) →
          ((p.solutions g subject object s).map Solution.get?).Nodup ∧
          ∀ v ∈ subject.vars ++ object.vars, s.get? v = none → ∀ t ∈ g.terms,
            ((p.solutions g subject object ((v, t) :: s)).map Solution.get?).Perm
              (((p.solutions g subject object s).filter (·.get? v = some t)).map
                Solution.get?)) := by
  refine ⟨fun a b => ?_, nodup_pairs_iff, fun subject object s =>
    ⟨fun μ => mem_assignments_solutions hg, fun h => ⟨nodup_solutions h, ?_⟩⟩⟩
  · rw [mem_pairs_iff hg, mem_reach hg]
    rfl
  · exact fun v hv hfree t ht => solutions_cons_perm hg hv hfree ht h

/-- Two triples with the same ends. -/
def parallel : Graph :=
  ⟨[⟨.iri ⟨"ex:a"⟩, ⟨"ex:p"⟩, .iri ⟨"ex:b"⟩⟩, ⟨.iri ⟨"ex:a"⟩, ⟨"ex:q"⟩, .iri ⟨"ex:b"⟩⟩],
    by decide⟩

/-- The solutions of a path around a ring, and the one solution of a path that excludes nothing
from a node on. -/
theorem solutions_exact_ring :
    (∃ found, (zeroOrMore (link ⟨"ex:next"⟩)).solutions ring (.variable ⟨"x"⟩) (.variable ⟨"y"⟩)
        [] = found ∧ found.length = 10 ∧ (found.map Solution.get?).Nodup ∧
      (((zeroOrMore (link ⟨"ex:next"⟩)).solutions ring (.variable ⟨"x"⟩) (.variable ⟨"y"⟩)
        [(⟨"y"⟩, .iri ⟨"ex:b"⟩)]).map Solution.get?).Perm
        ((found.filter (·.get? ⟨"y"⟩ = some (.iri ⟨"ex:b"⟩))).map Solution.get?)) ∧
      ∀ μ, μ ∈ assignments [[(⟨"y"⟩, .iri ⟨"ex:b"⟩), (⟨"x"⟩, .iri ⟨"ex:a"⟩)]] ↔
        (negated []).Matched parallel (.variable ⟨"x"⟩) (.variable ⟨"y"⟩)
          [(⟨"x"⟩, .iri ⟨"ex:a"⟩)] μ := by
  obtain ⟨-, -, hring⟩ := solutions_exact (g := ring) (by decide) (zeroOrMore (link ⟨"ex:next"⟩))
  obtain ⟨hnodup, hperm⟩ :=
    (hring (.variable ⟨"x"⟩) (.variable ⟨"y"⟩) []).2 fun _ _ => trivial
  obtain ⟨-, -, hparallel⟩ := solutions_exact (g := parallel) (by decide) (negated [])
  refine ⟨⟨_, rfl, by decide, hnodup, ?_⟩, ?_⟩
  · exact hperm ⟨"y"⟩ (by decide) rfl (.iri ⟨"ex:b"⟩) (by decide)
  · exact (hparallel (.variable ⟨"x"⟩) (.variable ⟨"y"⟩) [(⟨"x"⟩, .iri ⟨"ex:a"⟩)]).1

/-- A path that excludes nothing lists the ends of two triples twice where none of them is known,
and once where one is. -/
theorem parallel_listed_twice :
    (negated []).pairs parallel =
        [(.iri ⟨"ex:a"⟩, .iri ⟨"ex:b"⟩), (.iri ⟨"ex:a"⟩, .iri ⟨"ex:b"⟩)] ∧
      ((negated []).solutions parallel (.variable ⟨"x"⟩) (.variable ⟨"y"⟩) []).length = 2 ∧
      ((negated []).solutions parallel (.variable ⟨"x"⟩) (.variable ⟨"y"⟩)
        [(⟨"x"⟩, .iri ⟨"ex:a"⟩)]).length = 1 :=
  ⟨by decide, by decide, by decide⟩

end Path

end Exemplar
