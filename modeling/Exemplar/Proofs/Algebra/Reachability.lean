import Exemplar.Proofs.Algebra.Meaning
import Mathlib.Logic.Relation

/-!
# Reachability

Which terms a path connects, stated by the triples of the graph, and that following a path in
either direction finds exactly these. The rounds in which a repeated path is followed suffice, as
each of them finds a term of the graph that was not known before.
-/

namespace Exemplar

/-- Whether a path leads from one term to another. -/
def Path.Connects (g : Graph) : Path → Term → Term → Prop
  | link predicate, a, b =>
    ∃ t ∈ g.triples, a = .node t.subject ∧ predicate = t.predicate ∧ b = t.object
  | reverse p, a, b => p.Connects g b a
  | sequence p q, a, c => ∃ b, p.Connects g a b ∧ q.Connects g b c
  | alternative p q, a, b => p.Connects g a b ∨ q.Connects g a b
  | zeroOrMore p, a, b => Relation.ReflTransGen (p.Connects g) a b
  | oneOrMore p, a, b => Relation.TransGen (p.Connects g) a b
  | zeroOrOne p, a, b => b = a ∨ p.Connects g a b
  | negated excluded, a, b =>
    ∃ t ∈ g.triples, a = .node t.subject ∧ t.predicate ∉ excluded ∧ b = t.object

/-- Whether a path leads to a term when it is followed from another one in a direction. -/
def Path.Leads (g : Graph) (p : Path) : Direction → Term → Term → Prop
  | .forward, a, b => p.Connects g a b
  | .backward, a, b => p.Connects g b a

/-- A graph all of whose triples are found by their subjects and by their objects. -/
def Graph.FullyIndexed (g : Graph) : Prop :=
  g.Indexed ∧ ∀ t ∈ g.triples, Graph.isIndexed t.object

instance (g : Graph) : Decidable g.FullyIndexed :=
  inferInstanceAs (Decidable (g.Indexed ∧ ∀ t ∈ g.triples, Graph.isIndexed t.object))

/-! ### Rounds -/

section

variable {step : Term → List Term} {reached frontier : List Term} {rounds : Nat} {a b : Term}

/-- Whether steps lead from one term to another. -/
abbrev Steps (step : Term → List Term) : Term → Term → Prop :=
  Relation.ReflTransGen fun a b => b ∈ step a

/-- What a round finds. -/
def newlyReached (step : Term → List Term) (reached frontier : List Term) : List Term :=
  (frontier.flatMap step).eraseDups.filter fun t => t ∉ reached

lemma mem_newlyReached :
    b ∈ newlyReached step reached frontier ↔ (∃ a ∈ frontier, b ∈ step a) ∧ b ∉ reached := by
  simp [newlyReached, List.mem_eraseDups]

lemma saturate_succ : saturate step (rounds + 1) reached frontier =
    if newlyReached step reached frontier = [] then reached
    else saturate step rounds (reached ++ newlyReached step reached frontier)
      (newlyReached step reached frontier) := by
  have hfresh : ((frontier.flatMap step).eraseDups.filter fun t => t ∉ reached) =
      newlyReached step reached frontier := rfl
  rw [saturate, hfresh]
  cases newlyReached step reached frontier with
  | nil => rfl
  | cons b fresh => rfl

lemma mem_saturate_of_mem (h : a ∈ reached) : a ∈ saturate step rounds reached frontier := by
  induction rounds generalizing reached frontier with
  | zero => exact h
  | succ rounds ih =>
    rw [saturate_succ]
    split
    · exact h
    · exact ih (List.mem_append_left _ h)

/-- Nothing is found but what steps lead to. -/
lemma steps_of_mem_saturate (hfrontier : ∀ a ∈ frontier, a ∈ reached)
    (h : b ∈ saturate step rounds reached frontier) : ∃ a ∈ reached, Steps step a b := by
  induction rounds generalizing reached frontier with
  | zero => exact ⟨b, h, .refl⟩
  | succ rounds ih =>
    rw [saturate_succ] at h
    split at h
    · exact ⟨b, h, .refl⟩
    · obtain ⟨m, hm, hsteps⟩ := ih (fun a ha => List.mem_append_right _ ha) h
      rcases List.mem_append.mp hm with hm | hm
      · exact ⟨m, hm, hsteps⟩
      · obtain ⟨⟨a, ha, hstep⟩, -⟩ := mem_newlyReached.mp hm
        exact ⟨a, hfrontier a ha, .head hstep hsteps⟩

/-- What a round finds is no longer to be found. -/
lemma length_unreached_lt {terms : List Term} {c : Term} (hterms : c ∈ terms)
    (hc : c ∈ newlyReached step reached frontier) :
    (terms.filter (· ∉ reached ++ newlyReached step reached frontier)).length <
      (terms.filter (· ∉ reached)).length := by
  have hsplit : terms.filter (· ∉ reached ++ newlyReached step reached frontier) =
      (terms.filter (· ∉ reached)).filter (· ∉ newlyReached step reached frontier) := by
    rw [List.filter_filter]
    refine List.filter_congr fun x _ => ?_
    simp [not_or, Bool.and_comm]
  rw [hsplit, List.length_filter_lt_length_iff_exists]
  exact ⟨c, List.mem_filter.mpr ⟨hterms, by simpa using (mem_newlyReached.mp hc).2⟩,
    by simpa using hc⟩

/-- With as many rounds as there are terms to find, no step leads further. The terms that are
reached and not in the frontier have no neighbours that are not reached. -/
lemma saturate_closed {terms : List Term} (hstep : ∀ a, ∀ b ∈ step a, b = a ∨ b ∈ terms)
    (hfrontier : ∀ a ∈ frontier, a ∈ reached)
    (hdone : ∀ a ∈ reached, a ∉ frontier → ∀ b ∈ step a, b ∈ reached)
    (hrounds : (terms.filter (· ∉ reached)).length ≤ rounds)
    (ha : a ∈ saturate step rounds reached frontier) (hb : b ∈ step a) :
    b ∈ saturate step rounds reached frontier := by
  induction rounds generalizing reached frontier with
  | zero =>
    change b ∈ reached
    by_contra hnot
    have hmem : b ∈ terms.filter (· ∉ reached) := by
      rw [List.mem_filter]
      exact ⟨(hstep a b hb).resolve_left fun heq => hnot (heq ▸ ha), by simpa using hnot⟩
    rw [List.eq_nil_of_length_eq_zero (Nat.le_zero.mp hrounds)] at hmem
    cases hmem
  | succ rounds ih =>
    rw [saturate_succ] at ha ⊢
    split at ha
    · next hnone =>
      rw [if_pos hnone]
      by_contra hnot
      by_cases hmem : a ∈ frontier
      · have hfound := mem_newlyReached.mpr ⟨⟨a, hmem, hb⟩, hnot⟩
        rw [hnone] at hfound
        cases hfound
      · exact hnot (hdone a ha hmem b hb)
    · next hsome =>
      rw [if_neg hsome]
      refine ih (fun a ha => List.mem_append_right _ ha) (fun a ha hnot b hb => ?_) ?_ ha
      · have ha : a ∈ reached := (List.mem_append.mp ha).resolve_right hnot
        rw [List.mem_append, or_iff_not_imp_left]
        intro hreached
        refine mem_newlyReached.mpr ⟨⟨a, ?_, hb⟩, hreached⟩
        by_contra hmem
        exact hreached (hdone a ha hmem b hb)
      · obtain ⟨c, hc⟩ := List.exists_mem_of_ne_nil _ hsome
        obtain ⟨⟨a, ha, hac⟩, hnot⟩ := mem_newlyReached.mp hc
        have hterms : c ∈ terms :=
          (hstep a c hac).resolve_left fun heq => hnot (heq ▸ hfrontier a ha)
        have hlt := length_unreached_lt hterms hc
        omega

lemma steps_of_mem_closure {g : Graph} {start : List Term} (h : b ∈ g.closure step start) :
    ∃ a ∈ start, Steps step a b := by
  obtain ⟨a, ha, hsteps⟩ := steps_of_mem_saturate (fun _ ha => ha) h
  exact ⟨a, List.mem_eraseDups.mp ha, hsteps⟩

/-- Everything that steps lead to is found. -/
lemma mem_closure {g : Graph} {start : List Term}
    (hstep : ∀ a, ∀ b ∈ step a, b = a ∨ b ∈ g.terms) :
    b ∈ g.closure step start ↔ ∃ a ∈ start, Steps step a b := by
  refine ⟨steps_of_mem_closure, ?_⟩
  rintro ⟨a, ha, hsteps⟩
  induction hsteps with
  | refl => exact mem_saturate_of_mem (List.mem_eraseDups.mpr ha)
  | tail _ hb ih =>
    exact saturate_closed hstep (fun _ ha => ha) (fun a ha hnot => absurd ha hnot)
      (List.length_filter_le _ _) ih hb

end

/-! ### Paths -/

section

variable {g : Graph} {p q : Path} {d : Direction} {a b : Term}

lemma Graph.mem_terms :
    a ∈ g.terms ↔ ∃ t ∈ g.triples, a = .node t.subject ∨ a = t.object := by
  simp [Graph.terms, List.mem_eraseDups]

lemma Graph.mem_of_mem_about {t : Triple} (h : t ∈ g.about a) :
    t ∈ g.triples ∧ .node t.subject = a := by
  unfold about at h
  split at h
  · exact (List.mem_filter.mp h).imp id of_decide_eq_true
  · cases h

lemma Graph.mem_of_mem_mentioning {t : Triple} (h : t ∈ g.mentioning a) :
    t ∈ g.triples ∧ t.object = a := by
  unfold mentioning at h
  split at h
  · exact (List.mem_filter.mp h).imp id of_decide_eq_true
  · cases h

namespace Path

lemma leads_reverse : p.reverse.Leads g d a b ↔ p.Leads g d.flip a b := by
  cases d <;> rfl

lemma leads_alternative : (p.alternative q).Leads g d a b ↔ p.Leads g d a b ∨ q.Leads g d a b := by
  cases d <;> rfl

lemma leads_zeroOrMore :
    p.zeroOrMore.Leads g d a b ↔ Relation.ReflTransGen (p.Leads g d) a b := by
  cases d with
  | forward => rfl
  | backward => exact Relation.reflTransGen_swap.symm

lemma leads_oneOrMore : p.oneOrMore.Leads g d a b ↔ Relation.TransGen (p.Leads g d) a b := by
  cases d with
  | forward => rfl
  | backward => exact Relation.transGen_swap.symm

lemma leads_zeroOrOne : p.zeroOrOne.Leads g d a b ↔ b = a ∨ p.Leads g d a b := by
  cases d with
  | forward => rfl
  | backward => exact or_congr_left eq_comm

/-- The ends of a path are one term or terms of the graph. -/
lemma Connects.mem_terms (h : p.Connects g a b) : a = b ∨ a ∈ g.terms ∧ b ∈ g.terms := by
  have htrans : ∀ {a b c : Term}, (a = b ∨ a ∈ g.terms ∧ b ∈ g.terms) →
      (b = c ∨ b ∈ g.terms ∧ c ∈ g.terms) → a = c ∨ a ∈ g.terms ∧ c ∈ g.terms := by
    rintro a b c (rfl | ⟨ha, hb⟩) (rfl | ⟨hb', hc⟩)
    · exact .inl rfl
    · exact .inr ⟨hb', hc⟩
    · exact .inr ⟨ha, hb⟩
    · exact .inr ⟨ha, hc⟩
  induction p generalizing a b with
  | link predicate =>
    obtain ⟨t, ht, rfl, -, rfl⟩ := h
    exact .inr ⟨Graph.mem_terms.mpr ⟨t, ht, .inl rfl⟩, Graph.mem_terms.mpr ⟨t, ht, .inr rfl⟩⟩
  | reverse p ih => exact (ih h).imp Eq.symm And.symm
  | sequence p q ihp ihq =>
    obtain ⟨m, hp, hq⟩ := h
    exact htrans (ihp hp) (ihq hq)
  | alternative p q ihp ihq => exact h.elim ihp ihq
  | zeroOrMore p ih =>
    induction h with
    | refl => exact .inl rfl
    | tail _ hstep ihsteps => exact htrans ihsteps (ih hstep)
  | oneOrMore p ih =>
    induction h with
    | single hstep => exact ih hstep
    | tail _ hstep ihsteps => exact htrans ihsteps (ih hstep)
  | zeroOrOne p ih => exact h.elim (fun heq => .inl heq.symm) ih
  | negated excluded =>
    obtain ⟨t, ht, rfl, -, rfl⟩ := h
    exact .inr ⟨Graph.mem_terms.mpr ⟨t, ht, .inl rfl⟩, Graph.mem_terms.mpr ⟨t, ht, .inr rfl⟩⟩

lemma Leads.mem_terms (h : p.Leads g d a b) : b = a ∨ b ∈ g.terms := by
  cases d with
  | forward => exact (Connects.mem_terms h).imp Eq.symm And.right
  | backward => exact (Connects.mem_terms h).imp id And.left

/-- Only triples of the graph are followed. -/
lemma leads_of_mem_linked {predicate : Iri} (h : b ∈ linked g predicate d a) :
    (link predicate).Leads g d a b := by
  cases d with
  | forward => exact Graph.mem_objects.mp h
  | backward =>
    obtain ⟨t, ht, h⟩ := List.mem_filterMap.mp h
    obtain ⟨hpredicate, heq⟩ := Option.ite_none_right_eq_some.mp h
    cases heq
    obtain ⟨hmem, rfl⟩ := Graph.mem_of_mem_mentioning ht
    exact ⟨t, hmem, rfl, hpredicate.symm, rfl⟩

lemma leads_of_mem_linkedOtherwise {excluded : List Iri} (h : b ∈ linkedOtherwise g excluded d a) :
    (negated excluded).Leads g d a b := by
  cases d with
  | forward =>
    obtain ⟨t, ht, rfl⟩ := List.mem_map.mp h
    obtain ⟨ht, hpredicate⟩ := List.mem_filter.mp ht
    obtain ⟨hmem, rfl⟩ := Graph.mem_of_mem_about ht
    exact ⟨t, hmem, rfl, of_decide_eq_true hpredicate, rfl⟩
  | backward =>
    obtain ⟨t, ht, rfl⟩ := List.mem_map.mp h
    obtain ⟨ht, hpredicate⟩ := List.mem_filter.mp ht
    obtain ⟨hmem, rfl⟩ := Graph.mem_of_mem_mentioning ht
    exact ⟨t, hmem, rfl, of_decide_eq_true hpredicate, rfl⟩

/-- A single triple is found from either end. -/
lemma mem_linked_of_leads (hg : g.FullyIndexed) {predicate : Iri}
    (h : (link predicate).Leads g d a b) : b ∈ linked g predicate d a := by
  cases d with
  | forward => exact Graph.mem_objects.mpr h
  | backward =>
    obtain ⟨t, ht, rfl, rfl, rfl⟩ := h
    exact List.mem_filterMap.mpr ⟨t, by simp [Graph.mentioning, hg.2 t ht, ht], by simp⟩

lemma mem_linkedOtherwise_of_leads (hg : g.FullyIndexed) {excluded : List Iri}
    (h : (negated excluded).Leads g d a b) : b ∈ linkedOtherwise g excluded d a := by
  cases d with
  | forward =>
    obtain ⟨t, ht, rfl, hpredicate, rfl⟩ := h
    exact List.mem_map.mpr ⟨t, by simp [Graph.about, hg.1 t ht, ht, hpredicate], rfl⟩
  | backward =>
    obtain ⟨t, ht, rfl, hpredicate, rfl⟩ := h
    exact List.mem_map.mpr ⟨t, by simp [Graph.mentioning, hg.2 t ht, ht, hpredicate], rfl⟩

/-- Following a path from a term finds no terms but those that it leads to. -/
theorem leads_of_mem_reach (h : b ∈ p.reach g d a) : p.Leads g d a b := by
  induction p generalizing d a b with
  | link predicate => exact leads_of_mem_linked h
  | reverse p ih => exact leads_reverse.mpr (ih h)
  | sequence p q ihp ihq =>
    cases d with
    | forward =>
      obtain ⟨m, hm, hb⟩ := List.mem_flatMap.mp (List.mem_eraseDups.mp h)
      exact ⟨m, ihp hm, ihq hb⟩
    | backward =>
      obtain ⟨m, hm, hb⟩ := List.mem_flatMap.mp (List.mem_eraseDups.mp h)
      exact ⟨m, ihp hb, ihq hm⟩
  | alternative p q ihp ihq =>
    exact leads_alternative.mpr ((List.mem_append.mp (List.mem_eraseDups.mp h)).imp ihp ihq)
  | zeroOrMore p ih =>
    obtain ⟨m, hm, hsteps⟩ := steps_of_mem_closure h
    obtain rfl := List.mem_singleton.mp hm
    exact leads_zeroOrMore.mpr (Relation.ReflTransGen.mono (fun _ _ h => ih h) _ _ hsteps)
  | oneOrMore p ih =>
    obtain ⟨m, hm, hsteps⟩ := steps_of_mem_closure h
    exact leads_oneOrMore.mpr
      (.head' (ih hm) (Relation.ReflTransGen.mono (fun _ _ h => ih h) _ _ hsteps))
  | zeroOrOne p ih =>
    exact leads_zeroOrOne.mpr ((List.mem_cons.mp (List.mem_eraseDups.mp h)).imp id ih)
  | negated excluded => exact leads_of_mem_linkedOtherwise (List.mem_eraseDups.mp h)

/-- What a path leads to in one go is the term itself or a term of the graph. -/
lemma mem_terms_of_mem_reach (h : b ∈ p.reach g d a) : b = a ∨ b ∈ g.terms :=
  (leads_of_mem_reach h).mem_terms

/-- Following a path from a term finds the terms that it leads to. -/
theorem mem_reach (hg : g.FullyIndexed) : b ∈ p.reach g d a ↔ p.Leads g d a b := by
  refine ⟨leads_of_mem_reach, fun h => ?_⟩
  induction p generalizing d a b with
  | link predicate => exact mem_linked_of_leads hg h
  | reverse p ih => exact ih (leads_reverse.mp h)
  | sequence p q ihp ihq =>
    cases d with
    | forward =>
      obtain ⟨m, hp, hq⟩ := h
      exact List.mem_eraseDups.mpr (List.mem_flatMap.mpr ⟨m, ihp hp, ihq hq⟩)
    | backward =>
      obtain ⟨m, hp, hq⟩ := h
      exact List.mem_eraseDups.mpr (List.mem_flatMap.mpr ⟨m, ihq hq, ihp hp⟩)
  | alternative p q ihp ihq =>
    exact List.mem_eraseDups.mpr (List.mem_append.mpr ((leads_alternative.mp h).imp ihp ihq))
  | zeroOrMore p ih =>
    refine (mem_closure fun _ _ => mem_terms_of_mem_reach).mpr ⟨a, List.mem_singleton.mpr rfl, ?_⟩
    exact Relation.ReflTransGen.mono (fun _ _ h => ih h) _ _ (leads_zeroOrMore.mp h)
  | oneOrMore p ih =>
    obtain ⟨m, hm, hsteps⟩ := Relation.TransGen.head'_iff.mp (leads_oneOrMore.mp h)
    exact (mem_closure fun _ _ => mem_terms_of_mem_reach).mpr
      ⟨m, ih hm, Relation.ReflTransGen.mono (fun _ _ h => ih h) _ _ hsteps⟩
  | zeroOrOne p ih =>
    exact List.mem_eraseDups.mpr (List.mem_cons.mpr ((leads_zeroOrOne.mp h).imp id ih))
  | negated excluded => exact List.mem_eraseDups.mpr (mem_linkedOtherwise_of_leads hg h)

/-! ### Pairs -/

/-- Whether no part of a path can be empty. -/
def isProper : Path → Bool
  | link _ => true
  | reverse p => p.isProper
  | sequence p q => p.isProper && q.isProper
  | alternative p q => p.isProper && q.isProper
  | zeroOrMore _ => false
  | oneOrMore p => p.isProper
  | zeroOrOne _ => false
  | negated _ => true

/-- A path that is not empty starts at a term of the graph. -/
lemma Connects.start_mem_terms (hp : p.isProper) (h : p.Connects g a b) :
    a ∈ g.terms ∧ b ∈ g.terms := by
  induction p generalizing a b with
  | link predicate =>
    obtain ⟨t, ht, rfl, -, rfl⟩ := h
    exact ⟨Graph.mem_terms.mpr ⟨t, ht, .inl rfl⟩, Graph.mem_terms.mpr ⟨t, ht, .inr rfl⟩⟩
  | reverse p ih => exact (ih hp h).symm
  | sequence p q ihp ihq =>
    obtain ⟨m, hm, hb⟩ := h
    rw [isProper, Bool.and_eq_true] at hp
    exact ⟨(ihp hp.1 hm).1, (ihq hp.2 hb).2⟩
  | alternative p q ihp ihq =>
    rw [isProper, Bool.and_eq_true] at hp
    exact h.elim (ihp hp.1) (ihq hp.2)
  | zeroOrMore | zeroOrOne => cases hp
  | oneOrMore p ih =>
    induction h with
    | single hstep => exact ih hp hstep
    | tail _ hstep ihsteps => exact ⟨ihsteps.1, (ih hp hstep).2⟩
  | negated excluded =>
    obtain ⟨t, ht, rfl, -, rfl⟩ := h
    exact ⟨Graph.mem_terms.mpr ⟨t, ht, .inl rfl⟩, Graph.mem_terms.mpr ⟨t, ht, .inr rfl⟩⟩

lemma mem_ends {accepted : Iri → Bool} :
    (a, b) ∈ g.ends accepted ↔
      ∃ t ∈ g.triples, a = .node t.subject ∧ accepted t.predicate ∧ b = t.object := by
  simp only [Graph.ends, List.mem_filterMap, Option.ite_none_right_eq_some, Option.some.injEq,
    Prod.mk.injEq]
  exact exists_congr fun t => by simp only [eq_comm (a := a), eq_comm (a := b)]; tauto

/-- All pairs are the connected ones that start at a term of the graph. -/
lemma mem_pairs_iff (hg : g.FullyIndexed) :
    (a, b) ∈ p.pairs g ↔ a ∈ g.terms ∧ p.Connects g a b := by
  have hterms : (a, b) ∈ g.terms.flatMap (fun start => (p.reach g .forward start).map (start, ·)) ↔
      a ∈ g.terms ∧ p.Connects g a b := by
    simp only [List.mem_flatMap, List.mem_map, Prod.mk.injEq]
    constructor
    · rintro ⟨start, hstart, stop, hstop, rfl, rfl⟩
      exact ⟨hstart, (mem_reach hg).mp hstop⟩
    · exact fun ⟨ha, h⟩ => ⟨a, ha, b, (mem_reach hg).mpr h, rfl, rfl⟩
  cases p with
  | link predicate =>
    rw [pairs, mem_ends, and_iff_right_of_imp fun h => (h.start_mem_terms rfl).1]
    simp only [decide_eq_true_eq, eq_comm (b := predicate)]
    rfl
  | negated excluded =>
    rw [pairs, mem_ends, and_iff_right_of_imp fun h => (h.start_mem_terms rfl).1]
    simp only [decide_eq_true_eq]
    rfl
  | _ => exact hterms

/-- The pairs that are found between given ends. Where neither is known, the search starts from the
terms of the graph. -/
lemma mem_pairsBetween_iff (hg : g.FullyIndexed) {start stop : Option Term} :
    (a, b) ∈ p.pairsBetween g start stop ↔
      p.Connects g a b ∧ (∀ t, start = some t → a = t) ∧ (∀ t, stop = some t → b = t) ∧
        (start = none → stop = none → a ∈ g.terms) := by
  cases start with
  | none =>
    cases stop with
    | none => simp [pairsBetween, mem_pairs_iff hg, and_comm]
    | some stop =>
      simp only [pairsBetween, List.mem_map, mem_reach hg, Prod.mk.injEq]
      constructor
      · rintro ⟨a, h, rfl, rfl⟩
        exact ⟨h, by simp, by simp, by simp⟩
      · rintro ⟨h, -, hb, -⟩
        obtain rfl := hb _ rfl
        exact ⟨a, h, rfl, rfl⟩
  | some start =>
    cases stop with
    | none =>
      simp only [pairsBetween, List.mem_map, mem_reach hg, Prod.mk.injEq]
      constructor
      · rintro ⟨b, h, rfl, rfl⟩
        exact ⟨h, by simp, by simp, by simp⟩
      · rintro ⟨h, ha, -⟩
        obtain rfl := ha _ rfl
        exact ⟨b, h, rfl, rfl⟩
    | some stop =>
      simp only [pairsBetween]
      split
      · next h =>
        simp only [List.mem_singleton, Prod.mk.injEq]
        constructor
        · rintro ⟨rfl, rfl⟩
          exact ⟨(mem_reach hg).mp h, by simp, by simp, by simp⟩
        · rintro ⟨-, ha, hb, -⟩
          exact ⟨ha _ rfl, hb _ rfl⟩
      · next h =>
        refine iff_of_false List.not_mem_nil ?_
        rintro ⟨hconnects, ha, hb, -⟩
        obtain rfl := ha _ rfl
        obtain rfl := hb _ rfl
        exact h ((mem_reach hg).mpr hconnects)

/-- Wherever a path that is not empty starts, it is found. -/
lemma mem_pairsBetween (hg : g.FullyIndexed) (hp : p.isProper) {start stop : Option Term} :
    (a, b) ∈ p.pairsBetween g start stop ↔
      p.Connects g a b ∧ (∀ t, start = some t → a = t) ∧ ∀ t, stop = some t → b = t := by
  rw [mem_pairsBetween_iff hg]
  refine and_congr_right fun h => and_congr_right fun _ => and_iff_left ?_
  exact fun _ _ => (h.start_mem_terms hp).1

end Path

end

end Exemplar
