import Exemplar.Proofs.Algebra.Reachability
import Mathlib.Data.List.Nodup

/-!
# Rounds of a search

Following a path lists every term once, and comes to an end by itself: as many rounds as the graph
has terms find all that there is to find, and any more would find nothing else.
-/

namespace Exemplar

/-! ### Lists without repetition -/

lemma nodup_eraseDups {α : Type} [DecidableEq α] (as : List α) : as.eraseDups.Nodup := by
  match as with
  | [] => exact List.nodup_nil
  | a :: as =>
    rw [List.eraseDups_cons, List.nodup_cons, List.mem_eraseDups, List.mem_filter]
    exact ⟨by simp, nodup_eraseDups (as.filter fun b => !b == a)⟩
termination_by as.length
decreasing_by exact Nat.lt_succ_of_le (List.length_filter_le _ _)

section

variable {step : Term → List Term} {reached frontier terms : List Term} {rounds : Nat}

lemma nodup_newlyReached : (newlyReached step reached frontier).Nodup :=
  (nodup_eraseDups _).filter _

lemma nodup_saturate (h : reached.Nodup) : (saturate step rounds reached frontier).Nodup := by
  induction rounds generalizing reached frontier with
  | zero => exact h
  | succ rounds ih =>
    rw [saturate_succ]
    split
    · exact h
    · refine ih (h.append nodup_newlyReached fun a ha hnew => ?_)
      exact (mem_newlyReached.mp hnew).2 ha

lemma nodup_closure {g : Graph} {start : List Term} : (g.closure step start).Nodup :=
  nodup_saturate (nodup_eraseDups start)

/-! ### The last round -/

/-- With as many rounds as there are terms to find, more of them find nothing else: each round finds
one of these terms, or is the last. -/
lemma saturate_eq_of_le (hstep : ∀ a, ∀ b ∈ step a, b = a ∨ b ∈ terms)
    (hfrontier : ∀ a ∈ frontier, a ∈ reached)
    (hterms : (terms.filter (· ∉ reached)).length ≤ rounds) {more : Nat} (hmore : rounds ≤ more) :
    saturate step more reached frontier = saturate step rounds reached frontier := by
  have hfound : ∀ {b}, b ∈ newlyReached step reached frontier → b ∈ terms := by
    intro b hb
    obtain ⟨⟨a, ha, hab⟩, hnot⟩ := mem_newlyReached.mp hb
    exact (hstep a b hab).resolve_left fun heq => hnot (heq ▸ hfrontier a ha)
  induction rounds generalizing reached frontier more with
  | zero =>
    have hnone : newlyReached step reached frontier = [] := by
      refine List.eq_nil_iff_forall_not_mem.mpr fun b hb => ?_
      have hlt := length_unreached_lt (hfound hb) hb
      omega
    cases more with
    | zero => rfl
    | succ more =>
      rw [saturate_succ, if_pos hnone]
      rfl
  | succ rounds ih =>
    obtain ⟨more, rfl⟩ := Nat.exists_eq_add_of_le' (Nat.le_of_add_left_le hmore)
    rw [saturate_succ, saturate_succ]
    split
    · rfl
    · next hsome =>
      obtain ⟨c, hc⟩ := List.exists_mem_of_ne_nil _ hsome
      have hlt := length_unreached_lt (hfound hc) hc
      refine ih (fun a ha => List.mem_append_right _ ha) (by omega) (by omega) fun hb => ?_
      obtain ⟨⟨a, ha, hab⟩, hnot⟩ := mem_newlyReached.mp hb
      exact (hstep a _ hab).resolve_left fun heq => hnot (heq ▸ List.mem_append_right _ ha)

end

/-! ### Paths -/

lemma Triple.eq_of_eq {t u : Triple} (hsubject : t.subject = u.subject)
    (hpredicate : t.predicate = u.predicate) (hobject : t.object = u.object) : t = u := by
  cases t
  cases u
  congr

variable {g : Graph}

lemma Graph.nodup_mentioning (object : Term) : (g.mentioning object).Nodup := by
  unfold mentioning
  split
  · exact g.nodup.filter _
  · exact List.nodup_nil

namespace Path

lemma nodup_linked (predicate : Iri) (d : Direction) (a : Term) :
    (linked g predicate d a).Nodup := by
  cases d with
  | forward =>
    refine g.nodup.filterMap fun t u b ht hu => ?_
    obtain ⟨⟨hsubject, hpredicate⟩, hobject⟩ := Option.ite_none_right_eq_some.mp ht
    obtain ⟨⟨hsubject', hpredicate'⟩, hobject'⟩ := Option.ite_none_right_eq_some.mp hu
    exact Triple.eq_of_eq (Term.node.inj (hsubject.trans hsubject'.symm))
      (hpredicate.trans hpredicate'.symm) (Option.some.inj (hobject.trans hobject'.symm))
  | backward =>
    -- the triples are only injective in what is asked for as all of them have the same object
    refine List.pairwise_filterMap.mpr ((Graph.nodup_mentioning a).imp_of_mem ?_)
    rintro t u ht hu hne b hb c hc rfl
    obtain ⟨hpredicate, hsubject⟩ := Option.ite_none_right_eq_some.mp hb
    obtain ⟨hpredicate', hsubject'⟩ := Option.ite_none_right_eq_some.mp hc
    refine hne (Triple.eq_of_eq ?_ (hpredicate.trans hpredicate'.symm) ?_)
    · exact Term.node.inj ((Option.some.inj hsubject).trans (Option.some.inj hsubject').symm)
    · exact (Graph.mem_of_mem_mentioning ht).2.trans (Graph.mem_of_mem_mentioning hu).2.symm

/-- No term is listed twice. -/
lemma nodup_reach (p : Path) (d : Direction) (a : Term) : (p.reach g d a).Nodup := by
  induction p generalizing d with
  | link predicate => exact nodup_linked predicate d a
  | reverse p ih => exact ih d.flip
  | sequence => cases d <;> exact nodup_eraseDups _
  | alternative | zeroOrOne | negated => exact nodup_eraseDups _
  | zeroOrMore | oneOrMore => exact nodup_closure

/-- As many rounds as the graph has terms are all the rounds that there are. -/
lemma saturate_reach_eq_closure (p : Path) (d : Direction) (start : List Term) {rounds : Nat}
    (h : g.terms.length ≤ rounds) :
    saturate (p.reach g d) rounds start.eraseDups start.eraseDups =
      g.closure (p.reach g d) start :=
  saturate_eq_of_le (fun _ _ => mem_terms_of_mem_reach) (fun _ ha => ha)
    (List.length_filter_le _ _) h

/-- Following a path lists no term twice, and only terms that it leads to. A path that is repeated
is followed to its end, however long the search may take. All terms that the path leads to are
listed, in both directions, where all triples of the graph are found by their ends. -/
theorem reach_exact (g : Graph) (p : Path) :
    (∀ d a, (p.reach g d a).Nodup) ∧
      (∀ d start rounds, g.terms.length ≤ rounds →
        saturate (p.reach g d) rounds start.eraseDups start.eraseDups =
          g.closure (p.reach g d) start) ∧
      (∀ a b, b ∈ p.reach g .forward a ∨ a ∈ p.reach g .backward b → p.Connects g a b) ∧
      (g.FullyIndexed → ∀ a b, (b ∈ p.reach g .forward a ↔ p.Connects g a b) ∧
        (p.Connects g a b ↔ a ∈ p.reach g .backward b)) := by
  refine ⟨nodup_reach p, fun d start _ => saturate_reach_eq_closure p d start, ?_, ?_⟩
  · rintro a b (h | h)
    · exact leads_of_mem_reach h
    · exact leads_of_mem_reach h
  · exact fun hg a b => ⟨mem_reach hg, (mem_reach (d := .backward) hg).symm⟩

/-- Three nodes in a ring, one of them with a name. -/
def ring : Graph :=
  ⟨[⟨.iri ⟨"ex:a"⟩, ⟨"ex:next"⟩, .iri ⟨"ex:b"⟩⟩, ⟨.iri ⟨"ex:b"⟩, ⟨"ex:next"⟩, .iri ⟨"ex:c"⟩⟩,
    ⟨.iri ⟨"ex:c"⟩, ⟨"ex:next"⟩, .iri ⟨"ex:a"⟩⟩,
    ⟨.iri ⟨"ex:b"⟩, ⟨"ex:name"⟩, .literal (.simple "B")⟩], by decide⟩

/-- A name around the ring, or back to a node from its name. -/
def aroundRing : Path :=
  .sequence (.oneOrMore (.alternative (.sequence (.link ⟨"ex:next"⟩) (.link ⟨"ex:next"⟩))
      (.reverse (.negated [⟨"ex:next"⟩]))))
    (.zeroOrOne (.link ⟨"ex:name"⟩))

/-- A path with a repeated part on a graph with a ring, followed from a node and from a literal. -/
theorem reach_exact_ring :
    (∀ b, b ∈ [Term.iri ⟨"ex:c"⟩, .iri ⟨"ex:b"⟩, .literal (.simple "B"), .iri ⟨"ex:a"⟩] ↔
        aroundRing.Connects ring (.iri ⟨"ex:a"⟩) b) ∧
      ∀ a, aroundRing.Connects ring a (.literal (.simple "B")) ↔
        a ∈ [Term.iri ⟨"ex:c"⟩, .literal (.simple "B"), .iri ⟨"ex:a"⟩, .iri ⟨"ex:b"⟩] := by
  obtain ⟨-, -, -, h⟩ := reach_exact ring aroundRing
  have hforward : aroundRing.reach ring .forward (.iri ⟨"ex:a"⟩) =
      [.iri ⟨"ex:c"⟩, .iri ⟨"ex:b"⟩, .literal (.simple "B"), .iri ⟨"ex:a"⟩] := by decide
  have hbackward : aroundRing.reach ring .backward (.literal (.simple "B")) =
      [.iri ⟨"ex:c"⟩, .literal (.simple "B"), .iri ⟨"ex:a"⟩, .iri ⟨"ex:b"⟩] := by decide
  rw [← hforward, ← hbackward]
  exact ⟨fun b => (h (by decide) _ b).1, fun a => (h (by decide) a _).2⟩

/-- One triple with the last blank node. -/
def towardsLast : Graph := ⟨[⟨.iri ⟨"ex:a"⟩, ⟨"ex:p"⟩, .blank .last⟩], by decide⟩

/-- A triple is not found backwards from the last blank node. -/
theorem not_reached_from_last :
    (link ⟨"ex:p"⟩).Connects towardsLast (.iri ⟨"ex:a"⟩) (.blank .last) ∧
      .blank .last ∈ (link ⟨"ex:p"⟩).reach towardsLast .forward (.iri ⟨"ex:a"⟩) ∧
      (link ⟨"ex:p"⟩).reach towardsLast .backward (.blank .last) = [] :=
  ⟨⟨_, List.mem_cons_self, rfl, rfl, rfl⟩, by decide, rfl⟩

end Path

end Exemplar
