import Exemplar.Proofs.Algebra.Reachability
import Exemplar.Proofs.Answer.Rows
import Exemplar.Proofs.Template.Lists
import Exemplar.Compilation.Query

/-!
# Slots of lists

What matches the pattern of a list: a chain of slots is reached from the list along successors, and
the slots of a list with positions are its items.
-/

namespace Exemplar

variable {g : Graph}

/-! ### From known terms -/

section

variable {s s' : Solution} {subject : PatternTerm} {n t : Term} {o : Variable}

@[simp] lemma Solution.get?_nil (v : Variable) : Solution.get? [] v = none := rfl

@[simp] lemma Solution.resolve?_term (v : Variable) : s.resolve? v.term = s.get? v := rfl

lemma Solution.unify?_of_resolve? (hn : s.resolve? subject = some n) :
    s.unify? subject t = if n = t then some s else none := by
  match subject with
  | .constant c =>
    cases hn
    rfl
  | .variable v =>
    have hv : s.get? v = some n := hn
    rw [Solution.unify?, Solution.bind?, hv]

lemma Solution.unify?_of_unbound (ho : s.get? o = none) :
    s.unify? o.term t = some ((o, t) :: s) := by
  rw [Variable.term, Solution.unify?, Solution.bind?, ho]

/-- From a known subject, a link finds the objects of the subject. -/
lemma TriplePattern.mem_solutions_link (hn : s.resolve? subject = some n)
    (ho : s.get? o = none) {predicate : Iri} :
    s' ∈ (TriplePattern.link subject predicate o.term).solutions g s ↔
      Graph.isIndexed n ∧ ∃ t ∈ g.objects n predicate, s' = (o, t) :: s := by
  have hunify : ∀ t : Triple, n = .node t.subject → ((do
      let s ← s.unify? subject (.node t.subject)
      let s ← s.unify? (.constant (.iri predicate)) (.iri t.predicate)
      s.unify? o.term t.object) = some s' ↔ predicate = t.predicate ∧ s' = (o, t.object) :: s) := by
    intro t ht
    have hpredicate : s.unify? (.constant (.iri predicate)) (.iri t.predicate) =
        if predicate = t.predicate then some s else none := by
      simp [Solution.unify?, Term.iri]
    simp only [Solution.unify?_of_resolve? hn, if_pos ht, bind, Option.bind_some, hpredicate]
    split
    · next heq => simp [Solution.unify?_of_unbound ho, heq, eq_comm]
    · next hne => simp [hne]
  rw [TriplePattern.solutions, TriplePattern.candidates_of_known (n := n) hn rfl]
  simp only [TriplePattern.link, Graph.about, List.mem_filterMap, Graph.mem_objects]
  constructor
  · rintro ⟨t, ht, h⟩
    replace ht := (List.mem_filter.mp ht).1
    split at ht
    · next hindexed =>
      obtain ⟨ht, hsubject⟩ := List.mem_filter.mp ht
      have hsubject : n = .node t.subject := (of_decide_eq_true hsubject).symm
      obtain ⟨hpredicate, rfl⟩ := (hunify t hsubject).mp h
      exact ⟨hindexed, _, ⟨t, ht, hsubject, hpredicate, rfl⟩, rfl⟩
    · cases ht
  · rintro ⟨hindexed, _, ⟨t, ht, hsubject, hpredicate, rfl⟩, rfl⟩
    refine ⟨t, List.mem_filter.mpr ⟨?_, ?_⟩, (hunify t hsubject).mpr ⟨hpredicate, rfl⟩⟩
    · rw [if_pos hindexed]
      exact List.mem_filter.mpr ⟨ht, decide_eq_true hsubject.symm⟩
    · exact decide_eq_true hpredicate.symm

lemma mem_matchTriples_link {predicate : Iri} {links : List TriplePattern}
    (hn : s.resolve? subject = some n) (ho : s.get? o = none) :
    s' ∈ matchTriples g (.link subject predicate o.term :: links) s ↔
      Graph.isIndexed n ∧ ∃ t ∈ g.objects n predicate, s' ∈ matchTriples g links ((o, t) :: s) := by
  simp only [mem_matchTriples_cons, TriplePattern.mem_solutions_link hn ho]
  constructor
  · rintro ⟨_, ⟨hindexed, t, ht, rfl⟩, hs'⟩
    exact ⟨hindexed, t, ht, hs'⟩
  · rintro ⟨hindexed, t, ht, hs'⟩
    exact ⟨_, ⟨hindexed, t, ht, rfl⟩, hs'⟩

lemma mem_matchTriples_nil : s' ∈ matchTriples g [] s ↔ s' = s := List.mem_singleton

/-- From a known start, a path finds what it reaches. -/
lemma Path.mem_solutions_forward (hn : s.resolve? subject = some n) (ho : s.get? o = none)
    {p : Path} : s' ∈ p.solutions g subject o.term s ↔
      ∃ t ∈ p.reach g .forward n, s' = (o, t) :: s := by
  have hresolve : s.resolve? o.term = none := ho
  simp only [Path.solutions, hn, hresolve, Path.pairsBetween, List.mem_filterMap, List.mem_map]
  constructor
  · rintro ⟨_, ⟨t, ht, rfl⟩, h⟩
    simp only [Solution.unify?_of_resolve? hn, if_true, Option.bind_some,
      Solution.unify?_of_unbound ho] at h
    cases h
    exact ⟨t, ht, rfl⟩
  · rintro ⟨t, ht, rfl⟩
    exact ⟨(n, t), ⟨t, ht, rfl⟩, by
      simp [Solution.unify?_of_resolve? hn, Solution.unify?_of_unbound ho]⟩

/-- Links that are repeated reach what they lead to. -/
lemma Path.mem_reach_zeroOrMore {predicate : Iri} :
    t ∈ (Path.zeroOrMore (.link predicate)).reach g .forward n ↔
      Steps (fun a => g.objects a predicate) n t := by
  have hterms : ∀ a, ∀ b ∈ g.objects a predicate, b = a ∨ b ∈ g.terms := by
    intro a b hb
    obtain ⟨t, ht, -, -, rfl⟩ := Graph.mem_objects.mp hb
    exact .inr (Graph.mem_terms.mpr ⟨t, ht, .inr rfl⟩)
  change t ∈ g.closure (fun a => g.objects a predicate) [n] ↔ _
  rw [mem_closure hterms]
  simp

end

/-! ### Groups of slots -/

/-- The pattern of a node that is linked to a list, with the slots of the list as a group. -/
def listPattern (node predicate : Iri) (list : Variable) (slots : Pattern) : Pattern :=
  .leftJoin (.bgp [.link (.constant (.iri node)) predicate list.term]) slots none

section

variable {list slot rest index item : Variable} {head : Term} {m : Solution}

lemma matches_listPattern {node predicate : Iri} {slots : Pattern}
    (hlist : g.objects (.iri node) predicate = [head]) :
    (listPattern node predicate list slots).Matches g [] m ↔
      slots.Matches g [(list, head)] m ∨
        (m = [(list, head)] ∧ ∀ m', ¬ slots.Matches g [(list, head)] m') := by
  have hnode : Graph.isIndexed (.iri node) := rfl
  have hlink : ∀ s', s' ∈ matchTriples g [.link (.constant (.iri node)) predicate list.term] [] ↔
      s' = [(list, head)] := by
    intro s'
    rw [mem_matchTriples_link (n := .iri node) rfl rfl, hlist]
    simp [hnode, mem_matchTriples_nil]
  simp only [listPattern, Pattern.Matches, hlink, exists_eq_left]

/-- A chain matches at the slots that successors lead to, if they have an item and a successor. -/
lemma matches_chainOperation (hdistinct : [rest, item, slot, list].Nodup) :
    (chainOperation list slot rest item.term).build.Matches g [(list, head)] m ↔
      ∃ k, Steps (fun a => g.objects a Iri.rdfRest) head k ∧ Graph.isIndexed k ∧
        ∃ t ∈ g.objects k Iri.rdfFirst, ∃ next ∈ g.objects k Iri.rdfRest,
          m = [(rest, next), (item, t), (slot, k), (list, head)] := by
  simp only [List.nodup_cons, List.mem_cons, List.not_mem_nil, or_false, not_or] at hdistinct
  obtain ⟨⟨hrestItem, hrestSlot, hrestList⟩, ⟨hitemSlot, hitemList⟩, hslotList, -⟩ := hdistinct
  have hpath : ∀ s', s' ∈ Path.solutions g list.term (.zeroOrMore (.link Iri.rdfRest)) slot.term
      [(list, head)] ↔ ∃ k, Steps (fun a => g.objects a Iri.rdfRest) head k ∧
        s' = [(slot, k), (list, head)] := by
    intro s'
    rw [Path.mem_solutions_forward (n := head) (by simp [Solution.get?_cons])
      (by simp [Solution.get?_cons, hslotList])]
    simp only [Path.mem_reach_zeroOrMore]
  have hlinks : ∀ k, m ∈ matchTriples g [.link slot.term Iri.rdfFirst item.term,
      .link slot.term Iri.rdfRest rest.term] [(slot, k), (list, head)] ↔
      Graph.isIndexed k ∧ ∃ t ∈ g.objects k Iri.rdfFirst, ∃ next ∈ g.objects k Iri.rdfRest,
        m = [(rest, next), (item, t), (slot, k), (list, head)] := by
    intro k
    rw [mem_matchTriples_link (n := k) (by simp [Solution.get?_cons])
      (by simp [Solution.get?_cons, *])]
    refine and_congr_right fun hindexed => exists_congr fun t => and_congr_right fun _ => ?_
    rw [mem_matchTriples_link (n := k) (by simp [Solution.get?_cons, Ne.symm hitemSlot])
      (by simp [Solution.get?_cons, *])]
    simp only [hindexed, true_and, mem_matchTriples_nil]
  change (∃ s, s ∈ Path.solutions g list.term (.zeroOrMore (.link Iri.rdfRest)) slot.term
    [(list, head)] ∧ m ∈ matchTriples g [.link slot.term Iri.rdfFirst item.term,
      .link slot.term Iri.rdfRest rest.term] s) ↔ _
  simp only [hpath]
  constructor
  · rintro ⟨_, ⟨k, hk, rfl⟩, hm⟩
    exact ⟨k, hk, (hlinks k).mp hm⟩
  · rintro ⟨k, hk, hm⟩
    exact ⟨_, ⟨k, hk, rfl⟩, (hlinks k).mpr hm⟩

/-- A list with positions matches at the slots that are its items, if they have an index and a
content. -/
lemma matches_slotOperation {lists : ListVocabulary} (hdistinct : [item, index, slot, list].Nodup) :
    (slotOperation lists list slot index item.term).build.Matches g [(list, head)] m ↔
      Graph.isIndexed head ∧ ∃ k ∈ g.objects head lists.item, Graph.isIndexed k ∧
        ∃ i ∈ g.objects k lists.index, ∃ t ∈ g.objects k lists.content,
          m = [(item, t), (index, i), (slot, k), (list, head)] := by
  simp only [List.nodup_cons, List.mem_cons, List.not_mem_nil, or_false, not_or] at hdistinct
  obtain ⟨⟨hitemIndex, hitemSlot, hitemList⟩, ⟨hindexSlot, hindexList⟩, hslotList, -⟩ := hdistinct
  change m ∈ matchTriples g [.link list.term lists.item slot.term,
    .link slot.term lists.index index.term, .link slot.term lists.content item.term]
    [(list, head)] ↔ _
  rw [mem_matchTriples_link (n := head) (by simp [Solution.get?_cons])
    (by simp [Solution.get?_cons, *])]
  refine and_congr_right fun _ => exists_congr fun k => and_congr_right fun _ => ?_
  rw [mem_matchTriples_link (n := k) (by simp [Solution.get?_cons])
    (by simp [Solution.get?_cons, *])]
  refine and_congr_right fun hindexed => exists_congr fun i => and_congr_right fun _ => ?_
  rw [mem_matchTriples_link (n := k) (by simp [Solution.get?_cons, Ne.symm hindexSlot])
    (by simp [Solution.get?_cons, *])]
  simp only [hindexed, true_and, mem_matchTriples_nil]

end

/-! ### Lists in graphs -/

/-- A chain of slots with their items. Each slot has one item and one successor; the empty list, at
which the chain ends, has neither. No slot is the last blank node (`indexed`), whose triples are not
found by their subject. -/
structure Graph.HasChain (g : Graph) (nodes : List Node) (terms : List Term) : Prop where
  length : nodes.length = terms.length
  distinct : nodes.Nodup
  ne_nil (n : Node) (hn : n ∈ nodes) : Term.node n ≠ .iri Iri.rdfNil
  indexed (n : Node) (hn : n ∈ nodes) : Graph.isIndexed (.node n)
  first (i : Nat) (hi : i < nodes.length) (ht : i < terms.length) :
    g.objects (.node nodes[i]) Iri.rdfFirst = [terms[i]]
  rest (i : Nat) (hi : i < nodes.length) :
    g.objects (.node nodes[i]) Iri.rdfRest = [chainNode nodes (i + 1)]
  first_nil : g.objects (.iri Iri.rdfNil) Iri.rdfFirst = []
  rest_nil : g.objects (.iri Iri.rdfNil) Iri.rdfRest = []

/-- A list whose slots have positions. Each slot has one index and one content. Neither the list nor
a slot is the last blank node (`indexed_list`, `indexed`), whose triples are not found by their
subject. -/
structure Graph.HasPositions (g : Graph) (lists : ListVocabulary) (list : Term)
    (slots : List Node) (terms : List Term) : Prop where
  length : slots.length = terms.length
  indexed_list : Graph.isIndexed list
  indexed (n : Node) (hn : n ∈ slots) : Graph.isIndexed (.node n)
  items : (g.objects list lists.item).Perm (slots.map .node)
  index (i : Nat) (hi : i < slots.length) :
    g.objects (.node slots[i]) lists.index = [positionTerm lists.origin i]
  content (i : Nat) (hi : i < slots.length) (ht : i < terms.length) :
    g.objects (.node slots[i]) lists.content = [terms[i]]

section

variable {node predicate : Iri} {list slot rest index item : Variable} {nodes : List Node}
  {terms : List Term} {values : List Json} {rows : List Solution}

lemma native?_of_forall₂
    (hvalues : List.Forall₂ (fun (t : Term) j => t.native? = some j) terms values) {i : Nat}
    {t : Term} (ht : terms[i]? = some t) : t.native? = values[i]? := by
  obtain ⟨hi, rfl⟩ := List.getElem?_eq_some_iff.mp ht
  rw [List.getElem?_eq_getElem (hvalues.length_eq ▸ hi)]
  exact hvalues.get hi _

/-- What the match of a slot binds. -/
lemma Solution.get?_slot (hdistinct : [rest, item, slot, list].Nodup) (k t next head : Term) :
    let m := [(rest, next), (item, t), (slot, k), (list, head)]
    Solution.get? m list = some head ∧ Solution.get? m slot = some k ∧
      Solution.get? m rest = some next ∧ Solution.get? m item = some t := by
  intro m
  simp only [List.nodup_cons, List.mem_cons, List.not_mem_nil, or_false, not_or] at hdistinct
  grind [Solution.get?_cons]

namespace Graph.HasChain

variable (h : g.HasChain nodes terms)

include h

/-- Successors lead from the first slot to the slots of the chain and to the empty list. -/
lemma steps_iff {k : Term} : Steps (fun a => g.objects a Iri.rdfRest) (chainNode nodes 0) k ↔
    ∃ i ≤ nodes.length, k = chainNode nodes i := by
  have hsuccessor : ∀ i (hi : i < nodes.length),
      g.objects (chainNode nodes i) Iri.rdfRest = [chainNode nodes (i + 1)] := by
    intro i hi
    rw [chainNode_of_getElem? (List.getElem?_eq_getElem hi), h.rest i hi]
  constructor
  · intro hsteps
    induction hsteps with
    | refl => exact ⟨0, Nat.zero_le _, rfl⟩
    | @tail _ k _ hk ih =>
      obtain ⟨i, -, rfl⟩ := ih
      change k ∈ g.objects (chainNode nodes i) Iri.rdfRest at hk
      rcases Nat.lt_or_ge i nodes.length with hlt | hge
      · rw [hsuccessor i hlt] at hk
        exact ⟨i + 1, hlt, List.mem_singleton.mp hk⟩
      · rw [chainNode_of_le hge, h.rest_nil] at hk
        cases hk
  · rintro ⟨i, hi, rfl⟩
    induction i with
    | zero => exact .refl
    | succ i ih =>
      refine .tail (ih (Nat.le_of_lt hi)) ?_
      change chainNode nodes (i + 1) ∈ g.objects (chainNode nodes i) Iri.rdfRest
      rw [hsuccessor i hi]
      exact List.mem_singleton_self _

/-- The pattern of a chain matches at its slots, each with its item and its successor. -/
lemma matches_iff (hdistinct : [rest, item, slot, list].Nodup) {m : Solution} :
    (chainOperation list slot rest item.term).build.Matches g [(list, chainNode nodes 0)] m ↔
      ∃ i n t, nodes[i]? = some n ∧ terms[i]? = some t ∧
        m = [(rest, chainNode nodes (i + 1)), (item, t), (slot, .node n),
          (list, chainNode nodes 0)] := by
  rw [matches_chainOperation hdistinct]
  simp only [h.steps_iff]
  constructor
  · rintro ⟨_, ⟨i, -, rfl⟩, -, t, ht, next, hnext, rfl⟩
    rcases Nat.lt_or_ge i nodes.length with hlt | hge
    · have hlt' : i < terms.length := h.length ▸ hlt
      have hn := List.getElem?_eq_getElem hlt
      rw [chainNode_of_getElem? hn] at ht hnext ⊢
      rw [h.first i hlt hlt', List.mem_singleton] at ht
      rw [h.rest i hlt, List.mem_singleton] at hnext
      exact ⟨i, _, _, hn, List.getElem?_eq_getElem hlt', by rw [ht, hnext]⟩
    · rw [chainNode_of_le hge, h.first_nil] at ht
      cases ht
  · rintro ⟨i, n, t, hn, ht, rfl⟩
    obtain ⟨hi, rfl⟩ := List.getElem?_eq_some_iff.mp hn
    obtain ⟨hi', rfl⟩ := List.getElem?_eq_some_iff.mp ht
    refine ⟨_, ⟨i, Nat.le_of_lt hi, (chainNode_of_getElem? hn).symm⟩,
      h.indexed _ (List.getElem_mem hi), _, ?_, _, ?_, rfl⟩
    · rw [h.first i hi hi']
      exact List.mem_singleton_self _
    · rw [h.rest i hi]
      exact List.mem_singleton_self _

/-- What matches the pattern of a node with a chain. -/
lemma matches_listPattern_iff (hlist : g.objects (.iri node) predicate = [chainNode nodes 0])
    (hdistinct : [rest, item, slot, list].Nodup) {m : Solution} :
    (listPattern node predicate list
        (chainOperation list slot rest item.term).build).Matches g [] m ↔
      (∃ i n t, nodes[i]? = some n ∧ terms[i]? = some t ∧
        m = [(rest, chainNode nodes (i + 1)), (item, t), (slot, .node n),
          (list, chainNode nodes 0)]) ∨
      nodes = [] ∧ m = [(list, .iri Iri.rdfNil)] := by
  rw [matches_listPattern hlist]
  simp only [h.matches_iff hdistinct]
  refine or_congr_right ⟨?_, ?_⟩
  · rintro ⟨rfl, hnone⟩
    obtain rfl : nodes = [] := by
      by_contra hne
      have hi := List.length_pos_iff.mpr hne
      exact hnone _ ⟨0, _, _, List.getElem?_eq_getElem hi,
        List.getElem?_eq_getElem (h.length ▸ hi : 0 < terms.length), rfl⟩
    exact ⟨rfl, rfl⟩
  · rintro ⟨rfl, rfl⟩
    refine ⟨rfl, ?_⟩
    rintro m ⟨i, n, t, hn, -⟩
    cases hn

/-- The rows of a chain that is the value of a node. -/
theorem chainRows (hlist : g.objects (.iri node) predicate = [chainNode nodes 0])
    (hdistinct : [rest, item, slot, list].Nodup)
    (hvalues : List.Forall₂ (fun (t : Term) j => t.native? = some j) terms values)
    (hrows : (listPattern node predicate list
      (chainOperation list slot rest item.term).build).Rows g [list, slot, rest, item] rows) :
    Template.ChainRows list slot rest item nodes values rows := by
  have hmatches := fun m => h.matches_listPattern_iff (m := m) hlist hdistinct
  have hbound := Solution.get?_slot hdistinct
  have hslotRow : ∀ (i : Nat) n, nodes[i]? = some n →
      ∃ row ∈ rows, row.get? slot = some (.node n) := by
    intro i n hn
    have hi : i < terms.length := h.length ▸ (List.getElem?_eq_some_iff.mp hn).1
    obtain ⟨row, hrow, heq⟩ := hrows.exists_row _
      ((hmatches _).mpr (.inl ⟨i, n, _, hn, List.getElem?_eq_getElem hi, rfl⟩))
    exact ⟨row, hrow, (heq slot (by simp)).trans (hbound _ _ _ _).2.1⟩
  refine ⟨h.length.trans hvalues.length_eq, h.distinct, h.ne_nil, ?_, ?_, ?_, ?_⟩
  · cases hnodes : nodes with
    | nil =>
      obtain ⟨row, hrow, -⟩ := hrows.exists_row _ ((hmatches _).mpr (.inr ⟨hnodes, rfl⟩))
      exact List.ne_nil_of_mem hrow
    | cons n rest =>
      obtain ⟨row, hrow, -⟩ := hslotRow 0 n (by rw [hnodes]; rfl)
      exact List.ne_nil_of_mem hrow
  · intro row hrow
    obtain ⟨m, hm, heq⟩ := hrows.exists_match row hrow
    rw [heq list (by simp)]
    rcases (hmatches m).mp hm with ⟨i, n, t, -, -, rfl⟩ | ⟨rfl, rfl⟩
    · exact (hbound _ _ _ _).1
    · simp [Solution.get?_cons, chainNode]
  · intro row hrow k hk
    obtain ⟨m, hm, heq⟩ := hrows.exists_match row hrow
    rw [heq slot (by simp)] at hk
    rcases (hmatches m).mp hm with ⟨i, n, t, hn, ht, rfl⟩ | ⟨rfl, rfl⟩
    · obtain ⟨-, hslot, hrest, hitem⟩ :=
        hbound (.node n) t (chainNode nodes (i + 1)) (chainNode nodes 0)
      refine ⟨i, n, hn, Option.some.inj (hk.symm.trans hslot), ?_, (heq rest (by simp)).trans hrest⟩
      rw [Solution.native?, heq item (by simp), hitem]
      exact native?_of_forall₂ hvalues ht
    · have hslotList : slot ≠ list := by
        simp only [List.nodup_cons, List.mem_cons] at hdistinct
        tauto
      simp [Solution.get?_cons, hslotList] at hk
  · intro n hn
    obtain ⟨i, hi⟩ := List.getElem?_of_mem hn
    exact hslotRow i n hi

end Graph.HasChain

namespace Graph.HasPositions

variable {lists : ListVocabulary} {head : Term} (h : g.HasPositions lists head nodes terms)

include h

/-- The pattern of a list with positions matches at its slots, each with its index and content. -/
lemma matches_iff (hdistinct : [item, index, slot, list].Nodup) {m : Solution} :
    (slotOperation lists list slot index item.term).build.Matches g [(list, head)] m ↔
      ∃ i n t, nodes[i]? = some n ∧ terms[i]? = some t ∧
        m = [(item, t), (index, positionTerm lists.origin i), (slot, .node n), (list, head)] := by
  rw [matches_slotOperation hdistinct]
  constructor
  · rintro ⟨-, k, hk, -, position, hposition, t, ht, rfl⟩
    obtain ⟨n, hn, rfl⟩ := List.mem_map.mp (h.items.mem_iff.mp hk)
    obtain ⟨i, hi, rfl⟩ := List.getElem_of_mem hn
    have hi' : i < terms.length := h.length ▸ hi
    rw [h.index i hi, List.mem_singleton] at hposition
    rw [h.content i hi hi', List.mem_singleton] at ht
    exact ⟨i, _, _, List.getElem?_eq_getElem hi, List.getElem?_eq_getElem hi',
      by rw [ht, hposition]⟩
  · rintro ⟨i, n, t, hn, ht, rfl⟩
    obtain ⟨hi, rfl⟩ := List.getElem?_eq_some_iff.mp hn
    obtain ⟨hi', rfl⟩ := List.getElem?_eq_some_iff.mp ht
    have hmem := List.getElem_mem hi
    refine ⟨h.indexed_list, _, ?_, h.indexed _ hmem, _, ?_, _, ?_, rfl⟩
    · exact h.items.mem_iff.mpr (List.mem_map_of_mem hmem)
    · rw [h.index i hi]
      exact List.mem_singleton_self _
    · rw [h.content i hi hi']
      exact List.mem_singleton_self _

/-- The rows of a list with positions that is the value of a node. -/
theorem positionRows (hlist : g.objects (.iri node) predicate = [head])
    (hdistinct : [item, index, slot, list].Nodup)
    (hposition : ∀ i < terms.length,
      position? lists.origin (positionTerm lists.origin i) = some i)
    (hvalues : List.Forall₂ (fun (t : Term) j => t.native? = some j) terms values)
    (hrows : (listPattern node predicate list
      (slotOperation lists list slot index item.term).build).Rows g [index, item] rows) :
    Template.PositionRows index item lists.origin values rows := by
  have hmatches : ∀ m, (listPattern node predicate list
      (slotOperation lists list slot index item.term).build).Matches g [] m ↔ _ :=
    fun _ => matches_listPattern hlist
  simp only [h.matches_iff hdistinct] at hmatches
  simp only [List.nodup_cons, List.mem_cons, List.not_mem_nil, or_false, not_or] at hdistinct
  -- what a match of a slot binds
  have hbound : ∀ k t i : Term, let m := [(item, t), (index, i), (slot, k), (list, head)]
      Solution.get? m index = some i ∧ Solution.get? m item = some t := by
    intro k t i m
    grind [Solution.get?_cons]
  refine ⟨fun i hi => hposition i (hvalues.length_eq ▸ hi), ?_, ?_⟩
  · intro row hrow k hk
    obtain ⟨m, hm, heq⟩ := hrows.exists_match row hrow
    rw [heq index (by simp)] at hk
    rcases (hmatches m).mp hm with ⟨i, n, t, hn, ht, rfl⟩ | ⟨rfl, -⟩
    · obtain ⟨hindex, hitem⟩ := hbound (.node n) t (positionTerm lists.origin i)
      have hi := (List.getElem?_eq_some_iff.mp ht).1
      refine ⟨i, hvalues.length_eq ▸ hi, Option.some.inj (hk.symm.trans hindex), ?_⟩
      rw [Solution.native?, heq item (by simp), hitem]
      exact native?_of_forall₂ hvalues ht
    · simp [Solution.get?_cons, hdistinct] at hk
  · intro i hi
    have hi : i < terms.length := hvalues.length_eq ▸ hi
    obtain ⟨row, hrow, heq⟩ := hrows.exists_row _ ((hmatches _).mpr (.inl ⟨i, _, _,
      List.getElem?_eq_getElem (h.length ▸ hi : i < nodes.length), List.getElem?_eq_getElem hi,
      rfl⟩))
    exact ⟨row, hrow, (heq index (by simp)).trans (hbound _ _ _).1⟩

end Graph.HasPositions

end

end Exemplar
