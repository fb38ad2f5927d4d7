import Exemplar.Proofs.Compilation.Guards
import Exemplar.Proofs.Compilation.NodeOperation

/-!
# Matches of node templates

Which assignments fill in a template for a node, stated by the triples of the graph alone, and that
the matches of the compiled patterns are these assignments. Groups of different entries share no
variables but the node, so they are matched independently of each other.
-/

namespace Exemplar

/-! ### Filling in templates -/

/-- Whether a node has what an entry requires. -/
def Request.Satisfied (g : Graph) (n : Term) (p : Iri) : Request → Prop
  | .constant c => .literal c.literal ∈ g.objects n p
  | .value => ∃ o, o ∈ g.objects n p
  | .values => True
  | .nodes _ => True

/-- Whether a node has everything that is required. -/
def NodeTemplate.Satisfied (g : Graph) (n : Term) : NodeTemplate → Prop
  | .done => True
  | .id rest => rest.Satisfied g n
  | .entry key request rest => request.Satisfied g n key.iri ∧ rest.Satisfied g n

mutual

/-- Whether an assignment fills in a template for a node. An array is filled in with one member,
or with none if there are no members. -/
def NodeTemplate.Fits (g : Graph) (μ : Assignment) : NodeTemplate → Variable → Term → Prop
  | .done, v, n => μ v = some n
  | .id rest, v, n => rest.Fits g μ v n
  | .entry key request rest, v, n =>
    request.Fits g μ (v.child key.text) n key.iri ∧ rest.Fits g μ v n

/-- Whether an assignment fills in an entry for a node. -/
def Request.Fits (g : Graph) (μ : Assignment) : Request → Variable → Term → Iri → Prop
  | .constant c, _, n, p => .literal c.literal ∈ g.objects n p
  | .value, v, n, p => ∃ o ∈ g.objects n p, μ v = some o
  | .values, v, n, p =>
    (∃ o ∈ g.objects n p, μ v = some o) ∨ ((∀ o, o ∉ g.objects n p) ∧ μ v = none)
  | .nodes member, v, n, p =>
    (∃ o ∈ g.objects n p, member.Fits g μ v o) ∨
      ((∀ o ∈ g.objects n p, ¬ member.Satisfied g o) ∧ μ v = none)

end

variable {g : Graph} {μ ν : Assignment}

/-- All values are found like all nodes of which nothing is required. -/
lemma Request.fits_values {v : Variable} {n : Term} {p : Iri} :
    values.Fits g μ v n p ↔ (nodes .done).Fits g μ v n p := by
  simp [Request.Fits, NodeTemplate.Fits, NodeTemplate.Satisfied]

lemma NodeTemplate.Fits.bound {v : Variable} {n : Term} : ∀ {t : NodeTemplate},
    t.Fits g μ v n → μ v = some n
  | .done, h => h
  | .id rest, h => Fits.bound (t := rest) h
  | .entry _ _ _, h => Fits.bound h.2

lemma NodeTemplate.Fits.satisfied {v : Variable} {n : Term} : ∀ {t : NodeTemplate},
    t.Fits g μ v n → t.Satisfied g n
  | .done, _ => trivial
  | .id rest, h => Fits.satisfied (t := rest) h
  | .entry key request rest, h => by
    refine ⟨?_, Fits.satisfied h.2⟩
    cases request with
    | constant c => exact h.1
    | value =>
      obtain ⟨o, ho, -⟩ := h.1
      exact ⟨o, ho⟩
    | values => trivial
    | nodes member => trivial

mutual

/-- Only the variables that a template uses matter. -/
lemma NodeTemplate.Fits.congr : ∀ {t : NodeTemplate} {v : Variable} {n : Term},
    (∀ x, t.Uses v x → μ x = ν x) → t.Fits g μ v n → t.Fits g ν v n
  | .done, v, _, h, hfits => (h v (.inl rfl)).symm.trans hfits
  | .id rest, _, _, h, hfits => NodeTemplate.Fits.congr (t := rest) h hfits
  | .entry _ _ _, _, _, h, hfits =>
    ⟨Request.Fits.congr (fun x hx => h x (NodeTemplate.uses_entry.mpr (.inl hx))) hfits.1,
      NodeTemplate.Fits.congr (fun x hx => h x hx.entry) hfits.2⟩

lemma Request.Fits.congr : ∀ {request : Request} {v : Variable} {n : Term} {p : Iri},
    (∀ x, x.Inside v → μ x = ν x) → request.Fits g μ v n p → request.Fits g ν v n p
  | .constant _, _, _, _, _, hfits => hfits
  | .value, v, _, _, h, hfits => by
    rw [Request.Fits, h v (.refl v)] at hfits
    exact hfits
  | .values, v, _, _, h, hfits => by
    rw [Request.Fits, h v (.refl v)] at hfits
    exact hfits
  | .nodes member, v, _, _, h, hfits => by
    rcases hfits with ⟨o, ho, hmember⟩ | ⟨hnone, hv⟩
    · exact .inl ⟨o, ho, NodeTemplate.Fits.congr (fun x hx => h x hx.inside) hmember⟩
    · exact .inr ⟨hnone, (h v (.refl v)).symm.trans hv⟩

end

/-! ### Joining assignments -/

open Classical in
/-- The assignment that is one assignment inside a variable, and another one elsewhere. -/
noncomputable def Assignment.splice (c : Variable) (μ ν : Assignment) : Assignment :=
  fun x => if x.Inside c then μ x else ν x

lemma Assignment.splice_inside {c x : Variable} (h : x.Inside c) : splice c μ ν x = μ x := by
  simp [splice, h]

lemma Assignment.splice_outside {c x : Variable} (h : ¬ x.Inside c) :
    splice c μ ν x = ν x := by
  simp [splice, h]

/-- An entry and the other entries are filled in independently of each other. -/
lemma NodeTemplate.Fits.splice {key : IriKey} {request : Request} {rest : NodeTemplate}
    {v : Variable} {n : Term} (hfresh : v.child key.text ∉ rest.children v)
    (hrequest : request.Fits g μ (v.child key.text) n key.iri) (hrest : rest.Fits g ν v n) :
    (NodeTemplate.entry key request rest).Fits g (.splice (v.child key.text) μ ν) v n := by
  constructor
  · exact hrequest.congr fun x hx => (Assignment.splice_inside hx).symm
  · exact hrest.congr fun x hx => (Assignment.splice_outside (hx.not_inside hfresh)).symm

mutual

/-- A node that has everything that is required has an assignment. -/
lemma NodeTemplate.exists_fits : ∀ (t : NodeTemplate) {v : Variable} {n : Term},
    t.Distinct v → t.Satisfied g n → ∃ μ, t.Fits g μ v n
  | .done, _, n, _, _ => ⟨fun _ => some n, rfl⟩
  | .id rest, _, _, hdistinct, h => rest.exists_fits hdistinct.2 h
  | .entry _ request rest, _, _, hdistinct, h => by
    obtain ⟨hfresh, hrequest, hrest⟩ := hdistinct
    obtain ⟨μ, hμ⟩ := request.exists_fits hrequest h.1
    obtain ⟨ν, hν⟩ := rest.exists_fits hrest h.2
    exact ⟨_, hν.splice hfresh hμ⟩

lemma Request.exists_fits : ∀ (request : Request) {v : Variable} {n : Term} {p : Iri},
    request.Distinct v → request.Satisfied g n p → ∃ μ, request.Fits g μ v n p
  | .constant _, _, _, _, _, h => ⟨fun _ => none, h⟩
  | .value, _, _, _, _, h => by
    obtain ⟨o, ho⟩ := h
    exact ⟨fun _ => some o, o, ho, rfl⟩
  | .values, _, n, p, _, _ => by
    by_cases hsome : ∃ o, o ∈ g.objects n p
    · obtain ⟨o, ho⟩ := hsome
      exact ⟨fun _ => some o, .inl ⟨o, ho, rfl⟩⟩
    · exact ⟨fun _ => none, .inr ⟨not_exists.mp hsome, rfl⟩⟩
  | .nodes member, _, n, p, hdistinct, _ => by
    by_cases hsome : ∃ o ∈ g.objects n p, member.Satisfied g o
    · obtain ⟨o, ho, hsatisfied⟩ := hsome
      obtain ⟨μ, hμ⟩ := member.exists_fits hdistinct hsatisfied
      exact ⟨μ, .inl ⟨o, ho, hμ⟩⟩
    · push Not at hsome
      exact ⟨fun _ => none, .inr ⟨hsome, rfl⟩⟩

end

/-! ### Required triple patterns -/

lemma TriplePattern.holds_link {s o : PatternTerm} {p : Iri} : (link s p o).Holds g μ ↔
    ∃ n m, s.value μ = some n ∧ o.value μ = some m ∧ m ∈ g.objects n p := by
  constructor
  · rintro ⟨t, ht, hs, hp, ho⟩
    obtain rfl : p = t.predicate := by
      cases hp
      rfl
    exact ⟨_, _, hs, ho, Graph.mem_objects.mpr ⟨t, ht, rfl, rfl, rfl⟩⟩
  · rintro ⟨n, m, hs, ho, hm⟩
    obtain ⟨t, ht, rfl, rfl, rfl⟩ := Graph.mem_objects.mp hm
    exact ⟨t, ht, hs, rfl, ho⟩

lemma IriKey.holds_link {key : IriKey} {v : Variable} : (key.link v).Holds g μ ↔
    ∃ n o, μ v = some n ∧ μ (v.child key.text) = some o ∧ o ∈ g.objects n key.iri :=
  TriplePattern.holds_link

lemma Request.Fits.holds_links {request : Request} {key : IriKey} {v : Variable} {n : Term}
    (hv : μ v = some n) (h : request.Fits g μ (v.child key.text) n key.iri) :
    ∀ p ∈ request.links v key, p.Holds g μ := by
  intro p hp
  cases request with
  | constant c =>
    obtain rfl := List.mem_singleton.mp hp
    exact TriplePattern.holds_link.mpr ⟨n, _, hv, rfl, h⟩
  | value =>
    obtain rfl := List.mem_singleton.mp hp
    obtain ⟨o, ho, hc⟩ := h
    exact IriKey.holds_link.mpr ⟨n, o, hv, hc, ho⟩
  | values => cases hp
  | nodes member => cases hp

lemma NodeTemplate.Fits.holds_links {v : Variable} {n : Term} : ∀ {t : NodeTemplate},
    t.Fits g μ v n → ∀ p ∈ t.links v, p.Holds g μ
  | .done, _ => fun p hp => by cases hp
  | .id rest, h => holds_links (t := rest) h
  | .entry _ _ _, h => fun p hp => by
    rcases List.mem_append.mp hp with hp | hp
    · exact h.1.holds_links h.2.bound p hp
    · exact holds_links h.2 p hp

lemma NodeTemplate.subject_of_mem_links {v : Variable} {p : TriplePattern} :
    ∀ {t : NodeTemplate}, p ∈ t.links v → p.subject = .variable v
  | .done, hp => by cases hp
  | .id rest, hp => subject_of_mem_links (t := rest) hp
  | .entry key request rest, hp => by
    rcases List.mem_append.mp hp with hp | hp
    · cases request with
      | constant c => rw [List.mem_singleton.mp hp, TriplePattern.link]
      | value => rw [List.mem_singleton.mp hp, IriKey.link, TriplePattern.link]
      | values => cases hp
      | nodes member => cases hp
    · exact subject_of_mem_links hp

lemma NodeTemplate.satisfied_of_links {v : Variable} {n : Term} (hv : μ v = some n) :
    ∀ {t : NodeTemplate}, (∀ p ∈ t.links v, p.Holds g μ) → t.Satisfied g n
  | .done, _ => trivial
  | .id rest, h => satisfied_of_links hv (t := rest) h
  | .entry key request rest, h => by
    refine ⟨?_, satisfied_of_links hv fun p hp => h p (List.mem_append_right _ hp)⟩
    have hlink : ∀ {o : PatternTerm}, TriplePattern.link (.variable v) key.iri o ∈
        request.links v key → ∃ m, o.value μ = some m ∧ m ∈ g.objects n key.iri := by
      intro o ho
      obtain ⟨n', m, hn', hm, hobject⟩ :=
        TriplePattern.holds_link.mp (h _ (List.mem_append_left _ ho))
      cases hv.symm.trans hn'
      exact ⟨m, hm, hobject⟩
    cases request with
    | constant c =>
      obtain ⟨m, hm, hobject⟩ := hlink List.mem_cons_self
      cases hm
      exact hobject
    | value =>
      obtain ⟨m, -, hobject⟩ := hlink List.mem_cons_self
      exact ⟨m, hobject⟩
    | values => trivial
    | nodes member => trivial

/-! ### Groups -/

/-- Binding in steps what another assignment says. -/
lemma Below.or_trans {ρ σ : Assignment} (h : Below μ ρ) (hρ : Below ρ (μ.or ν))
    (hσ : Below σ (ρ.or ν)) : Below σ (μ.or ν) := by
  intro x t ht
  have hx := hσ x t ht
  cases hρx : ρ x with
  | some u =>
    have hu : u = t := by simpa [Assignment.or, hρx] using hx
    exact hρ x t (hu ▸ hρx)
  | none =>
    have hμx : μ x = none := by
      cases hμx : μ x with
      | none => rfl
      | some u =>
        rw [h x u hμx] at hρx
        cases hρx
    rw [Assignment.or_of_none hρx] at hx
    rwa [Assignment.or_of_none hμx]

/-- A group is matched by its link, the triple patterns and the groups of its members. -/
lemma matches_group {t : TriplePattern} {links : List TriplePattern} {groups : List Pattern}
    {s s' : Solution} :
    (Operation.build { triples := t :: links, optionals := groups }).Matches g s s' ↔
      ∃ m ∈ t.solutions g s, ∃ k ∈ matchTriples g links m,
        Pattern.MatchesOptionals g groups k s' := by
  rw [Operation.matches_build]
  constructor
  · rintro ⟨k, k', hk, hk', hs'⟩
    obtain rfl : k' = k := hk'
    obtain ⟨m, hm, hk⟩ := mem_matchTriples_cons.mp hk
    exact ⟨m, hm, k', hk, hs'⟩
  · rintro ⟨m, hm, k, hk, hs'⟩
    exact ⟨k, k, mem_matchTriples_cons.mpr ⟨m, hm, hk⟩, rfl, hs'⟩

/-- What is not bound before the groups of a node are matched. -/
def Unbound (groups : List Pattern) (v : Variable) (s : Solution) : Prop :=
  ∀ x ∈ groups.flatMap Pattern.mentioned, x ≠ v → s.get? x = none

section

variable {key : IriKey} {request : Request} {member rest : NodeTemplate} {v : Variable}
  {s m k : Solution}

lemma Unbound.left (h : Unbound ((NodeTemplate.entry key request rest).groups v) v s) :
    Unbound (request.groups v key) v s := fun x hx =>
  h x (by rw [NodeTemplate.groups, List.flatMap_append]; exact List.mem_append_left _ hx)

/-- The groups of one entry do not bind what the groups of others do. -/
lemma Unbound.right (h : Unbound ((NodeTemplate.entry key request rest).groups v) v s)
    (hfresh : v.child key.text ∉ rest.children v)
    (hm : ExtendsBy ((request.groups v key).flatMap Pattern.mentioned) s m) :
    Unbound (rest.groups v) v m := by
  intro x hx hne
  refine hm.get?_eq_none (fun hmem => ?_) (h x ?_ hne)
  · rcases request.uses_of_mem_groups hmem with heq | hinside
    · exact hne heq
    · exact (rest.uses_of_mem_groups hx).not_inside hfresh hinside
  · rw [NodeTemplate.groups, List.flatMap_append]
    exact List.mem_append_right _ hx

/-- The link and the required patterns of a member do not bind what its groups do. -/
lemma Unbound.of_member (h : Unbound ((Request.nodes member).groups v key) v s)
    (hdistinct : member.Distinct (v.child key.text)) (hm : m ∈ (key.link v).solutions g s)
    (hk : k ∈ matchTriples g (member.links (v.child key.text)) m) :
    Unbound (member.groups (v.child key.text)) (v.child key.text) k := by
  intro x hx hne
  have hv : x ≠ v := Variable.ne_of_inside_child (member.uses_of_mem_groups hx).inside
  have hs := h x (Request.mem_groups_nodes.mpr (.inr (.inr hx))) hv
  have hmx := (TriplePattern.solutions_spec hm).1.get?_eq_none (fun hlink => ?_) hs
  · exact (matchTriples_spec hk).1.get?_eq_none (member.notMem_links hne hdistinct hx) hmx
  · rcases IriKey.mem_vars_link hlink with heq | heq
    · exact hv heq
    · exact hne heq

end

/-- The group of an array of nodes. -/
abbrev memberGroup (member : NodeTemplate) (v : Variable) (key : IriKey) : Pattern :=
  Operation.build
    { triples := key.link v :: member.links (v.child key.text)
      optionals := member.groups (v.child key.text) }

section

variable {key : IriKey} {member : NodeTemplate} {v : Variable} {n o : Term} {s s' : Solution}

/-- A match of a group has a member with everything that is required. -/
lemma memberGroup_matches (h : (memberGroup member v key).Matches g s s')
    (hv : s.get? v = some n) :
    ∃ m ∈ (key.link v).solutions g s, ∃ k ∈ matchTriples g (member.links (v.child key.text)) m,
      Pattern.MatchesOptionals g (member.groups (v.child key.text)) k s' ∧
      (∀ p ∈ member.links (v.child key.text), p.Holds g k.get?) ∧
      ∃ o ∈ g.objects n key.iri, k.get? (v.child key.text) = some o := by
  obtain ⟨m, hm, k, hk, hs'⟩ := matches_group.mp h
  obtain ⟨hsm, hlink⟩ := TriplePattern.solutions_spec hm
  obtain ⟨hmk, hlinks⟩ := matchTriples_spec hk
  obtain ⟨n', o, hn', ho, hobject⟩ := IriKey.holds_link.mp hlink
  obtain rfl : n = n' := Option.some.inj ((hsm.1 v n hv).symm.trans hn')
  exact ⟨m, hm, k, hk, hs', hlinks, o, hobject, hmk.1 _ _ ho⟩

lemma Unbound.child (h : Unbound ((Request.nodes member).groups v key) v s) :
    s.get? (v.child key.text) = none := by
  refine h _ (Request.mem_groups_nodes.mpr (.inl ?_))
    (Variable.ne_of_inside_child (.refl (v.child key.text)))
  simp [IriKey.link, TriplePattern.link, TriplePattern.vars, PatternTerm.vars]

/-! ### Completeness -/

/-- What fits a node binds nothing but the groups of the node can be matched to. -/
def NodeTemplate.Complete (g : Graph) (μ : Assignment) (t : NodeTemplate) (v : Variable) : Prop :=
  ∀ (n : Term) (s : Solution), s.get? v = some n → Unbound (t.groups v) v s → t.Fits g μ v n →
    ∃ s', Pattern.MatchesOptionals g (t.groups v) s s' ∧ Below s'.get? (Assignment.or s.get? μ)

lemma exists_memberGroup_matches (hg : g.Indexed) (hdistinct : member.Distinct (v.child key.text))
    (hcomplete : member.Complete g μ (v.child key.text)) (hv : s.get? v = some n)
    (hs : Unbound ((Request.nodes member).groups v key) v s) (ho : o ∈ g.objects n key.iri)
    (hfits : member.Fits g μ (v.child key.text) o) :
    ∃ s', (memberGroup member v key).Matches g s s' ∧
      Below s'.get? (Assignment.or s.get? μ) := by
  have hor : Assignment.or s.get? μ (v.child key.text) = some o := by
    rw [Assignment.or_of_none hs.child]
    exact hfits.bound
  have hlink : (key.link v).Holds g (Assignment.or s.get? μ) :=
    IriKey.holds_link.mpr ⟨n, o, Below.or_left _ _ v n hv, hor, ho⟩
  have hbound : s.resolve? (key.link v).subject = some n := hv
  obtain ⟨m, hm, hbelow⟩ := TriplePattern.exists_mem_solutions hg (Below.or_left _ _)
    (fun hnone => absurd (hbound.symm.trans hnone) (by simp)) hlink
  obtain ⟨n', o', -, ho', -⟩ := IriKey.holds_link.mp (TriplePattern.solutions_spec hm).2
  obtain rfl : o = o' := Option.some.inj (hor.symm.trans (hbelow _ _ ho'))
  -- the variables of the member are not bound yet, so its triple patterns hold as it fits
  have hlinks : ∀ p ∈ member.links (v.child key.text), p.Holds g (Assignment.or s.get? μ) := by
    intro p hp
    refine (hfits.holds_links p hp).congr fun x hx => ?_
    have hmem : x ∈ (member.links (v.child key.text)).flatMap TriplePattern.vars :=
      List.mem_flatMap.mpr ⟨p, hp, hx⟩
    refine (Assignment.or_of_none (hs x (Request.mem_groups_nodes.mpr (.inr (.inl hmem))) ?_)).symm
    exact Variable.ne_of_inside_child (NodeTemplate.uses_of_mem_links hmem).inside
  obtain ⟨k, hk, hbelow'⟩ := exists_mem_matchTriples hg
    (fun _ => NodeTemplate.subject_of_mem_links) hbelow
    (fun hnone => absurd (ho'.symm.trans hnone) (by simp)) hlinks
  have hsk : Below s.get? k.get? :=
    (TriplePattern.solutions_spec hm).1.1.trans (matchTriples_spec hk).1.1
  obtain ⟨s', hs', hbelow''⟩ := hcomplete o k ((matchTriples_spec hk).1.1 _ _ ho')
    (hs.of_member hdistinct hm hk) hfits
  exact ⟨s', matches_group.mpr ⟨m, hm, k, hk, hs'⟩, hsk.or_trans hbelow' hbelow''⟩

lemma exists_matches_nodes (hg : g.Indexed) (hdistinct : member.Distinct (v.child key.text))
    (hcomplete : member.Complete g μ (v.child key.text)) (hv : s.get? v = some n)
    (hs : Unbound ((Request.nodes member).groups v key) v s)
    (hfits : (Request.nodes member).Fits g μ (v.child key.text) n key.iri) :
    ∃ s', Pattern.MatchesOptionals g ((Request.nodes member).groups v key) s s' ∧
      Below s'.get? (Assignment.or s.get? μ) := by
  rcases hfits with ⟨o, ho, hfits⟩ | ⟨hnone, -⟩
  · obtain ⟨s', hmatch, hbelow⟩ := exists_memberGroup_matches hg hdistinct hcomplete hv hs ho hfits
    exact ⟨s', ⟨s', .inl hmatch, rfl⟩, hbelow⟩
  · refine ⟨s, ⟨s, .inr ⟨rfl, fun s' hmatch => ?_⟩, rfl⟩, Below.or_left _ _⟩
    obtain ⟨m, -, k, -, -, hlinks, o, ho, hk⟩ := memberGroup_matches hmatch hv
    exact hnone o ho (NodeTemplate.satisfied_of_links hk hlinks)

end

mutual

/-- Every assignment that fits is found. -/
theorem NodeTemplate.complete (hg : g.Indexed) : ∀ (t : NodeTemplate) {v : Variable},
    t.Distinct v → t.Complete g μ v
  | .done, _, _ => fun _ s _ _ _ => ⟨s, rfl, Below.or_left _ _⟩
  | .id rest, _, hdistinct => rest.complete hg hdistinct.2
  | .entry key request rest, v, hdistinct => by
    intro n s hv hs hfits
    obtain ⟨hfresh, hrequest, hrest⟩ := hdistinct
    obtain ⟨m, hm, hbelow⟩ := request.exists_matches hg hrequest hv hs.left hfits.1
    obtain ⟨s', hs', hbelow'⟩ := rest.complete hg hrest n m (hm.extendsBy.1 v n hv)
      (hs.right hfresh hm.extendsBy) hfits.2
    exact ⟨s', Pattern.matchesOptionals_append.mpr ⟨m, hm, hs'⟩,
      hm.extendsBy.1.or_trans hbelow hbelow'⟩

lemma Request.exists_matches (hg : g.Indexed) : ∀ (request : Request) {key : IriKey}
    {v : Variable} {n : Term} {s : Solution}, request.Distinct (v.child key.text) →
    s.get? v = some n → Unbound (request.groups v key) v s →
    request.Fits g μ (v.child key.text) n key.iri →
    ∃ s', Pattern.MatchesOptionals g (request.groups v key) s s' ∧
      Below s'.get? (Assignment.or s.get? μ)
  | .constant _, _, _, _, s, _, _, _, _ => ⟨s, rfl, Below.or_left _ _⟩
  | .value, _, _, _, s, _, _, _, _ => ⟨s, rfl, Below.or_left _ _⟩
  | .values, _, _, _, _, _, hv, hs, hfits =>
    exists_matches_nodes hg (NodeTemplate.distinct_done _)
      (fun _ s _ _ _ => ⟨s, rfl, Below.or_left _ _⟩) hv hs (Request.fits_values.mp hfits)
  | .nodes member, _, _, _, _, hdistinct, hv, hs, hfits =>
    exists_matches_nodes hg hdistinct (member.complete hg hdistinct) hv hs hfits

end

/-! ### Soundness -/

lemma fits_of_matches_nodes (hg : g.Indexed) {key : IriKey} {member : NodeTemplate} {v : Variable}
    {n : Term} {s s' : Solution} (hdistinct : member.Distinct (v.child key.text))
    (hsound : ∀ o k, k.get? (v.child key.text) = some o →
      (∀ p ∈ member.links (v.child key.text), p.Holds g k.get?) →
      Unbound (member.groups (v.child key.text)) (v.child key.text) k →
      Pattern.MatchesOptionals g (member.groups (v.child key.text)) k s' →
      member.Fits g s'.get? (v.child key.text) o)
    (hv : s.get? v = some n) (hs : Unbound ((Request.nodes member).groups v key) v s)
    (h : Pattern.MatchesOptionals g ((Request.nodes member).groups v key) s s') :
    (Request.nodes member).Fits g s'.get? (v.child key.text) n key.iri := by
  obtain ⟨m, hmatch, rfl⟩ := h
  rcases hmatch with hmatch | ⟨rfl, hnone⟩
  · obtain ⟨m, hm, k, hk, hs', hlinks, o, ho, hchild⟩ := memberGroup_matches hmatch hv
    exact .inl ⟨o, ho, hsound o k hchild hlinks (hs.of_member hdistinct hm hk) hs'⟩
  · refine .inr ⟨fun o ho hsatisfied => ?_, hs.child⟩
    obtain ⟨μ, hμ⟩ := member.exists_fits hdistinct hsatisfied
    obtain ⟨s', hmatch, -⟩ := exists_memberGroup_matches hg hdistinct
      (member.complete hg hdistinct) hv hs ho hμ
    exact hnone s' hmatch

mutual

/-- Every match of a node fits. -/
theorem NodeTemplate.fits_of_matches (hg : g.Indexed) : ∀ (t : NodeTemplate) {v : Variable}
    {n : Term} {s s' : Solution}, t.Distinct v → s.get? v = some n →
    (∀ p ∈ t.links v, p.Holds g s.get?) → Unbound (t.groups v) v s →
    Pattern.MatchesOptionals g (t.groups v) s s' → t.Fits g s'.get? v n
  | .done, _, _, _, _, _, hv, _, _, h => by
    cases h
    exact hv
  | .id rest, _, _, _, _, hdistinct, hv, hlinks, hs, h =>
    rest.fits_of_matches hg hdistinct.2 hv hlinks hs h
  | .entry key request rest, v, n, s, s', hdistinct, hv, hlinks, hs, h => by
    obtain ⟨hfresh, hrequest, hrest⟩ := hdistinct
    obtain ⟨m, hm, hs'⟩ := Pattern.matchesOptionals_append.mp h
    constructor
    · have hfits := request.fits_of_matches hg hrequest hv
        (fun p hp => hlinks p (List.mem_append_left _ hp)) hs.left hm
      -- the groups of the other entries do not change the value of this one
      refine hfits.congr fun x hx => (hs'.extendsBy.get?_eq fun hmem => ?_).symm
      exact (rest.uses_of_mem_groups hmem).not_inside hfresh hx
    · exact rest.fits_of_matches hg hrest (hm.extendsBy.1 v n hv)
        (fun p hp => (hlinks p (List.mem_append_right _ hp)).mono hm.extendsBy.1)
        (hs.right hfresh hm.extendsBy) hs'

lemma Request.fits_of_matches (hg : g.Indexed) : ∀ (request : Request) {key : IriKey}
    {v : Variable} {n : Term} {s s' : Solution}, request.Distinct (v.child key.text) →
    s.get? v = some n → (∀ p ∈ request.links v key, p.Holds g s.get?) →
    Unbound (request.groups v key) v s →
    Pattern.MatchesOptionals g (request.groups v key) s s' →
    request.Fits g s'.get? (v.child key.text) n key.iri
  | .constant c, key, v, n, s, _, _, hv, hlinks, _, h => by
    cases h
    obtain ⟨n', m, hn', hm, hobject⟩ :=
      TriplePattern.holds_link.mp (hlinks _ List.mem_cons_self)
    cases hv.symm.trans hn'
    cases hm
    exact hobject
  | .value, key, v, n, s, _, _, hv, hlinks, _, h => by
    cases h
    obtain ⟨n', o, hn', ho, hobject⟩ := IriKey.holds_link.mp (hlinks _ List.mem_cons_self)
    cases hv.symm.trans hn'
    exact ⟨o, hobject, ho⟩
  | .values, _, _, _, _, s', _, hv, _, hs, h =>
    Request.fits_values.mpr (fits_of_matches_nodes hg (NodeTemplate.distinct_done _)
      (fun o k hk _ _ h => by cases h; exact hk) hv hs h)
  | .nodes member, _, _, _, _, _, hdistinct, hv, _, hs, h =>
    fits_of_matches_nodes hg hdistinct (fun o k hk hlinks hunbound h =>
      member.fits_of_matches hg hdistinct hk hlinks hunbound h) hv hs h

end

end Exemplar
