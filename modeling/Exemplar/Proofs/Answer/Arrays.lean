import Exemplar.Proofs.Algebra.NodeMatches
import Exemplar.Proofs.Answer.Rows
import Exemplar.Proofs.Template.Completion

/-!
# Answers to arrays of nodes

An array of nodes is answered with one member for each node that has everything that the template
requires, and what it says of a node is read off the triples of that node. This holds at every
depth, as the rows of a member are again all ways to fill in the template of the member.
-/

namespace Exemplar

/-! ### Answers -/

mutual

/-- Whether entries are the answer to a template for a node. -/
def NodeTemplate.Answers (g : Graph) : NodeTemplate → Term → Entries → Prop
  | .done, _, as => as = []
  | .id rest, n, as =>
    ∃ iri as', as = ("@id", .string iri.text) :: as' ∧ n = .iri iri ∧ rest.Answers g n as'
  | .entry key request rest, n, as =>
    ∃ d as', as = (key.text, d) :: as' ∧ request.Answers g n key.iri d ∧ rest.Answers g n as'

/-- Whether a value is the answer to an entry for a node. -/
def Request.Answers (g : Graph) : Request → Term → Iri → Json → Prop
  | .constant c, _, _, d => d = c.value
  | .value, n, p, d => ∃ o ∈ g.objects n p, o.native? = some d
  | .values, n, p, d => OneEach (· ∈ g.objects n p) (fun o d => o.native? = some d) d
  | .nodes member, n, p, d =>
    OneEach (fun o => o ∈ g.objects n p ∧ member.Satisfied g o)
      (fun o d => ∃ as, d = .object as ∧ member.Answers g o as) d

end

/-! ### Rows -/

/-- Whether rows are all ways to fill in a template for a node, as far as the variables of the
template are concerned. -/
structure NodeTemplate.Covered (g : Graph) (t : NodeTemplate) (v : Variable) (n : Term)
    (rows : List Solution) : Prop where
  nonempty : ∃ r, r ∈ rows
  fits (r : Solution) (h : r ∈ rows) : t.Fits g r.get? v n
  complete (μ : Assignment) (h : t.Fits g μ v n) :
    ∃ r ∈ rows, ∀ x o, t.Uses v x → r.get? x = some o → μ x = some o

/-- Whether rows are all ways to fill in an entry for a node. -/
structure Request.Covered (g : Graph) (request : Request) (v : Variable) (n : Term) (p : Iri)
    (rows : List Solution) : Prop where
  nonempty : ∃ r, r ∈ rows
  fits (r : Solution) (h : r ∈ rows) : request.Fits g r.get? v n p
  complete (μ : Assignment) (h : request.Fits g μ v n p) :
    ∃ r ∈ rows, ∀ x o, x.Inside v → r.get? x = some o → μ x = some o

section

variable {g : Graph} {key : IriKey} {request : Request} {rest member : NodeTemplate}
  {v : Variable} {n k : Term} {p : Iri} {rows : List Solution}

lemma NodeTemplate.Covered.tail (h : (NodeTemplate.entry key request rest).Covered g v n rows)
    (hfresh : v.child key.text ∉ rest.children v) : rest.Covered g v n rows := by
  refine ⟨h.nonempty, fun r hr => (h.fits r hr).2, fun μ hμ => ?_⟩
  obtain ⟨r₀, hr₀⟩ := h.nonempty
  obtain ⟨r, hr, hbelow⟩ := h.complete _ (hμ.splice hfresh (h.fits r₀ hr₀).1)
  refine ⟨r, hr, fun x o hx ho => ?_⟩
  rw [← hbelow x o hx.entry ho, Assignment.splice_outside (hx.not_inside hfresh)]

lemma NodeTemplate.Covered.head (h : (NodeTemplate.entry key request rest).Covered g v n rows)
    (hfresh : v.child key.text ∉ rest.children v) :
    request.Covered g (v.child key.text) n key.iri rows := by
  refine ⟨h.nonempty, fun r hr => (h.fits r hr).1, fun μ hμ => ?_⟩
  obtain ⟨r₀, hr₀⟩ := h.nonempty
  obtain ⟨r, hr, hbelow⟩ := h.complete _ ((h.fits r₀ hr₀).2.splice hfresh hμ)
  refine ⟨r, hr, fun x o hx ho => ?_⟩
  rw [← hbelow x o (NodeTemplate.uses_entry.mpr (.inl hx)) ho, Assignment.splice_inside hx]

lemma NodeTemplate.Covered.id (h : (NodeTemplate.id rest).Covered g v n rows) :
    rest.Covered g v n rows :=
  ⟨h.nonempty, h.fits, h.complete⟩

/-- A member of an array that fits has a row that binds it. -/
lemma Request.Covered.exists_row {μ : Assignment} (h : (nodes member).Covered g v n p rows)
    (hk : k ∈ g.objects n p) (hμ : member.Fits g μ v k) :
    ∃ r ∈ rows, r.get? v = some k ∧ ∀ x o, x.Inside v → r.get? x = some o → μ x = some o := by
  obtain ⟨r, hr, hbelow⟩ := h.complete μ (.inl ⟨k, hk, hμ⟩)
  refine ⟨r, hr, ?_, hbelow⟩
  rcases h.fits r hr with ⟨o, -, hfits⟩ | ⟨hnone, -⟩
  · have ho := hbelow v o (.refl v) hfits.bound
    rw [hfits.bound, ← ho, hμ.bound]
  · exact absurd hμ.satisfied (hnone k hk)

/-- The rows of a member of an array are all ways to fill in the member. -/
lemma Request.Covered.group (h : (nodes member).Covered g v n p rows) {r : Solution}
    (hr : r ∈ rows) (hk : r.get? v = some k) :
    (k ∈ g.objects n p ∧ member.Satisfied g k) ∧
      member.Covered g v k (Exemplar.group (·.get? v) k rows) := by
  have hfits : ∀ s ∈ rows, s.get? v = some k → k ∈ g.objects n p ∧ member.Fits g s.get? v k := by
    intro s hs hsk
    rcases h.fits s hs with ⟨o, ho, hfits⟩ | ⟨-, hnone⟩
    · cases hsk.symm.trans hfits.bound
      exact ⟨ho, hfits⟩
    · cases hsk.symm.trans hnone
  obtain ⟨hobject, hrfits⟩ := hfits r hr hk
  refine ⟨⟨hobject, hrfits.satisfied⟩, ⟨r, mem_group.mpr ⟨hr, hk⟩⟩, fun s hs => ?_, fun μ hμ => ?_⟩
  · obtain ⟨hs, hsk⟩ := mem_group.mp hs
    exact (hfits s hs hsk).2
  · obtain ⟨s, hs, hsk, hbelow⟩ := h.exists_row hobject hμ
    exact ⟨s, mem_group.mpr ⟨hs, hsk⟩, fun x o hx => hbelow x o hx.inside⟩

/-- All values are covered like all nodes of which nothing is required. -/
lemma Request.Covered.of_values (h : values.Covered g v n p rows) :
    (nodes .done).Covered g v n p rows :=
  ⟨h.nonempty, fun r hr => fits_values.mp (h.fits r hr),
    fun μ hμ => h.complete μ (fits_values.mpr hμ)⟩

end

/-! ### Complete answers -/

/-- An entry with a variable of its own has a key of its own. -/
lemma NodeTemplate.notMem_keys {key : IriKey} {v : Variable} : ∀ {t : NodeTemplate},
    v.child key.text ∉ t.children v → key.text ∉ t.keys
  | .done, _ => fun h => by cases h
  | .id rest, hfresh => fun h => by
    rcases List.mem_cons.mp h with heq | h
    · exact key.ne_id heq
    · exact notMem_keys (t := rest) hfresh h
  | .entry key' _ rest, hfresh => fun h => by
    rw [NodeTemplate.children, List.mem_cons, not_or] at hfresh
    rcases List.mem_cons.mp h with heq | h
    · exact hfresh.1 (congrArg v.child heq)
    · exact notMem_keys hfresh.2 h

/-- A set of nodes is complete if the rows of each member are covered. -/
lemma completes_nodes {g : Graph} {member : NodeTemplate} {v : Variable} {rows : List Solution}
    {admitted : Term → Prop}
    (hmember : ∀ k, (∃ s ∈ rows, s.get? v = some k) →
      Template.EntriesComplete (member.shape v) (group (·.get? v) k rows) (member.Answers g k))
    (hadmitted : ∀ k, (∃ s ∈ rows, s.get? v = some k) ↔ admitted k) :
    (Template.set v (.object none (member.shape v))).Completes rows
      (OneEach admitted fun k d => ∃ as, d = .object as ∧ member.Answers g k as) :=
  (Template.completes_set fun k hk => Template.completes_object (hmember k hk)).imp
    fun _ h => h.imp hadmitted fun _ _ _ h => h

lemma Request.Covered.admitted_iff {g : Graph} {member : NodeTemplate} {v : Variable} {n : Term}
    {p : Iri} {rows : List Solution} (h : (nodes member).Covered g v n p rows)
    (hdistinct : member.Distinct v) (k : Term) :
    (∃ s ∈ rows, s.get? v = some k) ↔ k ∈ g.objects n p ∧ member.Satisfied g k := by
  constructor
  · rintro ⟨s, hs, hk⟩
    exact (h.group hs hk).1
  · rintro ⟨hk, hsatisfied⟩
    obtain ⟨μ, hμ⟩ := member.exists_fits hdistinct hsatisfied
    obtain ⟨r, hr, hrk, -⟩ := h.exists_row hk hμ
    exact ⟨r, hr, hrk⟩

mutual

/-- Rows that are all ways to fill in a template for a node give its answer. -/
theorem NodeTemplate.complete_answers {g : Graph} : ∀ (t : NodeTemplate) {v : Variable} {n : Term}
    {rows : List Solution}, t.Distinct v → t.Covered g v n rows →
    Template.EntriesComplete (t.shape v) rows (t.Answers g n)
  | .done, _, _, rows, _, _ => Template.entriesComplete_nil rows
  | .id rest, v, n, rows, hdistinct, h => by
    obtain ⟨r, hr⟩ := h.nonempty
    have hname := Template.completes_name .empty .base hr
      (NodeTemplate.Fits.bound (h.fits r hr))
    refine (Template.entriesComplete_cons ?_ hname
      (rest.complete_answers hdistinct.2 h.id)).imp ?_
    · rw [rest.keys_shape]
      exact hdistinct.1
    · rintro as ⟨d, as', rfl, ⟨iri, ⟨s, hs, hiri⟩, rfl⟩, hrest⟩
      refine ⟨iri, as', by rw [Context.compact_empty]; rfl, ?_, hrest⟩
      exact Option.some.inj ((NodeTemplate.Fits.bound (h.fits s hs)).symm.trans hiri)
  | .entry key request rest, v, n, rows, hdistinct, h => by
    obtain ⟨hfresh, hrequest, hrest⟩ := hdistinct
    have hkey : key.text ∉ (rest.shape v).map Prod.fst := by
      rw [rest.keys_shape]
      exact NodeTemplate.notMem_keys hfresh
    exact Template.entriesComplete_cons hkey (request.completes hrequest (h.head hfresh))
      (rest.complete_answers hrest (h.tail hfresh))

lemma Request.completes {g : Graph} : ∀ (request : Request) {v : Variable} {n : Term} {p : Iri}
    {rows : List Solution}, request.Distinct v → request.Covered g v n p rows →
    (request.fragment v).template.Completes rows (request.Answers g n p)
  | .constant c, _, _, _, rows, _, _ => Template.completes_constant c.value rows
  | .value, v, n, p, rows, _, h => by
    obtain ⟨r, hr⟩ := h.nonempty
    obtain ⟨o, -, ho⟩ := h.fits r hr
    refine (Template.completes_native hr ho).imp ?_
    rintro d ⟨t, ⟨s, hs, ht⟩, hd⟩
    obtain ⟨o', ho', hbound⟩ := h.fits s hs
    cases ht.symm.trans hbound
    exact ⟨t, ho', hd⟩
  | .values, v, n, p, rows, _, h => by
    refine (Template.completes_set (P := fun k d => k.native? = some d) fun k hk => ?_).imp
      fun d hd => hd.imp (fun k => ?_) fun _ _ _ h => h
    · obtain ⟨s, hs, hsk⟩ := hk
      refine (Template.completes_native (mem_group.mpr ⟨hs, hsk⟩) hsk).imp ?_
      rintro d ⟨t, ⟨s', hs', ht⟩, hd⟩
      cases ht.symm.trans (mem_group.mp hs').2
      exact hd
    · rw [h.of_values.admitted_iff trivial k]
      exact and_iff_left trivial
  | .nodes member, v, n, p, rows, hdistinct, h => by
    refine completes_nodes (fun k hk => ?_) (h.admitted_iff hdistinct)
    obtain ⟨s, hs, hsk⟩ := hk
    exact member.complete_answers hdistinct (h.group hs hsk).2

end

/-! ### Whole answers -/

/-- Whether an entry requires something of the node. -/
def Request.isRequired : Request → Bool
  | .constant _ => true
  | .value => true
  | .values => false
  | .nodes _ => false

/-- Whether something is required of the node. -/
def NodeTemplate.hasRequired : NodeTemplate → Bool
  | .done => false
  | .id rest => rest.hasRequired
  | .entry _ request rest => request.isRequired || rest.hasRequired

lemma NodeTemplate.exists_mem_links (v : Variable) : ∀ {t : NodeTemplate}, t.hasRequired →
    ∃ p, p ∈ t.links v
  | .done, h => by cases h
  | .id rest, h => exists_mem_links v (t := rest) h
  | .entry key request rest, h => by
    rw [NodeTemplate.hasRequired, Bool.or_eq_true] at h
    rcases h with h | h
    · cases request with
      | constant c => exact ⟨_, List.mem_cons_self⟩
      | value => exact ⟨_, List.mem_cons_self⟩
      | values => cases h
      | nodes member => cases h
    · obtain ⟨p, hp⟩ := exists_mem_links v h
      exact ⟨p, List.mem_append_right _ hp⟩

/-- The objects of the required triple patterns are literals, or not bound yet. -/
lemma NodeTemplate.isIndexed_of_mem_links {v : Variable} {p : TriplePattern} {u : Term} :
    ∀ {t : NodeTemplate}, p ∈ t.links v → Solution.resolve? [] p.object = some u →
      Graph.isIndexed u
  | .done, hp, _ => by cases hp
  | .id rest, hp, hu => isIndexed_of_mem_links (t := rest) hp hu
  | .entry key request rest, hp, hu => by
    rcases List.mem_append.mp hp with hp | hp
    · cases request with
      | constant c =>
        obtain rfl := List.mem_singleton.mp hp
        cases hu
        rfl
      | value =>
        obtain rfl := List.mem_singleton.mp hp
        cases hu
      | values => cases hp
      | nodes member => cases hp
    · exact isIndexed_of_mem_links hp hu

section

variable {g : Graph} (hg : g.Indexed) {t : NodeTemplate} {v : Variable}
  (hrequired : t.hasRequired) (hdistinct : t.Distinct v)

include hrequired in
lemma NodeTemplate.bound_of_links {s : Solution} (h : ∀ p ∈ t.links v, p.Holds g s.get?) :
    ∃ n, s.get? v = some n := by
  obtain ⟨p, hp⟩ := exists_mem_links v hrequired
  obtain ⟨u, -, hsubject, -⟩ := h p hp
  rw [subject_of_mem_links hp] at hsubject
  exact ⟨_, hsubject⟩

include hg hrequired hdistinct

/-- A match of an array of nodes fits the node that it binds. -/
lemma fits_of_matches_array {s : Solution} {k : Term}
    (h : ((Request.nodes t).fragment v).operation.toPattern.Matches g [] s)
    (hk : s.get? v = some k) : t.Fits g s.get? v k := by
  rw [Request.operation_nodes] at h
  rcases Operation.matches_toPattern h with h | rfl
  · obtain ⟨m, m', hm, hm', hs⟩ := Operation.matches_build.mp h
    obtain rfl : m' = m := hm'
    obtain ⟨hext, hlinks⟩ := matchTriples_spec hm
    obtain ⟨n, hn⟩ := NodeTemplate.bound_of_links hrequired hlinks
    obtain rfl : n = k := Option.some.inj ((hs.extendsBy.1 v n hn).symm.trans hk)
    refine t.fits_of_matches hg hdistinct hn hlinks (fun x hx hne => ?_) hs
    exact hext.get?_eq_none (t.notMem_links hne hdistinct hx) rfl
  · cases hk

/-- What fits a node is a match of the array of nodes. -/
lemma exists_matches_array {μ : Assignment} {k : Term} (hμ : t.Fits g μ v k) :
    ∃ s, ((Request.nodes t).fragment v).operation.toPattern.Matches g [] s ∧
      s.get? v = some k ∧ Below s.get? μ := by
  obtain ⟨m, hm, hbelow⟩ := exists_mem_matchTriples (s := []) hg
    (fun _ => NodeTemplate.subject_of_mem_links) (fun x o h => by cases h)
    (fun _ _ hp _ => NodeTemplate.isIndexed_of_mem_links hp) hμ.holds_links
  obtain ⟨hext, hlinks⟩ := matchTriples_spec hm
  obtain ⟨n, hn⟩ := NodeTemplate.bound_of_links hrequired hlinks
  obtain rfl : n = k := Option.some.inj ((hbelow v n hn).symm.trans hμ.bound)
  obtain ⟨s, hs, hbelow'⟩ := t.complete hg hdistinct n m hn
    (fun x hx hne => hext.get?_eq_none (t.notMem_links hne hdistinct hx) rfl) hμ
  have hmatch : (Operation.build
      { triples := t.links v, optionals := t.groups v, isOptional := true }).Matches g [] s :=
    Operation.matches_build.mpr ⟨m, m, hm, rfl, hs⟩
  refine ⟨s, ?_, hs.extendsBy.1 v n hn, fun x o hx => ?_⟩
  · rw [Request.operation_nodes]
    obtain ⟨p, hp⟩ := NodeTemplate.exists_mem_links v hrequired
    refine (Operation.matches_toPattern_iff rfl ?_).mpr (.inl hmatch)
    simp [Operation.isEmpty, List.ne_nil_of_mem hp]
  · have hor := hbelow' x o hx
    cases hm : m.get? x with
    | some u =>
      rw [Assignment.or, hm, Option.some_or] at hor
      cases hor
      exact hbelow x _ hm
    | none => rwa [Assignment.or_of_none hm] at hor

/-- The rows of a member are all ways to fill in the template, and every node that has what is
required is a member. -/
lemma covered_of_matches {rows : List Solution}
    (hrows : ∀ r ∈ rows, ∃ s, ((Request.nodes t).fragment v).operation.toPattern.Matches g [] s ∧
      r.get? = s.get?)
    (hmatches : ∀ s, ((Request.nodes t).fragment v).operation.toPattern.Matches g [] s →
      ∃ r ∈ rows, r.get? = s.get?) (k : Term) :
    ((∃ r ∈ rows, r.get? v = some k) → t.Covered g v k (group (·.get? v) k rows)) ∧
      ((∃ r ∈ rows, r.get? v = some k) ↔ t.Satisfied g k) := by
  have hfits : ∀ r ∈ rows, r.get? v = some k → t.Fits g r.get? v k := by
    intro r hr hk
    obtain ⟨s, hs, heq⟩ := hrows r hr
    rw [heq] at hk ⊢
    exact fits_of_matches_array hg hrequired hdistinct hs hk
  have hfind : ∀ μ : Assignment, t.Fits g μ v k →
      ∃ r ∈ rows, r.get? v = some k ∧ Below r.get? μ := by
    intro μ hμ
    obtain ⟨s, hs, hsk, hbelow⟩ := exists_matches_array hg hrequired hdistinct hμ
    obtain ⟨r, hr, heq⟩ := hmatches s hs
    exact ⟨r, hr, by rwa [heq], by rwa [heq]⟩
  constructor
  · rintro ⟨r, hr, hk⟩
    refine ⟨⟨r, mem_group.mpr ⟨hr, hk⟩⟩, fun s hs => ?_, fun μ hμ => ?_⟩
    · exact hfits s (mem_group.mp hs).1 (mem_group.mp hs).2
    · obtain ⟨s, hs, hsk, hbelow⟩ := hfind μ hμ
      exact ⟨s, mem_group.mpr ⟨hs, hsk⟩, fun x o _ => hbelow x o⟩
  · constructor
    · rintro ⟨r, hr, hk⟩
      exact (hfits r hr hk).satisfied
    · intro hsatisfied
      obtain ⟨μ, hμ⟩ := t.exists_fits hdistinct hsatisfied
      obtain ⟨r, hr, hk, -⟩ := hfind μ hμ
      exact ⟨r, hr, hk⟩

end

/-- All variables of an array of nodes are projected, so its solutions are its matches. -/
lemma get?_eq_of_rowOf {g : Graph} {t : NodeTemplate} {v : Variable} {m s : Solution}
    (hm : ((Request.nodes t).fragment v).operation.toPattern.Matches g [] m)
    (hs : RowOf ((Request.nodes t).fragment v).toQuery.projections m s) : s.get? = m.get? := by
  funext x
  rw [hs x]
  split
  · rfl
  · next hx =>
    refine (hm.extendsBy.get?_eq_none (fun hmem => hx ?_) rfl).symm
    refine List.mem_filter.mpr ⟨?_, by simpa using hmem⟩
    exact Request.mem_projections_nodes (Operation.mem_mentioned_toPattern.mp hmem)

/-- An array of nodes of which something is required is answered with one member for each node that
has everything that is required, if no triple is about the last blank node. The solutions may be
delivered in any order: an answer to them in this order is such an array. -/
theorem nodes_answered {t : NodeTemplate} {q : Query} {g : Graph} {source : Source} {r : Response}
    (hrequired : t.hasRequired)
    (hq : Grammar.standard.compile .empty (.array [.object t.entries]) = .ok q)
    (hwarnings : q.warnings = []) (hg : g.Indexed) (hsource : source.Delivers g q.algebra)
    (hr : q.answer source = .ok r) :
    ∃ d, r.data = some d ∧
      OneEach (t.Satisfied g) (fun n d => ∃ as, d = .object as ∧ t.Answers g n as) d := by
  obtain ⟨f, hf, rfl⟩ := Grammar.standard_usual.compile_eq_ok hq
  have hcompiled : Compiled .standard (Request.nodes t).json (plainScope .root) f := by
    cases hf with
    | array inner hinner h => exact .array (kind_of_array _ _) inner hinner h
    | scalar => cases hwarnings
  obtain ⟨rfl, hdistinct⟩ := (Request.nodes t).fragment_of_compiled hcompiled hwarnings
  obtain ⟨found, rows, hfound, hrows, hsolutions, filling, hfilling, hresult⟩ :=
    Fragment.rows_of_answer hsource hr
  obtain ⟨hsound, hcomplete⟩ := Fragment.solutions_of_query hfound
  have hcovered := covered_of_matches hg hrequired hdistinct
    (fun r (hr : r ∈ rows) => by
      obtain ⟨s, hs, heq⟩ := hrows r hr
      obtain ⟨m, hm, hrow⟩ := hsound s hs
      exact ⟨m, hm, heq.trans (get?_eq_of_rowOf hm hrow)⟩)
    (fun m hm => by
      obtain ⟨s, hs, hrow⟩ := hcomplete m hm
      obtain ⟨r, hr, heq⟩ := hsolutions s hs
      exact ⟨r, hr, heq.trans (get?_eq_of_rowOf hm hrow)⟩)
  obtain ⟨d, hd, hanswer⟩ := completes_nodes
    (fun k hk => t.complete_answers hdistinct ((hcovered k).1 hk)) (fun k => (hcovered k).2)
    filling hfilling
  refine ⟨d, ?_, hanswer⟩
  change completeData (Template.result (.set _ (.object none (t.shape _))) filling) = _ at hresult
  rw [hd] at hresult
  exact (Except.ok.inj hresult).symm

section

/-- The keys of the examples. -/
def keyP : IriKey := ⟨"ex:p", by decide +kernel⟩

def keyQ : IriKey := ⟨"ex:q", by decide +kernel⟩

/-- A node with a value, and one that is also linked to it. -/
def linkedValues : Graph :=
  ⟨[⟨.iri ⟨"ex:a"⟩, ⟨"ex:p"⟩, .literal (.simple "x")⟩, ⟨.iri ⟨"ex:a"⟩, ⟨"ex:q"⟩, .iri ⟨"ex:b"⟩⟩,
    ⟨.iri ⟨"ex:b"⟩, ⟨"ex:p"⟩, .literal (.simple "y")⟩], by decide⟩

/-- Asks for nodes with a value, and the nodes with a value that they are linked to. -/
def nestedTemplate : NodeTemplate :=
  .id (.entry keyP .value (.entry keyQ (.nodes (.entry keyP .value .done)) .done))

/-- Nodes at two depths are answered, each with its own values, as the solutions are listed and in
the opposite order. -/
theorem nodes_answered_nested :
    let a := Json.object [("@id", .string "ex:a"), ("ex:p", .string "x"),
      ("ex:q", .array [.object [("ex:p", .string "y")]])]
    let b := Json.object [("@id", .string "ex:b"), ("ex:p", .string "y"), ("ex:q", .array [])]
    let answered (r : Response) (d : Json) : Prop := r.data = some d ∧
      OneEach (nestedTemplate.Satisfied linkedValues)
        (fun n d => ∃ as, d = .object as ∧ nestedTemplate.Answers linkedValues n as) d
    ∃ q source r r', Grammar.standard.compile .empty (.array [.object nestedTemplate.entries]) =
        .ok q ∧ q.answer (.graph linkedValues) = .ok r ∧ answered r (.array [a, b]) ∧
      source.Delivers linkedValues q.algebra ∧ q.answer source = .ok r' ∧
        answered r' (.array [b, a]) := by
  intro a b answered
  obtain ⟨q, found, hq, hwarnings, hfound, hsorted, hlisted, hreversed⟩ : ∃ q found,
      Grammar.standard.compile .empty (.array [.object nestedTemplate.entries]) = .ok q ∧
      q.warnings = [] ∧ q.algebra.evaluate linkedValues [] = .ok found ∧
      (Table.ofSolutions q.algebra found).IsSorted ∧
      q.template.answer (Table.ofSolutions q.algebra found).solutions = .ok (.array [a, b]) ∧
      q.template.answer (Table.ofSolutions q.algebra found).solutions.reverse =
        .ok (.array [b, a]) :=
    ⟨_, _, rfl, rfl, rfl, by decide, rfl, rfl⟩
  have hr := Query.answer_of_isSorted hfound hsorted hlisted
  have hsource := Source.delivers_rows hfound (List.reverse_perm _)
  have hr' : q.answer (.rows _ none) = _ := Query.answer_of_answer rfl hreversed
  obtain ⟨_, hd, hanswer⟩ :=
    nodes_answered rfl hq hwarnings (by decide) (Source.delivers_graph hfound) hr
  obtain ⟨_, hd', hanswer'⟩ := nodes_answered rfl hq hwarnings (by decide) hsource hr'
  cases hd
  cases hd'
  exact ⟨q, _, _, _, hq, hr, ⟨rfl, hanswer⟩, hsource, hr', rfl, hanswer'⟩

/-- The last blank node with two values. -/
def lastValues : Graph :=
  ⟨[⟨.blank .last, ⟨"ex:p"⟩, .literal (.simple "x")⟩,
    ⟨.blank .last, ⟨"ex:q"⟩, .literal (.simple "y")⟩], List.pairwise_pair.mpr (by decide)⟩

/-- Asks for nodes with one value of a kind and all values of another one. -/
def valuesTemplate : NodeTemplate := .entry keyP .value (.entry keyQ .values .done)

/-- The last blank node is answered without values that it has. -/
theorem last_node_not_answered :
    ∃ q r, Grammar.standard.compile .empty (.array [.object valuesTemplate.entries]) = .ok q ∧
      q.warnings = [] ∧ q.answer (.graph lastValues) = .ok r ∧
      r.data = some (.array [.object [("ex:p", .string "x"), ("ex:q", .array [])]]) ∧
      ¬ ∃ d, r.data = some d ∧ OneEach (valuesTemplate.Satisfied lastValues)
        (fun n d => ∃ as, d = .object as ∧ valuesTemplate.Answers lastValues n as) d := by
  obtain ⟨q, found, hq, hwarnings, hfound, hsorted, hd⟩ : ∃ q found,
      Grammar.standard.compile .empty (.array [.object valuesTemplate.entries]) = .ok q ∧
      q.warnings = [] ∧ q.algebra.evaluate lastValues [] = .ok found ∧
      (Table.ofSolutions q.algebra found).IsSorted ∧
      q.template.answer (Table.ofSolutions q.algebra found).solutions =
        .ok (.array [.object [("ex:p", .string "x"), ("ex:q", .array [])]]) :=
    ⟨_, _, rfl, rfl, rfl, by decide, rfl⟩
  refine ⟨q, _, hq, hwarnings, Query.answer_of_isSorted hfound hsorted hd, rfl, ?_⟩
  rintro ⟨d, hdata, ks, answer, -, hks, hanswer, rfl⟩
  have hlast : .blank .last ∈ ks :=
    (hks _).mpr ⟨⟨.literal (.simple "x"), by decide⟩, trivial, trivial⟩
  have hobject : answer (.blank .last) =
      .object [("ex:p", .string "x"), ("ex:q", .array [])] := by
    have hmem := List.mem_map_of_mem (f := answer) hlast
    rw [← Json.array.inj (Option.some.inj hdata)] at hmem
    exact List.mem_singleton.mp hmem
  obtain ⟨as, heq, _, _, rfl, -, _, _, rfl, ⟨ms, values, -, hms, -, rfl⟩, -⟩ := hanswer _ hlast
  rw [hobject] at heq
  simp only [Json.object.injEq, List.cons.injEq, Prod.mk.injEq, Json.array.injEq] at heq
  have hvalue : .literal (.simple "y") ∈ ms := (hms _).mpr (by decide)
  rw [List.map_eq_nil_iff.mp heq.2.1.2.symm] at hvalue
  cases hvalue

end

end Exemplar
