import Exemplar.Proofs.Algebra.Meaning
import Exemplar.Proofs.Compilation.Freshness

/-!
# Guarded variables

A triple pattern guards a variable if it holds of every match that binds the variable. The link of
an array guards the variable of the members, and whatever is joined around the array does not
change this, as it does not use the variable.
-/

namespace Exemplar

variable {g : Graph}

/-! ### Matches of operations -/

namespace Pattern

/-- Matches all patterns of a list one after the other. -/
def MatchesAll (g : Graph) : List Pattern → Solution → Solution → Prop
  | [], s, s' => s' = s
  | p :: rest, s, s' => ∃ m, p.Matches g s m ∧ MatchesAll g rest m s'

/-- Matches a pattern, or stays as it is if it cannot be extended to a match. -/
def MatchesOptional (g : Graph) (p : Pattern) (s s' : Solution) : Prop :=
  p.Matches g s s' ∨ (s' = s ∧ ∀ m, ¬ p.Matches g s m)

/-- Matches all patterns of a list that can be matched, one after the other. -/
def MatchesOptionals (g : Graph) : List Pattern → Solution → Solution → Prop
  | [], s, s' => s' = s
  | p :: rest, s, s' => ∃ m, p.MatchesOptional g s m ∧ MatchesOptionals g rest m s'

lemma matchesOptionals_append {ps qs : List Pattern} {s s' : Solution} :
    MatchesOptionals g (ps ++ qs) s s' ↔
      ∃ m, MatchesOptionals g ps s m ∧ MatchesOptionals g qs m s' := by
  induction ps generalizing s with
  | nil => simp [MatchesOptionals]
  | cons p rest ih =>
    simp only [List.cons_append, MatchesOptionals, ih]
    constructor
    · rintro ⟨m, hm, m', hm', hs'⟩
      exact ⟨m', ⟨m, hm, hm'⟩, hs'⟩
    · rintro ⟨m', ⟨m, hm, hm'⟩, hs'⟩
      exact ⟨m, hm, m', hm', hs'⟩

/-- Patterns that are put behind a pattern one by one are matched one after the other. -/
lemma matches_foldl {step : Pattern → Pattern → Pattern}
    {one : Pattern → Solution → Solution → Prop} {all : List Pattern → Solution → Solution → Prop}
    (hstep : ∀ p q s s', (step p q).Matches g s s' ↔ ∃ m, p.Matches g s m ∧ one q m s')
    (hnil : ∀ s s', all [] s s' ↔ s' = s)
    (hcons : ∀ q rest s s', all (q :: rest) s s' ↔ ∃ m, one q s m ∧ all rest m s')
    {rest : List Pattern} {p : Pattern} {s s' : Solution} :
    (rest.foldl step p).Matches g s s' ↔ ∃ m, p.Matches g s m ∧ all rest m s' := by
  induction rest generalizing p with
  | nil => simp [hnil]
  | cons q rest ih =>
    simp only [List.foldl_cons, ih, hstep, hcons]
    constructor
    · rintro ⟨m', ⟨m, hm, hm'⟩, hrest⟩
      exact ⟨m, hm, m', hm', hrest⟩
    · rintro ⟨m, hm, m', hm', hrest⟩
      exact ⟨m', ⟨m, hm, hm'⟩, hrest⟩

lemma matches_unit {s s' : Solution} : unit.Matches g s s' ↔ s' = s := by
  simp [unit, Matches, matchTriples]

end Pattern

namespace Operation

lemma matches_joinAll {ps : List Pattern} {s s' : Solution} :
    (joinAll ps).Matches g s s' ↔ Pattern.MatchesAll g ps s s' := by
  cases ps with
  | nil => exact Pattern.matches_unit
  | cons p rest =>
    exact Pattern.matches_foldl (fun _ _ _ _ => Iff.rfl) (fun _ _ => Iff.rfl)
      fun _ _ _ _ => Iff.rfl

/-- The triples of an operation are matched first, then its other required patterns, and the
optional ones at last. -/
lemma matches_build {o : Operation} {s s' : Solution} :
    o.build.Matches g s s' ↔ ∃ m m', m ∈ matchTriples g o.triples s ∧
      Pattern.MatchesAll g o.required m m' ∧ Pattern.MatchesOptionals g o.optionals m' s' := by
  have hfold : ∀ p : Pattern, (o.optionals.foldl (fun left right => .leftJoin left right none)
      p).Matches g s s' ↔ ∃ m, p.Matches g s m ∧ Pattern.MatchesOptionals g o.optionals m s' :=
    fun _ => Pattern.matches_foldl (fun _ _ _ _ => Iff.rfl) (fun _ _ => Iff.rfl)
      fun _ _ _ _ => Iff.rfl
  have hrequired : ∀ m', o.requiredPattern.Matches g s m' ↔
      ∃ m, m ∈ matchTriples g o.triples s ∧ Pattern.MatchesAll g o.required m m' := by
    intro m'
    rw [requiredPattern, matches_joinAll, bgp]
    cases htriples : o.triples with
    | nil => simp [matchTriples]
    | cons t rest => rfl
  rw [build, hfold]
  simp only [hrequired]
  constructor
  · rintro ⟨m', ⟨m, hm, hm'⟩, hs'⟩
    exact ⟨m, m', hm, hm', hs'⟩
  · rintro ⟨m, m', hm, hm', hs'⟩
    exact ⟨m', ⟨m, hm, hm'⟩, hs'⟩

/-- The pattern of an optional operation has a solution even if nothing matches. -/
lemma matches_toPattern_iff {o : Operation} (hoptional : o.isOptional) (hempty : ¬ o.isEmpty)
    {s s' : Solution} : o.toPattern.Matches g s s' ↔ o.build.MatchesOptional g s s' := by
  simp only [toPattern, hoptional, hempty, Bool.not_false, Bool.and_self, if_true]
  constructor
  · rintro ⟨m, hm, h⟩
    rw [Pattern.matches_unit.mp hm] at h
    exact h
  · exact fun h => ⟨s, Pattern.matches_unit.mpr rfl, h⟩

lemma matches_toPattern {o : Operation} {s s' : Solution} (h : o.toPattern.Matches g s s') :
    o.build.Matches g s s' ∨ s' = s := by
  by_cases hoptional : o.isOptional ∧ ¬ o.isEmpty
  · exact ((matches_toPattern_iff hoptional.1 hoptional.2).mp h).imp id And.left
  · have hpattern : o.toPattern = o.build := by
      unfold toPattern
      rw [if_neg (by simpa using hoptional)]
    rw [hpattern] at h
    exact .inl h

end Operation

namespace Pattern

lemma MatchesAll.extendsBy {ps : List Pattern} {s s' : Solution} (h : MatchesAll g ps s s') :
    ExtendsBy (ps.flatMap mentioned) s s' := by
  induction ps generalizing s with
  | nil =>
    cases h
    exact .refl _ _
  | cons p rest ih =>
    obtain ⟨m, hm, hs'⟩ := h
    exact hm.extendsBy.trans (ih hs')

lemma MatchesOptional.extendsBy {p : Pattern} {s s' : Solution} (h : p.MatchesOptional g s s') :
    ExtendsBy p.mentioned s s' := by
  rcases h with h | ⟨rfl, -⟩
  · exact h.extendsBy
  · exact .refl _ _

lemma MatchesOptionals.extendsBy {ps : List Pattern} {s s' : Solution}
    (h : MatchesOptionals g ps s s') : ExtendsBy (ps.flatMap mentioned) s s' := by
  induction ps generalizing s with
  | nil =>
    cases h
    exact .refl _ _
  | cons p rest ih =>
    obtain ⟨m, hm, hs'⟩ := h
    exact hm.extendsBy.trans (ih hs')

end Pattern

/-! ### Guards -/

/-- Whether a triple pattern holds of every match that binds a variable. -/
def Pattern.Guards (g : Graph) (x : Variable) (t : TriplePattern) (p : Pattern) : Prop :=
  ∀ s s', p.Matches g s s' → s.get? x = none → s'.get? x ≠ none → t.Holds g s'.get?

/-- Whether a triple pattern is required by an operation, or guards the variable in those parts
that may bind it. -/
def Operation.Guards (g : Graph) (x : Variable) (t : TriplePattern) (o : Operation) : Prop :=
  t ∈ o.triples ∨
    ((∀ p ∈ o.triples, x ∉ p.vars) ∧ (∀ p ∈ o.required, p.Guards g x t) ∧
      ∀ p ∈ o.optionals, p.Guards g x t)

section

variable {x : Variable} {t : TriplePattern}

lemma ExtendsBy.get?_eq {vs : List Variable} {s s' : Solution} (h : ExtendsBy vs s s')
    (hx : x ∉ vs) : s'.get? x = s.get? x := by
  cases hs' : s'.get? x with
  | none =>
    cases hs : s.get? x with
    | none => rfl
    | some u =>
      rw [h.1 x u hs] at hs'
      cases hs'
  | some u => exact ((h.2 x u hs').resolve_right hx).symm

lemma ExtendsBy.get?_eq_none {vs : List Variable} {s s' : Solution} (h : ExtendsBy vs s s')
    (hx : x ∉ vs) (hs : s.get? x = none) : s'.get? x = none :=
  (h.get?_eq hx).trans hs

namespace Pattern

lemma guards_of_notMem {p : Pattern} (h : x ∉ p.mentioned) : p.Guards g x t :=
  fun _ _ hmatch hs hs' => absurd (hmatch.extendsBy.get?_eq_none h hs) hs'

lemma MatchesAll.holds {ps : List Pattern} (h : ∀ p ∈ ps, p.Guards g x t) {s s' : Solution}
    (hmatch : MatchesAll g ps s s') (hs : s.get? x = none) (hs' : s'.get? x ≠ none) :
    t.Holds g s'.get? := by
  induction ps generalizing s with
  | nil => exact absurd (hmatch ▸ hs) hs'
  | cons p rest ih =>
    obtain ⟨m, hm, hrest⟩ := hmatch
    rw [List.forall_mem_cons] at h
    cases hmx : m.get? x with
    | none => exact ih h.2 hrest hmx
    | some u => exact (h.1 s m hm hs (by simp [hmx])).mono hrest.extendsBy.1

lemma MatchesOptionals.holds {ps : List Pattern} (h : ∀ p ∈ ps, p.Guards g x t)
    {s s' : Solution} (hmatch : MatchesOptionals g ps s s') (hs : s.get? x = none)
    (hs' : s'.get? x ≠ none) : t.Holds g s'.get? := by
  induction ps generalizing s with
  | nil => exact absurd (hmatch ▸ hs) hs'
  | cons p rest ih =>
    obtain ⟨m, hm, hrest⟩ := hmatch
    rw [List.forall_mem_cons] at h
    cases hmx : m.get? x with
    | none => exact ih h.2 hrest hmx
    | some u =>
      rcases hm with hm | ⟨rfl, -⟩
      · exact (h.1 s m hm hs (by simp [hmx])).mono hrest.extendsBy.1
      · rw [hs] at hmx
        cases hmx

end Pattern

namespace Operation

variable {o other : Operation}

lemma guards_of_notMem (h : x ∉ o.mentioned) : o.Guards g x t := by
  rw [mem_mentioned] at h
  push Not at h
  exact .inr ⟨h.1, fun p hp => Pattern.guards_of_notMem (h.2.1 p hp),
    fun p hp => Pattern.guards_of_notMem (h.2.2 p hp)⟩

/-- What guards a variable in an operation guards it in the pattern of the operation. -/
lemma Guards.build (h : o.Guards g x t) : o.build.Guards g x t := by
  intro s s' hmatch hs hs'
  obtain ⟨m, m', hm, hm', hrest⟩ := matches_build.mp hmatch
  obtain ⟨hext, hholds⟩ := matchTriples_spec hm
  rcases h with ht | ⟨htriples, hrequired, hoptionals⟩
  · exact (hholds t ht).mono (hm'.extendsBy.1.trans hrest.extendsBy.1)
  · have hmx : m.get? x = none := by
      refine hext.get?_eq_none (fun hx => ?_) hs
      obtain ⟨p, hp, hxp⟩ := List.mem_flatMap.mp hx
      exact htriples p hp hxp
    cases hm'x : m'.get? x with
    | none => exact hrest.holds hoptionals hm'x hs'
    | some u => exact (hm'.holds hrequired hmx (by simp [hm'x])).mono hrest.extendsBy.1

lemma Guards.toPattern (h : o.Guards g x t) : o.toPattern.Guards g x t := by
  intro s s' hmatch hs hs'
  rcases matches_toPattern hmatch with hmatch | rfl
  · exact h.build s s' hmatch hs hs'
  · exact absurd hs hs'

lemma Guards.append (h : o.Guards g x t) (h' : other.Guards g x t) :
    (o.append other).Guards g x t := by
  rcases h with ht | ⟨htriples, hrequired, hoptionals⟩
  · exact .inl (List.mem_append_left _ ht)
  rcases h' with ht | ⟨htriples', hrequired', hoptionals'⟩
  · exact .inl (List.mem_append_right _ ht)
  · exact .inr ⟨List.forall_mem_append.mpr ⟨htriples, htriples'⟩,
      List.forall_mem_append.mpr ⟨hrequired, hrequired'⟩,
      List.forall_mem_append.mpr ⟨hoptionals, hoptionals'⟩⟩

lemma guards_group (h : o.build.Guards g x t) :
    ({ optionals := [o.build] } : Operation).Guards g x t :=
  .inr ⟨by simp, by simp, by simpa using h⟩

lemma Guards.asPart (h : o.Guards g x t) : o.asPart.Guards g x t := by
  unfold Operation.asPart
  split
  · exact guards_group h.build
  · exact h

lemma Guards.join (h : o.Guards g x t) (h' : other.Guards g x t) : (o.join other).Guards g x t := by
  rcases join_cases with hjoin | hjoin <;> rw [hjoin]
  · exact h
  · exact h.append h'.asPart

/-- What the pattern of an optional operation guards is guarded in its group. -/
lemma guards_join_group (hoptional : other.isOptional) (h : other.build.Guards g x t)
    (hx : x ∉ o.mentioned) : (o.join other).Guards g x t := by
  rcases join_cases with hjoin | hjoin <;> rw [hjoin]
  · exact guards_of_notMem hx
  · rw [Operation.asPart, if_pos hoptional]
    exact (guards_of_notMem hx).append (guards_group h)

lemma Guards.withLink (h : o.Guards g x t) {link : TriplePattern} (hx : x ∉ link.vars) :
    (o.withLink link).Guards g x t := by
  rcases h with ht | ⟨htriples, hrequired, hoptionals⟩
  · exact .inl (List.mem_cons_of_mem _ ht)
  · exact .inr ⟨List.forall_mem_cons.mpr ⟨hx, htriples⟩, hrequired, hoptionals⟩

lemma guards_link (link : TriplePattern) : (o.withLink link).Guards g x link :=
  .inl List.mem_cons_self

lemma Guards.withRequired (h : o.Guards g x t) {p : Pattern} (hx : x ∉ p.mentioned) :
    (o.withRequired p).Guards g x t := by
  rcases h with ht | ⟨htriples, hrequired, hoptionals⟩
  · exact .inl ht
  · refine .inr ⟨htriples, fun q hq => ?_, hoptionals⟩
    rcases List.mem_append.mp hq with hq | hq
    · exact hrequired q hq
    · rw [List.mem_singleton.mp hq]
      exact Pattern.guards_of_notMem hx

/-- What guards a variable in all entries guards it in the whole node. -/
lemma guards_foldl_join {parts : List EntryPart}
    (hparts : ∀ part ∈ parts, part.operation.Guards g x t) :
    (parts.foldl (fun (operation : Operation) part => operation.join part.operation) {}).Guards
      g x t :=
  List.foldlRecOn parts _ (guards_of_notMem (by simp)) fun _ ho part hpart =>
    ho.join (hparts part hpart)

end Operation

/-! ### Productions -/

/-- Guards of a value are guards of the entry that links it to its node. -/
lemma guards_entry {s : Scope} {identity : Identity} {key : String} {predicate : Iri}
    {f : Fragment} (hf : f.Local (s.v.child key)) (hx : x.Inside (s.v.child key))
    (hne : x ≠ s.v.child key) (h : f.operation.Guards g x t) :
    (EntryPart.link (identity.term s) key predicate (s.v.child key) f).operation.Guards g x t := by
  unfold EntryPart.link
  cases hterm : f.term with
  | none => exact h
  | some term =>
    refine h.withLink fun hmem => ?_
    simp only [TriplePattern.vars, List.mem_append] at hmem
    rcases hmem with (hnode | hpredicate) | hvar
    · exact Variable.ne_of_inside_child hx (Identity.mem_vars hnode)
    · simp [PatternTerm.vars] at hpredicate
    · exact hne (hf.eq_of_mem_vars hterm hvar)

/-- Guards of one entry are guards of the whole node, as no other entry uses the variables of its
value. -/
lemma guards_nodeFragment {s : Scope} {identity : Identity} {entries : Entries}
    {parts : List EntryPart} (declaration : Option Json)
    (hparts : List.Forall₂ (CompiledEntry (fun _ s f => f.Local s.v) s identity) entries parts)
    (hnodup : (parts.filterMap (·.child)).Nodup) {part : EntryPart} (hmem : part ∈ parts)
    {key : String} (hchild : part.child = some (s.v.child key)) (hx : x.Inside (s.v.child key))
    (h : part.operation.Guards g x t) :
    (nodeFragment declaration (identity.term s) parts).operation.Guards g x t := by
  refine Operation.guards_foldl_join fun other hother => ?_
  by_cases hsame : other.child = some (s.v.child key)
  · rwa [eq_of_nodup_filterMap hnodup hother hmem hsame hchild]
  · refine Operation.guards_of_notMem fun hmentioned => ?_
    obtain ⟨entry, -, hentry⟩ := exists_mem_left hparts hother
    rcases mentioned_entry hentry hmentioned with hnode | ⟨key', hchild', hx'⟩
    · rw [Identity.mem_vars hnode] at hx
      exact Variable.not_inside_child _ _ hx
    · exact hsame (hchild'.trans (congrArg some (Variable.child_eq_of_inside hx' hx)))

lemma guards_memberOperation {v : Variable} {f : Fragment} (hne : x ≠ v)
    (h : f.operation.Guards g x t) : (memberOperation v f).Guards g x t := by
  rcases Operation.memberOperation_cases v f with heq | ⟨t, -, heq⟩ <;> rw [heq]
  · exact h
  · exact h.withRequired (by simpa [Pattern.mentioned] using hne)

/-- Guards of an item are guards of the list, as its slots at most use the variable of the item. -/
lemma guards_list {gr : Grammar} {entries : Entries} {key : String} {s : Scope} {f f' : Fragment}
    (hf : f.Local (itemScope s).v) (hx : x.Inside (itemScope s).v) (hne : x ≠ (itemScope s).v)
    (h : f.operation.Guards g x t)
    (hlist : ListFragment gr entries key s.v (f.term.getD (itemScope s).v.term) f f') :
    f'.operation.Guards g x t := by
  have hslots : ∀ {slot : Operation}, x ∉ slot.mentioned →
      (({} : Operation).join (slot.join f.operation).asOptional).Guards g x t := by
    intro slot hslot
    have hgroup : (slot.join f.operation).asOptional.Guards g x t :=
      (Operation.guards_of_notMem hslot).join h
    exact (Operation.guards_of_notMem (by simp)).join hgroup
  have hitem := eq_of_mem_slots (g := gr) (fun _ => hf.eq_of_mem_item) hx
  cases hlist with
  | linked => exact hslots fun hmem => hne (hitem.1 hmem)
  | indexed => exact hslots fun hmem => hne (hitem.2 hmem)

end

end Exemplar
