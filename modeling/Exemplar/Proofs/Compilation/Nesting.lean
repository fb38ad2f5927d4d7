import Exemplar.Proofs.Compilation.Preservation

/-!
# Compiled patterns are well designed

An optional group of a compiled document shares variables with the rest of the pattern only where
it hangs: at the variable of the node, list or item that it belongs to. The link to this node, or
the slot of this item, is a required triple pattern beside the group.
-/

namespace Exemplar

open Pattern (inTriples)

namespace Operation

/-! ### Required patterns -/

section

variable {o other : Operation} {x : Variable}

lemma mem_inTriples_requiredPattern : x ∈ inTriples o.requiredPattern ↔
    (∃ t ∈ o.triples, x ∈ t.vars) ∨ ∃ p ∈ o.required, x ∈ inTriples p :=
  mem_requiredPattern (fun _ _ => rfl) fun _ => rfl

lemma mem_mentioned_append :
    x ∈ (o.append other).requiredPattern.mentioned ↔
      x ∈ o.requiredPattern.mentioned ∨ x ∈ other.requiredPattern.mentioned := by
  simp only [mem_mentioned_requiredPattern, append, List.mem_append, or_and_right, exists_or]
  exact or_or_or_comm

lemma mem_inTriples_append :
    x ∈ inTriples (o.append other).requiredPattern ↔
      x ∈ inTriples o.requiredPattern ∨ x ∈ inTriples other.requiredPattern := by
  simp only [mem_inTriples_requiredPattern, append, List.mem_append, or_and_right, exists_or]
  exact or_or_or_comm

end

lemma wellDesigned_requiredPattern {o : Operation}
    (hflat : ∀ p ∈ o.required, ∀ outside, p.WellDesigned inTriples outside)
    (outside : List Variable) : o.requiredPattern.WellDesigned inTriples outside := by
  have hfold : ∀ (rest : List Pattern) (p : Pattern),
      (∀ outside, p.WellDesigned inTriples outside) →
      (∀ q ∈ rest, ∀ outside, q.WellDesigned inTriples outside) →
      ∀ outside, (rest.foldl .join p).WellDesigned inTriples outside := by
    intro rest
    induction rest with
    | nil => exact fun p hp _ => hp
    | cons q rest ih =>
      intro p hp hrest
      rw [List.forall_mem_cons] at hrest
      apply ih _ _ hrest.2
      exact fun outside => ⟨hp _, hrest.1 _⟩
  have hall : ∀ p ∈ o.bgp ++ o.required, ∀ outside, p.WellDesigned inTriples outside := by
    refine List.forall_mem_append.mpr ⟨?_, hflat⟩
    unfold bgp
    split
    · simp
    · exact List.forall_mem_singleton.mpr fun _ => trivial
  unfold requiredPattern
  cases hparts : o.bgp ++ o.required with
  | nil => trivial
  | cons p rest =>
    rw [hparts, List.forall_mem_cons] at hall
    exact hfold rest p hall.1 hall.2 outside

/-! ### Nested operations -/

/-- Whether a variable is in a required triple pattern of an operation, or one of those that the
operation leaves to its surroundings. -/
def Covers (free : List Variable) (o : Operation) (x : Variable) : Prop :=
  x ∈ free ∨ x ∈ inTriples o.requiredPattern

/-- Whether the optional groups of an operation are well designed where they stand: all that they
share with the rest of the operation is covered, and they may share this with anything else. -/
structure Nested (free : List Variable) (o : Operation) : Prop where
  flat : ∀ p ∈ o.required, ∀ outside, p.WellDesigned inTriples outside
  shared : ∀ q ∈ o.optionals, ∀ x ∈ q.mentioned, x ∈ o.requiredPattern.mentioned → o.Covers free x
  apart : o.optionals.Pairwise fun q q' => ∀ x ∈ q.mentioned, x ∈ q'.mentioned → o.Covers free x
  groups : ∀ q ∈ o.optionals, ∀ outside,
    (∀ x ∈ q.mentioned, x ∈ outside → o.Covers free x) → q.WellDesigned inTriples outside

namespace Nested

variable {free free' : List Variable} {o other : Operation} {v w : Variable}

/-- An operation without optional groups. -/
lemma of_no_optionals (hflat : ∀ p ∈ o.required, ∀ outside, p.WellDesigned inTriples outside)
    (h : o.optionals = []) : o.Nested free := by
  refine ⟨hflat, ?_, ?_, ?_⟩ <;> simp [h]

/-- The same groups beside another required part, if both cover the same variables of the groups. -/
lemma transfer (h : o.Nested free) (hoptionals : other.optionals = o.optionals)
    (hflat : ∀ p ∈ other.required, ∀ outside, p.WellDesigned inTriples outside)
    (hcovers : ∀ q ∈ o.optionals, ∀ x ∈ q.mentioned, other.Covers free' x ↔ o.Covers free x)
    (hshared : ∀ q ∈ o.optionals, ∀ x ∈ q.mentioned, x ∈ other.requiredPattern.mentioned →
      x ∈ o.requiredPattern.mentioned ∨ o.Covers free x) :
    other.Nested free' := by
  refine ⟨hflat, ?_, ?_, ?_⟩ <;> rw [hoptionals]
  · intro q hq x hx hmentioned
    rw [hcovers q hq x hx]
    exact (hshared q hq x hx hmentioned).elim (h.shared q hq x hx) id
  · refine h.apart.imp_of_mem fun {q q'} hq _ hcovered x hx hx' => ?_
    exact (hcovers q hq x hx).mpr (hcovered x hx hx')
  · intro q hq outside houtside
    apply h.groups q hq
    exact fun x hx hout => (hcovers q hq x hx).mp (houtside x hx hout)

lemma of_parts (h : o.Nested free) (htriples : other.triples = o.triples)
    (hrequired : other.required = o.required) (hoptionals : other.optionals = o.optionals) :
    other.Nested free := by
  have hpattern : other.requiredPattern = o.requiredPattern := by
    simp only [requiredPattern, bgp, htriples, hrequired]
  apply h.transfer hoptionals
  · rw [hrequired]
    exact h.flat
  · intro q _ x _
    rw [Covers, Covers, hpattern]
  · intro q _ x _ hx
    rw [hpattern] at hx
    exact .inl hx

/-- What the groups only share where it is in required triple patterns need not be free. -/
lemma change_free (h : o.Nested free)
    (hfree : ∀ q ∈ o.optionals, ∀ x ∈ q.mentioned, x ∈ free ∨ x ∈ free' →
      x ∈ inTriples o.requiredPattern) : o.Nested free' := by
  apply h.transfer rfl h.flat
  · intro q hq x hx
    constructor
    · exact fun hx' => .inr (hx'.elim (fun hx' => hfree q hq x hx (.inr hx')) id)
    · exact fun hx' => .inr (hx'.elim (fun hx' => hfree q hq x hx (.inl hx')) id)
  · exact fun q hq x hx hmentioned => .inl hmentioned

/-- Beside required triple patterns with its free variable, an operation has no free variables. -/
lemma attach {base : Operation}
    (hflat : ∀ p ∈ base.required, ∀ outside, p.WellDesigned inTriples outside)
    (hnone : base.optionals = []) (h : o.Nested [w])
    (hbase : ∀ q ∈ o.optionals, ∀ x ∈ q.mentioned, x ∈ base.requiredPattern.mentioned → x = w)
    (hw : ∀ q ∈ o.optionals, w ∈ q.mentioned → w ∈ inTriples base.requiredPattern) :
    (base.append o).Nested [] := by
  apply h.transfer
  · simp [append, hnone]
  · exact List.forall_mem_append.mpr ⟨hflat, h.flat⟩
  · intro q hq x hx
    simp only [Covers, List.not_mem_nil, false_or, mem_inTriples_append, List.mem_singleton]
    refine or_congr_left ⟨fun hbound => ?_, ?_⟩
    · exact hbase q hq x hx (Pattern.mem_mentioned_of_inTriples hbound)
    · rintro rfl
      exact hw q hq hx
  · intro q hq x hx hmentioned
    rcases mem_mentioned_append.mp hmentioned with hmentioned | hmentioned
    · exact .inr (.inl (List.mem_singleton.mpr (hbase q hq x hx hmentioned)))
    · exact .inl hmentioned

/-- The pattern of an operation without free variables is well designed. -/
lemma wellDesigned_build (h : o.Nested []) {outside : List Variable}
    (houtside : ∀ q ∈ o.optionals, ∀ x ∈ q.mentioned, x ∈ outside →
      x ∈ inTriples o.requiredPattern) : o.build.WellDesigned inTriples outside := by
  have hcovers : ∀ {x : Variable}, o.Covers [] x ↔ x ∈ inTriples o.requiredPattern := by
    simp [Covers]
  apply Pattern.wellDesigned_foldl_leftJoin
  · exact wellDesigned_requiredPattern h.flat
  · exact fun q hq x hx hmentioned => hcovers.mp (h.shared q hq x hx hmentioned)
  · exact h.apart.imp fun hshared x hx hx' => hcovers.mp (hshared x hx hx')
  · intro q hq outside hout
    exact h.groups q hq outside fun x hx hx' => hcovers.mpr (hout x hx hx')
  · exact houtside

/-- A group hangs at a variable that the operation inside it does not use in its own groups. -/
lemma asGroup (h : o.Nested []) (hv : ∀ q ∈ o.optionals, v ∉ q.mentioned) :
    ({ optionals := [o.build] } : Operation).Nested [v] := by
  refine ⟨by simp, ?_, by simp, ?_⟩
  · intro q _ x _ hmentioned
    simp [mem_mentioned_requiredPattern] at hmentioned
  · rw [List.forall_mem_singleton]
    intro outside houtside
    apply h.wellDesigned_build
    intro q hq x hx hout
    have hmentioned : x ∈ o.build.mentioned :=
      mem_mentioned_build.mpr (mem_mentioned_iff.mpr (.inr ⟨q, hq, hx⟩))
    rcases houtside x hmentioned hout with hxv | hempty
    · obtain rfl := List.mem_singleton.mp hxv
      exact absurd hx (hv q hq)
    · simp [mem_inTriples_requiredPattern] at hempty

lemma asPart (h : o.Nested []) (hv : ∀ q ∈ o.optionals, v ∉ q.mentioned) :
    o.asPart.Nested [v] := by
  unfold Operation.asPart
  split
  · exact h.asGroup hv
  · refine h.change_free fun q hq x hx hfree => ?_
    rcases hfree with hnil | hxv
    · cases hnil
    · obtain rfl := List.mem_singleton.mp hxv
      exact absurd hx (hv q hq)

/-- The same groups beside a larger required part, which has nothing of the operation but what the
operation requires itself and a free variable. -/
lemma widen (h : o.Nested [v]) (hoptionals : other.optionals = o.optionals)
    (hflat : ∀ p ∈ other.required, ∀ outside, p.WellDesigned inTriples outside)
    (hinTriples : ∀ x ∈ inTriples o.requiredPattern, x ∈ inTriples other.requiredPattern)
    (hmentioned : ∀ x ∈ o.mentioned, x ∈ other.requiredPattern.mentioned →
      x = v ∨ x ∈ o.requiredPattern.mentioned)
    (htriples : ∀ x ∈ o.mentioned, x ∈ inTriples other.requiredPattern →
      x = v ∨ x ∈ inTriples o.requiredPattern) : other.Nested [v] := by
  have hgroup : ∀ q ∈ o.optionals, ∀ x ∈ q.mentioned, x ∈ o.mentioned :=
    fun q hq x hx => mem_mentioned_iff.mpr (.inr ⟨q, hq, hx⟩)
  have hfree : ∀ {x : Variable}, x = v → x ∈ [v] := List.mem_singleton.mpr
  refine h.transfer hoptionals hflat ?_ ?_
  · intro q hq x hx
    constructor
    · rintro (hv | hx')
      · exact .inl hv
      · exact (htriples x (hgroup q hq x hx) hx').imp_left hfree
    · exact fun hx' => hx'.imp_right (hinTriples x)
  · intro q hq x hx hx'
    exact (hmentioned x (hgroup q hq x hx) hx').symm.imp_right fun heq => .inl (hfree heq)

/-- Two lists of groups beside the same required part. -/
lemma of_groups {first second : List Pattern} (h : ({ o with optionals := first }).Nested free)
    (h' : ({ o with optionals := second }).Nested free)
    (hapart : ∀ q ∈ first, ∀ q' ∈ second, ∀ x ∈ q.mentioned, x ∈ q'.mentioned → o.Covers free x)
    (hoptionals : o.optionals = first ++ second) : o.Nested free := by
  refine ⟨h.flat, ?_, ?_, ?_⟩ <;> rw [hoptionals]
  · exact List.forall_mem_append.mpr ⟨h.shared, h'.shared⟩
  · exact List.pairwise_append.mpr ⟨h.apart, h'.apart, hapart⟩
  · exact List.forall_mem_append.mpr ⟨h.groups, h'.groups⟩

/-- Operations that only share a variable that both leave to their surroundings. -/
lemma append (ho : o.Nested [v]) (hother : other.Nested [v])
    (hdisjoint : ∀ x ∈ o.mentioned, x ∈ other.mentioned → x = v) :
    (o.append other).Nested [v] := by
  have hflat : ∀ p ∈ o.required ++ other.required, ∀ outside, p.WellDesigned inTriples outside :=
    List.forall_mem_append.mpr ⟨ho.flat, hother.flat⟩
  have hrequired : ∀ {o : Operation} {x : Variable}, x ∈ o.requiredPattern.mentioned →
      x ∈ o.mentioned := fun hx => mem_mentioned_iff.mpr (.inl hx)
  have htriples : ∀ {o : Operation} {x : Variable}, x ∈ inTriples o.requiredPattern →
      x ∈ o.mentioned := fun hx => hrequired (Pattern.mem_mentioned_of_inTriples hx)
  have hoptionals : (o.append other).optionals = o.optionals ++ other.optionals := rfl
  refine of_groups ?_ ?_ ?_ hoptionals
  · refine ho.widen rfl hflat (fun x hx => mem_inTriples_append.mpr (.inl hx)) ?_ ?_
    · intro x hx hx'
      exact (mem_mentioned_append.mp hx').symm.imp_left fun h => hdisjoint x hx (hrequired h)
    · intro x hx hx'
      exact (mem_inTriples_append.mp hx').symm.imp_left fun h => hdisjoint x hx (htriples h)
  · refine hother.widen rfl hflat (fun x hx => mem_inTriples_append.mpr (.inr hx)) ?_ ?_
    · intro x hx hx'
      exact (mem_mentioned_append.mp hx').imp_left fun h => hdisjoint x (hrequired h) hx
    · intro x hx hx'
      exact (mem_inTriples_append.mp hx').imp_left fun h => hdisjoint x (htriples h) hx
  · intro q hq q' hq' x hx hx'
    have hx := mem_mentioned_iff.mpr (.inr ⟨q, hq, hx⟩)
    have hx' := mem_mentioned_iff.mpr (.inr ⟨q', hq', hx'⟩)
    exact .inl (List.mem_singleton.mpr (hdisjoint x hx hx'))

/-- A table for the free variable is required besides. -/
lemma withValues (h : o.Nested [v]) (rows : List (List (Option Term))) :
    (o.withRequired (.values [v] rows)).Nested [v] := by
  have happend : o.withRequired (.values [v] rows) =
      o.append { required := [.values [v] rows] } := by
    simp [withRequired, Operation.append]
  rw [happend]
  apply h.append
  · exact of_no_optionals (List.forall_mem_singleton.mpr fun _ => trivial) rfl
  · intro x _ hx
    simpa [mentioned, Pattern.mentioned] using hx

end Nested

end Operation

/-! ### Nested fragments -/

/-- Whether the groups of a fragment leave nothing to their surroundings but its variable, and that
only if the fragment is denoted by it. -/
structure Fragment.Nested (f : Fragment) (v : Variable) : Prop where
  nested : f.operation.Nested [v]
  free : ∀ q ∈ f.operation.optionals, v ∈ q.mentioned → f.term = some (.variable v)

lemma Fragment.nested_of_no_optionals {f : Fragment} {v : Variable} (h : f.operation = {}) :
    f.Nested v := by
  refine ⟨.of_no_optionals ?_ ?_, ?_⟩ <;> simp [h]

lemma nested_scalar {value : Json} {s : Scope} {f : Fragment}
    (h : compilePrimitive value s = .ok f) : f.Nested s.v := by
  apply Fragment.nested_of_no_optionals
  rcases compilePrimitive_eq_ok h with ⟨-, rfl⟩ | ⟨t, -, -, rfl⟩ | ⟨-, rfl⟩ <;> rfl

lemma nested_type {value : Json} {s : Scope} {f : Fragment}
    (h : compileType value s = .ok f) : f.Nested s.v := by
  apply Fragment.nested_of_no_optionals
  rcases compileType_eq_ok h with ⟨-, rfl⟩ | ⟨name, iri, -, -, -, rfl⟩ <;> rfl

lemma nested_array {v : Variable} {f : Fragment} (h : f.Nested v) :
    (arrayFragment v f).Nested v := by
  have hmember : (memberOperation v f).Nested [v] := by
    rcases Operation.memberOperation_cases v f with heq | ⟨t, -, heq⟩ <;> rw [heq]
    · exact h.nested
    · exact h.nested.withValues _
  refine ⟨hmember.of_parts rfl rfl rfl, fun q hq => h.free q ?_⟩
  simpa [arrayFragment, Operation.asOptional] using hq

/-- A linked value hangs at the node that it is linked to. -/
lemma nested_link {v w : Variable} {node : PatternTerm} (hnode : ∀ x ∈ node.vars, x = v)
    {key : String} {predicate : Iri} {f : Fragment} (h : f.Nested w) (hlocal : f.Local w)
    (hv : ¬ v.Inside w) : (EntryPart.link node key predicate w f).operation.asPart.Nested [v] := by
  have hinside : ∀ q ∈ f.operation.optionals, ∀ x ∈ q.mentioned, x.Inside w :=
    fun q hq x hx => hlocal.mentioned x (Operation.mem_mentioned_iff.mpr (.inr ⟨q, hq, hx⟩))
  have hnot : ∀ q ∈ f.operation.optionals, v ∉ q.mentioned :=
    fun q hq hx => hv (hinside q hq v hx)
  unfold EntryPart.link
  cases hterm : f.term with
  | none =>
    apply Operation.Nested.asPart _ hnot
    refine h.nested.change_free fun q hq x hx hfree => ?_
    obtain rfl := List.mem_singleton.mp (hfree.resolve_right List.not_mem_nil)
    have hsome := h.free q hq hx
    rw [hterm] at hsome
    cases hsome
  | some t =>
    let link : TriplePattern := ⟨node, .constant (.iri predicate), t⟩
    -- the link is a required triple pattern with the variable of the value
    have hvars : ∀ {x : Variable},
        x ∈ ({ triples := [link] } : Operation).requiredPattern.mentioned ↔ x ∈ link.vars := by
      simp [Operation.mem_mentioned_requiredPattern]
    have hattached : (({ triples := [link] } : Operation).append f.operation).Nested [] := by
      refine .attach (by simp) rfl h.nested ?_ ?_
      · intro q hq x hx hmentioned
        have hxlink := hvars.mp hmentioned
        simp only [link, TriplePattern.vars, List.mem_append] at hxlink
        obtain (hxnode | hconstant) | hxt := hxlink
        · obtain rfl := hnode x hxnode
          exact absurd hx (hnot q hq)
        · cases hconstant
        · exact hlocal.eq_of_mem_vars hterm hxt
      · intro q hq hx
        have hsome := h.free q hq hx
        rw [hterm] at hsome
        cases hsome
        simp [Operation.mem_inTriples_requiredPattern, link, TriplePattern.vars, PatternTerm.vars]
    refine Operation.Nested.asPart ?_ hnot
    exact hattached.of_parts rfl rfl rfl

/-- Entries only share the variable of their node. -/
lemma nested_foldl_join {v : Variable} {parts : List EntryPart} {o : Operation} (ho : o.Nested [v])
    (hparts : ∀ part ∈ parts, part.operation.asPart.Nested [v])
    (hinside : ∀ part ∈ parts, ∀ x ∈ part.operation.mentioned,
      x = v ∨ ∃ key, part.child = some (v.child key) ∧ x.Inside (v.child key))
    (hnodup : (parts.filterMap (·.child)).Nodup)
    (hother : ∀ part ∈ parts, ∀ key, part.child = some (v.child key) →
      ∀ x ∈ o.mentioned, ¬ x.Inside (v.child key)) :
    (parts.foldl (fun operation part => operation.join part.operation) o).Nested [v] := by
  induction parts generalizing o with
  | nil => exact ho
  | cons part rest ih =>
    rw [List.forall_mem_cons] at hparts hinside hother
    apply ih _ hparts.2 hinside.2
    · exact hnodup.sublist ((List.sublist_cons_self part rest).filterMap _)
    · intro part' hpart' key' hchild' x hx hx'
      rcases Operation.mem_mentioned_join.mp hx with hx | hx
      · exact hother.2 part' hpart' key' hchild' x hx hx'
      · rcases hinside.1 x hx with rfl | ⟨key, hchild, hxkey⟩
        · exact Variable.not_inside_child _ _ hx'
        · -- the two entries would have one variable
          rw [Variable.child_eq_of_inside hxkey hx'] at hchild
          rw [List.filterMap_cons_some hchild, List.nodup_cons] at hnodup
          exact hnodup.1 (List.mem_filterMap.mpr ⟨part', hpart', hchild'⟩)
    · show (o.join part.operation).Nested [v]
      rcases Operation.join_cases with hjoin | hjoin
      · rwa [hjoin]
      · rw [hjoin]
        apply ho.append hparts.1
        intro x hx hx'
        rcases hinside.1 x (Operation.mem_mentioned_asPart.mp hx') with heq | ⟨key, hchild, hxkey⟩
        · exact heq
        · exact absurd hxkey (hother.1 key hchild x hx)

lemma Identity.term_eq_of_mem {s : Scope} {identity : Identity} (h : s.v ∈ (identity.term s).vars) :
    identity.term s = .variable s.v := by
  cases identity with
  | fixed => cases h
  | free | placeholder => rfl

lemma nested_node {s : Scope} {identity : Identity} {entries : Entries} {parts : List EntryPart}
    (declaration : Option Json)
    (hlocal : List.Forall₂ (CompiledEntry (fun _ s f => f.Local s.v) s identity) entries parts)
    (hparts : ∀ part ∈ parts, part.operation.asPart.Nested [s.v])
    (hnodup : (parts.filterMap (·.child)).Nodup) :
    (nodeFragment declaration (identity.term s) parts).Nested s.v := by
  have hinside : ∀ part ∈ parts, ∀ x ∈ part.operation.mentioned,
      x ∈ (identity.term s).vars ∨
        ∃ key, part.child = some (s.v.child key) ∧ x.Inside (s.v.child key) := by
    intro part hpart x hx
    obtain ⟨entry, -, hentry⟩ := exists_mem_left hlocal hpart
    exact mentioned_entry hentry hx
  constructor
  · apply nested_foldl_join (.of_no_optionals (by simp) rfl) hparts _ hnodup
    · intro part _ key _ x hx
      cases hx
    · exact fun part hpart x hx => (hinside part hpart x hx).imp_left Identity.mem_vars
  · intro q hq hv
    have hmentioned := Operation.mem_mentioned_iff.mpr (.inr ⟨q, hq, hv⟩)
    rcases Operation.mem_mentioned_foldl_join.mp hmentioned with hempty | ⟨part, hpart, hv⟩
    · cases hempty
    · rcases hinside part hpart s.v hv with hnode | ⟨key, -, hkey⟩
      · exact congrArg some (Identity.term_eq_of_mem hnode)
      · exact absurd hkey (Variable.not_inside_child _ _)

/-- The slots of a list hang at the variable of the list, and its items at their slots. -/
lemma nested_list {g : Grammar} {entries : Entries} {key : String} {s : Scope} {f f' : Fragment}
    (h : f.Nested (itemScope s).v) (hlocal : f.Local (itemScope s).v)
    (hoptional : f.operation.isOptional = false)
    (hlist : ListFragment g entries key s.v (f.term.getD (itemScope s).v.term) f f') :
    f'.Nested s.v := by
  have hinside : ∀ q ∈ f.operation.optionals, ∀ x ∈ q.mentioned, x.Inside (itemScope s).v :=
    fun q hq x hx => hlocal.mentioned x (Operation.mem_mentioned_iff.mpr (.inr ⟨q, hq, hx⟩))
  have hslots : ∀ {slot : Operation},
      (∀ p ∈ slot.required, ∀ outside, p.WellDesigned inTriples outside) → slot.optionals = [] →
      (∀ x ∈ slot.mentioned, x.Inside (itemScope s).v → x = (itemScope s).v) →
      (f.term = some (itemScope s).v.term →
        (itemScope s).v ∈ inTriples slot.requiredPattern) →
      (({} : Operation).join (slot.join f.operation).asOptional).Nested [s.v] := by
    intro slot hflat hnone hslot hitem
    have hattached : (slot.append f.operation).Nested [] := by
      apply Operation.Nested.attach hflat hnone h.nested
      · intro q hq x hx hmentioned
        exact hslot x (Operation.mem_mentioned_iff.mpr (.inl hmentioned)) (hinside q hq x hx)
      · exact fun q hq hx => hitem (h.free q hq hx)
    have hgroup : (slot.append f.operation).asOptional.Nested [] := hattached.of_parts rfl rfl rfl
    rw [Operation.join_of_not_optional hoptional]
    rcases Operation.join_cases with hjoin | hjoin <;> rw [hjoin]
    · exact .of_no_optionals (by simp) rfl
    · apply Operation.Nested.append (.of_no_optionals (by simp) rfl)
      · refine hgroup.asPart fun q hq hx => ?_
        have hq : q ∈ slot.optionals ++ f.operation.optionals := hq
        rw [hnone] at hq
        exact Variable.not_inside_child _ _ (hinside q hq s.v hx)
      · intro x hx
        cases hx
  have hvar : ∀ x ∈ (f.term.getD (itemScope s).v.term).vars, x = (itemScope s).v :=
    fun x hx => hlocal.eq_of_mem_item hx
  cases hlist with
  | linked =>
    refine ⟨hslots ?_ rfl ?_ ?_, fun _ _ _ => rfl⟩
    · simp [chainOperation, Pattern.WellDesigned]
    · exact fun x hx hin => (eq_of_mem_slots (g := g) hvar hin).1 hx
    · intro hterm
      simp [hterm, Operation.mem_inTriples_requiredPattern, chainOperation, inTriples,
        TriplePattern.link, TriplePattern.vars, PatternTerm.vars, Variable.term]
  | indexed =>
    refine ⟨hslots ?_ rfl ?_ ?_, fun _ _ _ => rfl⟩
    · simp [slotOperation]
    · exact fun x hx hin => (eq_of_mem_slots hvar hin).2 hx
    · intro hterm
      simp [hterm, Operation.mem_inTriples_requiredPattern, slotOperation, TriplePattern.link,
        TriplePattern.vars, PatternTerm.vars, Variable.term]

/-- The entries of a node object hang at its node. -/
lemma nested_part {s : Scope} {identity : Identity} {entry : String × Json} {part : EntryPart}
    (h : CompiledEntry (fun _ s f => f.Local s.v ∧ f.Nested s.v) s identity entry part) :
    part.operation.asPart.Nested [s.v] := by
  have hnode : ∀ x ∈ (identity.term s).vars, x = s.v := fun x hx => Identity.mem_vars hx
  have hempty : ({} : Operation).asPart.Nested [s.v] :=
    .of_no_optionals (by simp [Operation.asPart]) rfl
  cases h with
  | id => cases identity <;> exact hempty
  | keyword => exact hempty
  | undefined => exact hempty
  | type hkey h =>
    exact nested_link hnode (nested_type h) (local_type h) (Variable.not_inside_child _ _)
  | link hkey h => exact nested_link hnode h.2 h.1 (Variable.not_inside_child _ _)

/-- Fragments are nested. -/
theorem Grammar.preserves_nested (g : Grammar) : g.Preserves fun v f => f.Nested v where
  scalar := nested_scalar
  node s declaration identity entries parts hparts hnodup := by
    refine nested_node declaration (hparts.imp fun _ _ h => h.imp fun _ _ _ hf => hf.1) ?_ hnodup
    intro part hpart
    obtain ⟨entry, -, hentry⟩ := exists_mem_left hparts hpart
    exact nested_part hentry
  array _ h := nested_array h
  list hlocal hoptional h hlist := nested_list h hlocal hoptional hlist
  unwrapped h := ⟨h.nested, h.free⟩

end Exemplar
