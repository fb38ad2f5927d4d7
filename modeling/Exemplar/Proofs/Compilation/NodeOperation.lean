import Exemplar.Proofs.Compilation.NodeTemplate

/-!
# Operations of node templates

What has to match for a template of nodes: its constants and single values are required of a node,
and every array is a group of its own, which is joined where it matches. The variables of one entry
are used by no other entry.
-/

namespace Exemplar

/-! ### Links and groups -/

/-- The triple pattern that links a node to the value of an entry. -/
def IriKey.link (key : IriKey) (v : Variable) : TriplePattern :=
  .link (.variable v) key.iri (.variable (v.child key.text))

/-- The triple patterns that an entry requires of the node. -/
def Request.links : Request → Variable → IriKey → List TriplePattern
  | .constant c, v, key => [.link (.variable v) key.iri (.constant (.literal c.literal))]
  | .value, v, key => [key.link v]
  | .values, _, _ => []
  | .nodes _, _, _ => []

/-- The triple patterns that are required of the node. -/
def NodeTemplate.links : NodeTemplate → Variable → List TriplePattern
  | .done, _ => []
  | .id rest, v => rest.links v
  | .entry key request rest, v => request.links v key ++ rest.links v

mutual

/-- The groups of the arrays. -/
def NodeTemplate.groups : NodeTemplate → Variable → List Pattern
  | .done, _ => []
  | .id rest, v => rest.groups v
  | .entry key request rest, v => request.groups v key ++ rest.groups v

/-- The group of an entry, if it asks for an array. -/
def Request.groups : Request → Variable → IriKey → List Pattern
  | .constant _, _, _ => []
  | .value, _, _ => []
  | .values, v, key => [Operation.build { triples := [key.link v] }]
  | .nodes member, v, key =>
    [Operation.build
      { triples := key.link v :: member.links (v.child key.text)
        optionals := member.groups (v.child key.text) }]

end

/-- The operation with more triple patterns and groups. -/
def Operation.extend (o : Operation) (links : List TriplePattern) (groups : List Pattern) :
    Operation :=
  { o with triples := o.triples ++ links, optionals := o.optionals ++ groups }

/-- An operation that requires a triple pattern and is optional is one more group. -/
lemma Operation.join_group {o other : Operation} {t : TriplePattern}
    (htriples : t ∈ other.triples) (hoptional : other.isOptional) :
    o.join other = o.extend [] [other.build] := by
  have hempty : other.isEmpty = false := by
    cases h : other.triples with
    | nil => simp [h] at htriples
    | cons _ _ => simp [isEmpty, h]
  simp [join, hempty, hoptional, extend]

lemma Request.operation_nodes_of_foldl {member : NodeTemplate} {v : Variable}
    (h : (member.parts v).foldl (fun operation part => operation.join part.operation) {} =
      ({} : Operation).extend (member.links v) (member.groups v)) :
    ((Request.nodes member).fragment v).operation =
      { triples := member.links v, optionals := member.groups v, isOptional := true } := by
  change Operation.asOptional (List.foldl _ _ _) = _
  rw [h]
  simp [Operation.extend, Operation.asOptional]

mutual

/-- The operation of a node consists of its links and its groups. -/
lemma NodeTemplate.foldl_parts : ∀ (t : NodeTemplate) (v : Variable) (o : Operation),
    (t.parts v).foldl (fun operation part => operation.join part.operation) o =
      o.extend (t.links v) (t.groups v)
  | .done, v, o => by simp [NodeTemplate.parts, NodeTemplate.links, NodeTemplate.groups,
      Operation.extend]
  | .id rest, v, o => by
    rw [NodeTemplate.parts, List.foldl_cons, rest.foldl_parts]
    rfl
  | .entry key request rest, v, o => by
    rw [NodeTemplate.parts, List.foldl_cons, request.join_link, rest.foldl_parts]
    simp [NodeTemplate.links, NodeTemplate.groups, Operation.extend]

lemma Request.join_link : ∀ (request : Request) (v : Variable) (key : IriKey) (o : Operation),
    o.join (EntryPart.link (.variable v) key.text key.iri (v.child key.text)
      (request.fragment (v.child key.text))).operation =
      o.extend (request.links v key) (request.groups v key)
  | .constant c, v, key, o => by
    simp [Request.fragment, Fragment.fixed, EntryPart.link, Operation.join, Operation.isEmpty,
      Operation.withLink, Operation.extend, Request.links, Request.groups, TriplePattern.link]
  | .value, v, key, o => by
    simp [Request.fragment, Fragment.placeholder, EntryPart.link, Operation.join,
      Operation.isEmpty, Operation.withLink, Operation.extend, Request.links, Request.groups,
      IriKey.link, TriplePattern.link]
  | .values, v, key, o => by
    have hoperation : (EntryPart.link (.variable v) key.text key.iri (v.child key.text)
        (Request.values.fragment (v.child key.text))).operation =
        { triples := [key.link v], isOptional := true } := rfl
    rw [hoperation, Operation.join_group List.mem_cons_self rfl]
    rfl
  | .nodes member, v, key, o => by
    have hoperation : (EntryPart.link (.variable v) key.text key.iri (v.child key.text)
        ((Request.nodes member).fragment (v.child key.text))).operation =
        { triples := key.link v :: member.links (v.child key.text)
          optionals := member.groups (v.child key.text), isOptional := true } := by
      change Operation.withLink ((Request.nodes member).fragment _).operation (key.link v) = _
      rw [Request.operation_nodes_of_foldl (member.foldl_parts _ {})]
      rfl
    rw [hoperation, Operation.join_group List.mem_cons_self rfl]
    rfl

end

/-- The operation of an array of nodes. -/
lemma Request.operation_nodes (member : NodeTemplate) (v : Variable) :
    ((Request.nodes member).fragment v).operation =
      { triples := member.links v, optionals := member.groups v, isOptional := true } :=
  operation_nodes_of_foldl (member.foldl_parts v {})

/-! ### Variables -/

/-- Whether a variable is that of a node or inside that of one of its values. -/
def NodeTemplate.Uses (t : NodeTemplate) (v x : Variable) : Prop :=
  x = v ∨ ∃ c ∈ t.children v, x.Inside c

namespace NodeTemplate

variable {t rest : NodeTemplate} {key : IriKey} {request : Request} {v x : Variable}

lemma Uses.inside (h : t.Uses v x) : x.Inside v := by
  rcases h with rfl | ⟨c, hc, hx⟩
  · exact .refl _
  · obtain ⟨key, rfl⟩ := mem_children hc
    exact hx.trans (Variable.inside_child v key)

lemma uses_entry : (entry key request rest).Uses v x ↔
    x.Inside (v.child key.text) ∨ rest.Uses v x := by
  simp only [Uses, children, List.exists_mem_cons_iff]
  tauto

lemma Uses.entry (h : rest.Uses v x) : (entry key request rest).Uses v x :=
  uses_entry.mpr (.inr h)

/-- What other entries use is not inside the variable of a value. -/
lemma Uses.not_inside (h : rest.Uses v x) (hfresh : v.child key.text ∉ rest.children v) :
    ¬ x.Inside (v.child key.text) := by
  intro hx
  rcases h with rfl | ⟨c, hc, hxc⟩
  · exact Variable.not_inside_child _ _ hx
  · obtain ⟨key', rfl⟩ := mem_children hc
    exact hfresh (Variable.child_eq_of_inside hx hxc ▸ hc)

end NodeTemplate

lemma IriKey.mem_vars_link {key : IriKey} {v x : Variable} (h : x ∈ (key.link v).vars) :
    x = v ∨ x = v.child key.text := by
  simpa [IriKey.link, TriplePattern.link, TriplePattern.vars, PatternTerm.vars] using h

/-- A pattern of an entry uses the node and variables inside that of the value. -/
lemma Request.uses_of_mem_links {request : Request} {key : IriKey} {v x : Variable}
    (h : x ∈ (request.links v key).flatMap TriplePattern.vars) :
    x = v ∨ x.Inside (v.child key.text) := by
  cases request with
  | constant c =>
    left
    simpa [Request.links, TriplePattern.link, TriplePattern.vars, PatternTerm.vars] using h
  | value =>
    rw [Request.links, List.flatMap_singleton] at h
    exact (IriKey.mem_vars_link h).imp id fun heq => .inl heq
  | values => cases h
  | nodes member => cases h

lemma NodeTemplate.uses_of_mem_links {v x : Variable} : ∀ {t : NodeTemplate},
    x ∈ (t.links v).flatMap TriplePattern.vars → t.Uses v x
  | .done, h => by cases h
  | .id rest, h => uses_of_mem_links (t := rest) h
  | .entry key request rest, h => by
    rw [NodeTemplate.links, List.flatMap_append, List.mem_append] at h
    rcases h with h | h
    · rcases Request.uses_of_mem_links h with rfl | h
      · exact .inl rfl
      · exact NodeTemplate.uses_entry.mpr (.inl h)
    · exact (uses_of_mem_links h).entry

namespace Request

variable {key : IriKey} {v x : Variable} {member : NodeTemplate}

lemma mem_groups_values :
    x ∈ (values.groups v key).flatMap Pattern.mentioned ↔ x ∈ (key.link v).vars := by
  rw [groups, List.flatMap_singleton, Operation.mem_mentioned_build]
  simp [Operation.mentioned]

lemma mem_groups_nodes : x ∈ ((nodes member).groups v key).flatMap Pattern.mentioned ↔
    x ∈ (key.link v).vars ∨ x ∈ (member.links (v.child key.text)).flatMap TriplePattern.vars ∨
      x ∈ (member.groups (v.child key.text)).flatMap Pattern.mentioned := by
  rw [groups, List.flatMap_singleton, Operation.mem_mentioned_build]
  simp only [Operation.mentioned, List.flatMap_cons, List.flatMap_nil, List.append_nil,
    List.mem_append, or_assoc]

end Request

mutual

lemma NodeTemplate.uses_of_mem_groups {x : Variable} : ∀ (t : NodeTemplate) {v : Variable},
    x ∈ (t.groups v).flatMap Pattern.mentioned → t.Uses v x
  | .done, v, h => by cases h
  | .id rest, v, h => rest.uses_of_mem_groups h
  | .entry key request rest, v, h => by
    rw [NodeTemplate.groups, List.flatMap_append, List.mem_append] at h
    rcases h with h | h
    · rcases request.uses_of_mem_groups h with rfl | h
      · exact .inl rfl
      · exact NodeTemplate.uses_entry.mpr (.inl h)
    · exact (rest.uses_of_mem_groups h).entry

lemma Request.uses_of_mem_groups {x : Variable} : ∀ (request : Request) {v : Variable}
    {key : IriKey}, x ∈ (request.groups v key).flatMap Pattern.mentioned →
    x = v ∨ x.Inside (v.child key.text)
  | .constant c, v, key, h => by cases h
  | .value, v, key, h => by cases h
  | .values, v, key, h =>
    (IriKey.mem_vars_link (Request.mem_groups_values.mp h)).imp id fun heq => .inl heq
  | .nodes member, v, key, h => by
    rcases Request.mem_groups_nodes.mp h with h | h | h
    · exact (IriKey.mem_vars_link h).imp id fun heq => .inl heq
    · exact .inr (NodeTemplate.uses_of_mem_links h).inside
    · exact .inr (member.uses_of_mem_groups h).inside

end

/-- Groups do not use what is required, apart from the node. -/
lemma NodeTemplate.notMem_links {v x : Variable} (hne : x ≠ v) : ∀ {t : NodeTemplate},
    t.Distinct v → x ∈ (t.groups v).flatMap Pattern.mentioned →
    x ∉ (t.links v).flatMap TriplePattern.vars
  | .done, _, h => by cases h
  | .id rest, hdistinct, h => notMem_links hne (t := rest) hdistinct.2 h
  | .entry key request rest, hdistinct, h => by
    obtain ⟨hfresh, -, hrest⟩ := hdistinct
    rw [NodeTemplate.groups, List.flatMap_append, List.mem_append] at h
    rw [NodeTemplate.links, List.flatMap_append, List.mem_append]
    rintro (hlink | hlink)
    · rcases h with h | h
      · -- an entry is required or a group, but not both
        cases request with
        | constant c => cases h
        | value => cases h
        | values => cases hlink
        | nodes member => cases hlink
      · rcases Request.uses_of_mem_links hlink with heq | hinside
        · exact hne heq
        · exact (rest.uses_of_mem_groups h).not_inside hfresh hinside
    · rcases h with h | h
      · rcases request.uses_of_mem_groups h with heq | hinside
        · exact hne heq
        · exact (NodeTemplate.uses_of_mem_links hlink).not_inside hfresh hinside
      · exact notMem_links hne hrest h hlink

/-! ### Projections -/

mutual

/-- Everything that a node uses is projected, apart from the node itself. -/
lemma NodeTemplate.mem_projections {x : Variable} : ∀ (t : NodeTemplate) {v : Variable},
    x ∈ (t.links v).flatMap TriplePattern.vars ∨ x ∈ (t.groups v).flatMap Pattern.mentioned →
    x = v ∨ ∃ part ∈ t.parts v, x ∈ part.projections
  | .done, v, h => by rcases h with h | h <;> cases h
  | .id rest, v, h => (rest.mem_projections h).imp id fun ⟨part, hpart, hx⟩ =>
    ⟨part, List.mem_cons_of_mem _ hpart, hx⟩
  | .entry key request rest, v, h => by
    rw [NodeTemplate.links, NodeTemplate.groups, List.flatMap_append, List.flatMap_append,
      List.mem_append, List.mem_append, or_or_or_comm] at h
    rcases h with h | h
    · rcases request.mem_projections h with rfl | hx
      · exact .inl rfl
      · exact .inr ⟨_, List.mem_cons_self, hx⟩
    · rcases rest.mem_projections h with rfl | ⟨part, hpart, hx⟩
      · exact .inl rfl
      · exact .inr ⟨part, List.mem_cons_of_mem _ hpart, hx⟩

lemma Request.mem_projections {x : Variable} : ∀ (request : Request) {v : Variable}
    {key : IriKey}, x ∈ (request.links v key).flatMap TriplePattern.vars ∨
      x ∈ (request.groups v key).flatMap Pattern.mentioned →
    x = v ∨ x ∈ (request.fragment (v.child key.text)).projections
  | .constant c, v, key, h => by
    rcases h with h | h
    · left
      simpa [Request.links, TriplePattern.link, TriplePattern.vars, PatternTerm.vars] using h
    · cases h
  | .value, v, key, h => by
    rcases h with h | h
    · rw [Request.links, List.flatMap_singleton] at h
      exact (IriKey.mem_vars_link h).imp id fun heq => List.mem_singleton.mpr heq
    · cases h
  | .values, v, key, h => by
    rcases h with h | h
    · cases h
    · exact (IriKey.mem_vars_link (Request.mem_groups_values.mp h)).imp id fun heq =>
        mem_addVariables.mpr (.inl (List.mem_singleton.mpr heq))
  | .nodes member, v, key, h => by
    have hchild : x = v.child key.text →
        x ∈ ((Request.nodes member).fragment (v.child key.text)).projections := fun heq =>
      mem_addVariables.mpr (.inl (List.mem_singleton.mpr heq))
    rcases h with h | h
    · cases h
    · rcases Request.mem_groups_nodes.mp h with h | h
      · exact (IriKey.mem_vars_link h).imp id hchild
      · refine .inr ?_
        rcases member.mem_projections h with heq | hx
        · exact hchild heq
        · exact mem_addVariables.mpr (.inr (mem_projections_nodeFragment.mpr hx))

end

/-- Everything that an array of nodes uses is projected. -/
lemma Request.mem_projections_nodes {member : NodeTemplate} {v x : Variable}
    (h : x ∈ ((nodes member).fragment v).operation.mentioned) :
    x ∈ ((nodes member).fragment v).projections := by
  rw [operation_nodes] at h
  simp only [Operation.mentioned, List.flatMap_nil, List.append_nil, List.mem_append] at h
  rcases member.mem_projections h with rfl | hx
  · exact mem_addVariables.mpr (.inl (List.mem_singleton.mpr rfl))
  · exact mem_addVariables.mpr (.inr (mem_projections_nodeFragment.mpr hx))

end Exemplar
