import Exemplar.Proofs.Compilation.NodeTemplate
import Exemplar.Proofs.Compilation.Settled
import Exemplar.Proofs.Compilation.Sharing
import Exemplar.Proofs.Context.Absolute
import Exemplar.Proofs.Json.Constants
import Exemplar.Proofs.Template.Completion

/-!
# Compiling constants

What a constant is compiled to when the triples that it states are in the graph. Its operation is
settled, as each array is bound to the only term that its element denotes, and its template then
gives back the constant.
-/

namespace Exemplar

namespace Json

/-! ### Keys of constants -/

/-- The keys of a constant node are `@id`, `@type` and absolute IRIs. -/
lemma IsConstant.ne_keyword {entries : Entries} (h : (Json.object entries).IsConstant)
    {e : String × Json} (he : e ∈ entries) {k : Keyword} (hid : k ≠ .id) (htype : k ≠ .type) :
    e.1 ≠ k.text := by
  cases h with
  | scalar hliteral => cases hliteral
  | node _ _ _ hkey _ =>
    by_cases hspecial : e.1 = "@id" ∨ e.1 = "@type"
    · rcases hspecial with heq | heq <;> rw [heq] <;> cases k <;>
        first | exact absurd rfl hid | exact absurd rfl htype | decide
    · rw [not_or] at hspecial
      exact IriKey.ne_keyword ⟨e.1, hkey e he hspecial.1 hspecial.2⟩ k

lemma IsConstant.isNodeObject {entries : Entries} (h : (Json.object entries).IsConstant) :
    IsNodeObject entries := by
  intro e he hkey
  simp only [List.mem_cons, List.not_mem_nil, or_false] at hkey
  rcases hkey with hkey | hkey | hkey | hkey
  · exact h.ne_keyword he (k := .value) (by decide) (by decide) hkey
  · exact h.ne_keyword he (k := .list) (by decide) (by decide) hkey
  · exact h.ne_keyword he (k := .set) (by decide) (by decide) hkey
  · exact h.ne_keyword he (k := .graph) (by decide) (by decide) hkey

lemma IsConstant.not_isGraphContainer {entries : Entries} (h : (Json.object entries).IsConstant) :
    ¬ isGraphContainer entries := by
  intro hgraph
  obtain ⟨value, hvalue⟩ := Option.isSome_iff_exists.mp (Bool.and_eq_true_iff.mp hgraph).1
  exact h.ne_keyword (k := .graph) (mem_of_lookup_eq_some hvalue) (by decide) (by decide) rfl

lemma IsConstant.contextless {value : Json} (h : value.IsConstant) : value.Contextless := by
  induction h with
  | scalar hliteral hfixed => exact Constant.contextless ⟨_, _, hliteral, hfixed⟩
  | array _ ih => exact contextless_array.mpr (by simpa using ih)
  | node hid habsolute htype hkey hvalue ih =>
    have hconstant := IsConstant.node hid habsolute htype hkey hvalue
    refine contextless_object.mpr fun e he =>
      ⟨hconstant.ne_keyword he (k := .context) (by decide) (by decide), ?_⟩
    obtain ⟨key, value⟩ := e
    by_cases hkeyId : key = "@id"
    · subst hkeyId
      rw [(hid value).mp he]
      trivial
    by_cases hkeyType : key = "@type"
    · subst hkeyType
      obtain ⟨type, rfl, -⟩ := htype value he
      trivial
    exact ih key value he hkeyId hkeyType

/-! ### Terms of arrays -/

/-- The variables of the arrays in a constant, with the terms that their elements denote. -/
inductive MemberTerm : Json → Variable → Variable → Term → Prop
  | own {item : Json} {v : Variable} {t : Term} (h : item.denoted? = some t) :
    MemberTerm (.array [item]) v v t
  | item {item : Json} {v x : Variable} {t : Term} (h : MemberTerm item v x t) :
    MemberTerm (.array [item]) v x t
  | entry {entries : Entries} {key : String} {value : Json} {v x : Variable} {t : Term}
    (hmem : (key, value) ∈ entries) (h : MemberTerm value (v.child key) x t) :
    MemberTerm (.object entries) v x t

lemma MemberTerm.inside {value : Json} {v x : Variable} {t : Term} (h : value.MemberTerm v x t) :
    x.Inside v := by
  induction h with
  | own => exact .refl _
  | item _ ih => exact ih
  | entry _ _ ih => exact ih.trans (Variable.inside_child _ _)

/-- Arrays in arrays have one variable, and their elements denote one term. -/
lemma MemberTerm.denoted {value : Json} {v x : Variable} {t : Term} (h : value.MemberTerm v x t)
    (hx : x = v) : value.denoted? = some t := by
  induction h with
  | own h => exact h
  | item _ ih => exact ih hx
  | entry _ h => exact absurd hx (Variable.ne_of_inside_child h.inside)

lemma not_memberTerm_string {text : String} {v x : Variable} {t : Term} :
    ¬ (Json.string text).MemberTerm v x t := by
  intro h
  cases h

end Json

/-! ### Repeated constants -/

/-- Whether a template gives back a value once the arrays in it are bound to the terms of their
elements, and an operation binds them to these terms. -/
structure Repeats (g : Graph) (value : Json) (v : Variable) (t : Template) (o : Operation)
    (projections : List Variable) : Prop where
  unique {x : Variable} {u u' : Term} (h : value.MemberTerm v x u)
    (h' : value.MemberTerm v x u') : u = u'
  projected {x : Variable} {u : Term} (h : value.MemberTerm v x u) :
    x ∈ projections ∧ x ∈ o.mentioned
  settles {μ : Assignment} (h : ∀ x u, value.MemberTerm v x u → μ x = some u) : o.Settles g μ
  gives {rows : List Solution} (hrows : rows ≠ [])
    (h : ∀ row ∈ rows, ∀ x u, value.MemberTerm v x u → row.get? x = some u) : t.Gives rows value

namespace Repeats

variable {g : Graph} {value : Json} {v : Variable} {t : Template} {o : Operation}
  {projections : List Variable}

/-- A value without arrays is repeated as it is. -/
lemma constant (h : ∀ x u, ¬ value.MemberTerm v x u) (projections : List Variable) :
    Repeats g value v (.constant value) {} projections where
  unique hu _ := absurd hu (h _ _)
  projected hu := absurd hu (h _ _)
  settles _ := Operation.settles_empty
  gives _ _ := ⟨(), Template.addAll_constant _ _ _, rfl⟩

lemma withLink (h : Repeats g value v t o projections) {p : TriplePattern} (hp : p.Stated g) :
    Repeats g value v t (o.withLink p) projections where
  unique := h.unique
  projected hu :=
    (h.projected hu).imp id fun hx => Operation.mem_mentioned_withLink.mpr (.inr hx)
  settles hμ := (h.settles hμ).withLink hp
  gives := h.gives

/-- An array binds its variable to what its element denotes, and has the element as its only
member. -/
lemma array {item : Json} (h : Repeats g item v t o projections) {u : Term}
    (hu : item.denoted? = some u) :
    Repeats g (.array [item]) v (.set v t) (o.withRequired (.values [v] [[some u]])).asOptional
      (addVariables [v] projections) where
  unique hx hx' := by
    cases hx with
    | own hx =>
      cases hx' with
      | own hx' => exact Option.some.inj (hx.symm.trans hx')
      | item hx' => exact Option.some.inj (hx.symm.trans (hx'.denoted rfl))
    | item hx =>
      cases hx' with
      | own hx' => exact Option.some.inj ((hx.denoted rfl).symm.trans hx')
      | item hx' => exact h.unique hx hx'
  projected {x u'} hx := by
    rw [mem_addVariables, List.mem_singleton, Operation.mem_mentioned_asOptional,
      Operation.mem_mentioned_withRequired, Pattern.mentioned, List.mem_singleton]
    cases hx with
    | own => exact ⟨.inl rfl, .inl rfl⟩
    | item hx => exact (h.projected hx).imp .inr .inr
  settles hμ :=
    ((h.settles fun x u hx => hμ x u (.item hx)).withRequired
      (Pattern.settles_values (hμ v u (.own hu)))).asOptional
  gives hrows hbound :=
    Template.gives_set hrows (fun row hrow => hbound row hrow v u (.own hu))
      (h.gives hrows fun row hrow x u hx => hbound row hrow x u (.item hx))

/-- The entries of a node are repeated together if the arrays in different ones have different
variables. -/
lemma node {entries : Entries} {parts : List EntryPart} {subject : PatternTerm}
    (hparts : List.Forall₂ (fun e part => part.key = e.1 ∧
      Repeats g e.2 (v.child e.1) part.template part.operation part.projections) entries parts)
    (hkeys : (entries.map Prod.fst).Nodup)
    (hdistinct : ∀ e ∈ entries, ∀ e' ∈ entries, (∃ x u, e.2.MemberTerm (v.child e.1) x u) →
      (∃ x u, e'.2.MemberTerm (v.child e'.1) x u) → v.child e.1 = v.child e'.1 → e = e') :
    Repeats g (.object entries) v (nodeFragment none subject parts).template
      (nodeFragment none subject parts).operation
      (nodeFragment none subject parts).projections where
  unique hx hx' := by
    cases hx with
    | entry hmem hx =>
      cases hx' with
      | entry hmem' hx' =>
        cases hdistinct _ hmem _ hmem' ⟨_, _, hx⟩ ⟨_, _, hx'⟩
          (Variable.child_eq_of_inside hx.inside hx'.inside)
        obtain ⟨part, -, -, hpart⟩ := exists_mem_right hparts hmem
        exact hpart.unique hx hx'
  projected hx := by
    cases hx with
    | entry hmem hx =>
      obtain ⟨part, hmem, -, hpart⟩ := exists_mem_right hparts hmem
      obtain ⟨hprojected, hmentioned⟩ := hpart.projected hx
      exact ⟨mem_projections_nodeFragment.mpr ⟨part, hmem, hprojected⟩,
        Operation.mem_mentioned_foldl_join.mpr (.inr ⟨part, hmem, hmentioned⟩)⟩
  settles hμ := by
    refine Operation.settles_empty.foldl_join fun part hpart => ?_
    obtain ⟨e, he, -, h⟩ := exists_mem_left hparts hpart
    exact h.settles fun x u hx => hμ x u (.entry he hx)
  gives hrows hbound := by
    refine Template.gives_object hkeys ?_
    rw [List.forall₂_map_left_iff]
    refine forall₂_imp_of_mem hparts.flip fun part _ e he h => ⟨h.1, ?_⟩
    exact h.2.gives hrows fun row hrow x u hx => hbound row hrow x u (.entry he hx)

end Repeats

/-- Whether a fragment repeats a constant and is denoted by what the constant denotes. -/
structure Fragment.Repeats (g : Graph) (f : Fragment) (value : Json) (v : Variable) : Prop where
  repeats : Exemplar.Repeats g value v f.template f.operation f.projections
  term : ∃ t, value.denoted? = some t ∧ f.term = some (.constant t) ∧ fixedTerm? f.term = some t

/-! ### Entries of constants -/

section

variable {g : Graph} {entries : Entries} {v : Variable} {identity : Identity}
  {parts : List EntryPart} {id : String}
  (hid : ∀ value, ("@id", value) ∈ entries ↔ value = .string id)
  (habsolute : (Iri.parse? id).isSome)

include hid habsolute

/-- The identifier of a constant node names it. -/
lemma identity_of_constant (hcontext : (Json.object entries).Contextless)
    (h : identityOf (plainScope v) entries = .ok identity) :
    identity = .fixed ⟨id⟩ ∧
      entries.filter (fun e => (plainScope v).context.isKeyword .id e.1) =
        [("@id", .string id)] := by
  have hmem : ("@id", .string id) ∈ ownEntries entries := by
    rw [ownEntries_of_contextless hcontext]
    exact (hid _).mpr rfl
  obtain ⟨hfilter, id', heq, hidentity⟩ :=
    identityOf_of_mem_own h hmem (Context.expand?_keyword .id)
  cases heq
  rw [ownEntries_of_contextless hcontext] at hfilter
  refine ⟨?_, hfilter⟩
  rcases hidentity with ⟨hplaceholder, -⟩ | ⟨-, iri, hiri, rfl⟩
  · exact absurd hplaceholder (IriKey.ne_placeholder ⟨id, habsolute⟩)
  · rw [expandIri_absolute habsolute rfl] at hiri
    cases hiri
    rfl

end

/-- Other keys than the identifier become patterns. -/
lemma translates_of_constant {entries : Entries} (h : (Json.object entries).IsConstant)
    {e : String × Json} (he : e ∈ entries) (hkey : e.1 ≠ "@id") (v : Variable) :
    (plainScope v).Translates e.1 := by
  cases h with
  | scalar hliteral => cases hliteral
  | node _ _ _ habsolute _ =>
    by_cases htype : e.1 = "@type"
    · rw [htype]
      exact .inl (Context.expand?_keyword .type)
    · exact .inr ⟨_, expand?_absolute (habsolute e he hkey htype) .vocab⟩

section

variable {g : Graph} {entries : Entries} {v : Variable} {identity : Identity}
  {parts : List EntryPart} (hconstant : (Json.object entries).IsConstant)
  (hparts : List.Forall₂ (CompiledEntry (Compiled .standard) (plainScope v) identity) entries parts)
  (hwarnings : entryWarnings [] parts = [])

include hconstant hparts hwarnings

/-- Entries of a constant node with the same variable are the same. -/
lemma index_eq_of_constant {i j : Nat} {e e' : String × Json} (hi : entries[i]? = some e)
    (hj : entries[j]? = some e') (hkey : e.1 ≠ "@id") (hkey' : e'.1 ≠ "@id")
    (hsame : v.child e.1 = v.child e'.1) : i = j := by
  obtain ⟨part, hpart, hentry⟩ := exists_getElem?_right hparts hi
  obtain ⟨part', hpart', hentry'⟩ := exists_getElem?_right hparts hj
  obtain ⟨-, hchild⟩ :=
    hentry.child_eq (translates_of_constant hconstant (List.mem_of_getElem? hi) hkey v)
  obtain ⟨-, hchild'⟩ :=
    hentry'.child_eq (translates_of_constant hconstant (List.mem_of_getElem? hj) hkey' v)
  exact index_eq_of_child_eq (by simp [hwarnings]) hpart hpart' hchild (hsame ▸ hchild')

lemma nodup_keys_of_constant {id : String}
    (hfilter : entries.filter (fun e => (plainScope v).context.isKeyword .id e.1) =
      [("@id", .string id)]) : (entries.map Prod.fst).Nodup := by
  rw [List.Nodup, List.pairwise_map, List.pairwise_iff_getElem]
  intro i j hi hj hij hkeys
  have hi := List.getElem?_eq_getElem hi
  have hj := List.getElem?_eq_getElem hj
  refine absurd ?_ (Nat.ne_of_lt hij)
  by_cases hkey : entries[i].1 = "@id"
  · have hisId : ∀ {e : String × Json}, e.1 = "@id" →
        (plainScope v).context.isKeyword .id e.1 := fun he => Context.isKeyword_empty_iff.mpr he
    exact index_eq_of_filter_eq_singleton hfilter hi hj (hisId hkey) (hisId (hkeys ▸ hkey))
  · exact index_eq_of_constant hconstant hparts hwarnings hi hj hkey (hkeys ▸ hkey) (hkeys ▸ rfl)

end

/-! ### Constants -/

section

variable {g : Graph} {entries : Entries} {v : Variable} {id : String} {key : String} {value : Json}
  {part : EntryPart}

/-- The entry of a constant node repeats its value and states its link. -/
lemma repeats_entry (hid : ∀ value, ("@id", value) ∈ entries ↔ value = .string id)
    (htype : ∀ value, ("@type", value) ∈ entries →
      ∃ type, value = .string type ∧ (Iri.parse? type).isSome)
    (hvalue : key ≠ "@id" → key ≠ "@type" → ∀ f,
      Compiled .standard value (plainScope (v.child key)) f → f.warnings = [] →
        f.Repeats g value (v.child key))
    (hstated : ∀ t, Json.link? (.iri ⟨id⟩) key value = some t → t ∈ g.triples)
    (hmem : (key, value) ∈ entries) (hwarnings : part.warnings = [])
    (h : CompiledEntry (Compiled .standard) (plainScope v) (.fixed ⟨id⟩) (key, value) part) :
    part.key = key ∧
      Repeats g value (v.child key) part.template part.operation part.projections := by
  refine ⟨h.key_eq, ?_⟩
  rcases plain_entry_cases h hwarnings with
    ⟨rfl, rfl⟩ | ⟨rfl, f, hf, rfl⟩ | ⟨hform, f, hf, hnone, rfl⟩
  · obtain rfl := (hid value).mp hmem
    exact .constant (fun _ _ => Json.not_memberTerm_string) []
  · obtain ⟨type, rfl, habsolute⟩ := htype value hmem
    rcases compileType_eq_ok hf with ⟨heq, -⟩ | ⟨name, iri, heq, -, hiri, rfl⟩
    · cases heq
      exact absurd rfl (IriKey.ne_placeholder ⟨_, habsolute⟩)
    · cases heq
      rw [expandIri_absolute habsolute rfl] at hiri
      cases hiri
      refine (Repeats.constant (fun _ _ => Json.not_memberTerm_string) []).withLink ?_
      exact ⟨_, _, _, hstated _ rfl, rfl⟩
  · have hnotId : key ≠ "@id" := fun heq => hform (heq ▸ by decide)
    have hnotType : key ≠ "@type" := fun heq => hform (heq ▸ by decide)
    obtain ⟨hrepeats, t, hdenoted, hterm, -⟩ := hvalue hnotId hnotType f hf hnone
    have hlink := hrepeats.withLink (p := .link (.constant (.iri ⟨id⟩)) ⟨key⟩ (.constant t))
      ⟨_, _, _, hstated _ (by simp [Json.link?, hnotId, hnotType, hdenoted]), rfl⟩
    simp only [EntryPart.link, hterm]
    exact hlink

/-- A constant node is repeated if its values are. -/
lemma repeats_nodeFragment {identity : Identity} {parts : List EntryPart}
    (hconstant : (Json.object entries).IsConstant)
    (hidentity : identityOf (plainScope v) entries = .ok identity)
    (hparts : List.Forall₂ (CompiledEntry (Compiled .standard) (plainScope v) identity) entries
      parts)
    (hwarnings : entryWarnings [] parts = [])
    (hstated : ∀ t ∈ (Json.object entries).stated, t ∈ g.triples)
    (hvalue : ∀ key value, (key, value) ∈ entries → key ≠ "@id" → key ≠ "@type" → ∀ f,
      Compiled .standard value (plainScope (v.child key)) f → f.warnings = [] →
        f.Repeats g value (v.child key)) :
    (nodeFragment none (identity.term (plainScope v)) parts).Repeats g (.object entries) v := by
  obtain ⟨hnone, -, -⟩ := entryWarnings_eq_nil hwarnings
  cases id hconstant with
  | scalar hliteral => cases hliteral
  | @node _ id hid habsolute htype hkey _ =>
    obtain ⟨rfl, hfilter⟩ := identity_of_constant hid habsolute hconstant.contextless hidentity
    rw [Json.stated_node hid] at hstated
    refine ⟨.node (forall₂_imp_of_mem hparts ?_) ?_ ?_, ?_⟩
    · rintro ⟨key, value⟩ he part hpart hentry
      refine repeats_entry hid htype (hvalue key value he) (fun t ht => ?_) he (hnone part hpart)
        hentry
      exact hstated t (Json.mem_statedEntries.mpr ⟨key, value, he, .inl ht⟩)
    · exact nodup_keys_of_constant hconstant hparts hwarnings hfilter
    · have hnotId : ∀ e ∈ entries, (∃ x u, e.2.MemberTerm (v.child e.1) x u) → e.1 ≠ "@id" := by
        rintro ⟨key, value⟩ he ⟨x, u, hx⟩ rfl
        rw [(hid value).mp he] at hx
        exact Json.not_memberTerm_string hx
      intro e he e' he' hmember hmember' hsame
      obtain ⟨i, hi⟩ := List.mem_iff_getElem?.mp he
      obtain ⟨j, hj⟩ := List.mem_iff_getElem?.mp he'
      obtain rfl := index_eq_of_constant hconstant hparts hwarnings hi hj (hnotId e he hmember)
        (hnotId e' he' hmember') hsame
      exact Option.some.inj (hi.symm.trans hj)
    · exact ⟨_, Json.denoted?_node hid, rfl, rfl⟩

end

/-- A constant that is compiled without warnings is repeated by its fragment if the triples that it
states are in the graph. -/
theorem Compiled.repeats {g : Graph} {value : Json} (hconstant : value.IsConstant)
    (hstated : ∀ t ∈ value.stated, t ∈ g.triples) {v : Variable} {f : Fragment}
    (h : Compiled .standard value (plainScope v) f) (hwarnings : f.warnings = []) :
    f.Repeats g value v := by
  induction hconstant generalizing v f with
  | @scalar value l hliteral hfixed =>
    obtain rfl : f = .fixed value (.literal l) :=
      Compiled.plain_constant (c := ⟨value, l, hliteral, hfixed⟩) h
    refine ⟨.constant (fun x t hx => ?_) [], .literal l, Json.denoted?_scalar hliteral, rfl, rfl⟩
    cases hx <;> cases hliteral
  | @array item hitem ih =>
    obtain ⟨template, f', heq, hf', rfl⟩ := h.array_plain Grammar.standard_usual
    cases heq
    obtain ⟨hrepeats, t, hdenoted, hterm, hfixed⟩ :=
      ih (by rwa [Json.stated_array] at hstated) hf' (by simpa [arrayFragment] using hwarnings)
    refine ⟨?_, t, hdenoted, hterm, hfixed⟩
    simpa [arrayFragment, memberOperation, hfixed] using hrepeats.array hdenoted
  | @node entries id hid habsolute htype hkey hvalue ih =>
    have hconstant := Json.IsConstant.node hid habsolute htype hkey hvalue
    obtain ⟨identity, parts, hidentity, hparts, -, -, rfl⟩ :=
      h.node_plain Grammar.standard_usual hconstant.isNodeObject hconstant.contextless hwarnings
    refine repeats_nodeFragment hconstant hidentity hparts hwarnings hstated
      fun key value he hnotId hnotType f hf hnone => ih key value he hnotId hnotType ?_ hf hnone
    rw [Json.stated_node hid] at hstated
    exact fun t ht => hstated t (Json.mem_statedEntries.mpr ⟨key, value, he, .inr ht⟩)

end Exemplar
