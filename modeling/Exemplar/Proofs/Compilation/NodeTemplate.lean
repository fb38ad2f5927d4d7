import Exemplar.Proofs.Compilation.Plain

/-!
# Templates of nodes

The objects that ask for nodes by the values of their entries, as a syntax of their own, and what
they are compiled to.
-/

namespace Exemplar

/-! ### Syntax -/

/-- A key that is an absolute IRI. -/
structure IriKey where
  text : String
  valid : (Iri.parse? text).isSome

def IriKey.iri (key : IriKey) : Iri := ⟨key.text⟩

/-- A scalar that has to match, with the literal that it stands for. -/
structure Constant where
  value : Json
  literal : Literal
  encoded : Literal.ofNative? value = some literal
  fixed : value ≠ .string placeholderText

mutual

/-- The entries of an object that asks for nodes. -/
inductive NodeTemplate
  | done
  /-- Asks for the IRI of the node. -/
  | id (rest : NodeTemplate)
  | entry (key : IriKey) (request : Request) (rest : NodeTemplate)

/-- What an entry asks for. -/
inductive Request
  /-- A value that has to be there. -/
  | constant (c : Constant)
  /-- One value. -/
  | value
  /-- All values. -/
  | values
  /-- All values that satisfy a template. -/
  | nodes (member : NodeTemplate)

end

mutual

/-- The entries as they are written. -/
def NodeTemplate.entries : NodeTemplate → Entries
  | .done => []
  | .id rest => ("@id", .string placeholderText) :: rest.entries
  | .entry key request rest => (key.text, request.json) :: rest.entries

/-- The value of an entry as it is written. -/
def Request.json : Request → Json
  | .constant c => c.value
  | .value => .string placeholderText
  | .values => .array [.string placeholderText]
  | .nodes member => .array [.object member.entries]

end

mutual

/-- What the entries are compiled to. -/
def NodeTemplate.parts : NodeTemplate → Variable → List EntryPart
  | .done, _ => []
  | .id rest, v =>
    .id (plainScope v) .placeholder "@id" (.string placeholderText) :: rest.parts v
  | .entry key request rest, v =>
    .link (.variable v) key.text key.iri (v.child key.text) (request.fragment (v.child key.text)) ::
      rest.parts v

/-- What the value of an entry is compiled to. -/
def Request.fragment : Request → Variable → Fragment
  | .constant c, _ => .fixed c.value (.literal c.literal)
  | .value, v => .placeholder (.native v) v
  | .values, v => arrayFragment v (.placeholder (.native v) v)
  | .nodes member, v => arrayFragment v (nodeFragment none (.variable v) (member.parts v))

end

namespace NodeTemplate

def keys (t : NodeTemplate) : List String := t.entries.map Prod.fst

/-- The variables of the values of the entries. -/
def children : NodeTemplate → Variable → List Variable
  | .done, _ => []
  | .id rest, v => rest.children v
  | .entry key _ rest, v => v.child key.text :: rest.children v

end NodeTemplate

mutual

/-- Whether the values of different entries have different variables. -/
def NodeTemplate.Distinct : NodeTemplate → Variable → Prop
  | .done, _ => True
  | .id rest, v => "@id" ∉ rest.keys ∧ rest.Distinct v
  | .entry key request rest, v =>
    v.child key.text ∉ rest.children v ∧ request.Distinct (v.child key.text) ∧ rest.Distinct v

def Request.Distinct : Request → Variable → Prop
  | .constant _, _ => True
  | .value, _ => True
  | .values, _ => True
  | .nodes member, v => member.Distinct v

end

lemma NodeTemplate.distinct_done (v : Variable) : done.Distinct v := trivial

/-! ### Keys -/

/-- Keywords have no scheme. -/
lemma parse?_keyword (k : Keyword) : Iri.parse? k.text = none := by
  cases k <;> decide +kernel

lemma IriKey.ne_keyword (key : IriKey) (k : Keyword) : key.text ≠ k.text := by
  intro h
  have hvalid := key.valid
  rw [h, parse?_keyword] at hvalid
  cases hvalid

lemma IriKey.ne_id (key : IriKey) : key.text ≠ "@id" := key.ne_keyword .id

lemma IriKey.ne_placeholder (key : IriKey) : key.text ≠ placeholderText := by
  intro h
  have hvalid := key.valid
  have hnone : Iri.parse? placeholderText = none := by decide +kernel
  rw [h, hnone] at hvalid
  cases hvalid

namespace NodeTemplate

lemma mem_entries {e : String × Json} : ∀ {t : NodeTemplate}, e ∈ t.entries →
    e = ("@id", .string placeholderText) ∨ ∃ key : IriKey, e.1 = key.text
  | .done, h => by cases h
  | .id rest, h => by
    rcases List.mem_cons.mp h with rfl | h
    · exact .inl rfl
    · exact mem_entries h
  | .entry key request rest, h => by
    rcases List.mem_cons.mp h with rfl | h
    · exact .inr ⟨key, rfl⟩
    · exact mem_entries h

lemma ne_keyword_of_mem {t : NodeTemplate} {e : String × Json} (h : e ∈ t.entries) {k : Keyword}
    (hk : k ≠ .id) : e.1 ≠ k.text := by
  rcases mem_entries h with rfl | ⟨key, hkey⟩
  · cases k <;> first | exact absurd rfl hk | decide
  · rw [hkey]
    exact key.ne_keyword k

lemma isNodeObject (t : NodeTemplate) : IsNodeObject t.entries := by
  intro e he hkey
  simp only [List.mem_cons, List.not_mem_nil, or_false] at hkey
  rcases hkey with hkey | hkey | hkey | hkey
  · exact ne_keyword_of_mem he (k := .value) (by decide) hkey
  · exact ne_keyword_of_mem he (k := .list) (by decide) hkey
  · exact ne_keyword_of_mem he (k := .set) (by decide) hkey
  · exact ne_keyword_of_mem he (k := .graph) (by decide) hkey

end NodeTemplate

lemma Constant.contextless (c : Constant) : c.value.Contextless := by
  have hencoded := c.encoded
  cases h : c.value with
  | array items => simp [h, Literal.ofNative?] at hencoded
  | object entries => simp [h, Literal.ofNative?] at hencoded
  | _ => simp [Json.Contextless]

mutual

lemma NodeTemplate.contextless : ∀ t : NodeTemplate, (Json.object t.entries).Contextless
  | .done => by simp [NodeTemplate.entries, Json.contextless_object]
  | .id rest => by
    have hrest := rest.contextless
    rw [Json.contextless_object] at hrest ⊢
    exact List.forall_mem_cons.mpr ⟨⟨by simp, by simp [Json.Contextless]⟩, hrest⟩
  | .entry key request rest => by
    have hrest := rest.contextless
    rw [Json.contextless_object] at hrest ⊢
    exact List.forall_mem_cons.mpr ⟨⟨key.ne_keyword .context, request.contextless⟩, hrest⟩

lemma Request.contextless : ∀ request : Request, request.json.Contextless
  | .constant c => c.contextless
  | .value => by simp [Request.json, Json.Contextless]
  | .values => by simp [Request.json, Json.contextless_array, Json.Contextless]
  | .nodes member => by
    have hmember := member.contextless
    simpa [Request.json, Json.contextless_array] using hmember

end

/-! ### Compiling templates -/

lemma CompiledEntry.plain_link {v : Variable} {identity : Identity} {key : IriKey} {value : Json}
    {part : EntryPart}
    (h : CompiledEntry (Compiled .standard) (plainScope v) identity (key.text, value) part)
    (hwarnings : part.warnings = []) (hterm : identity.term (plainScope v) = .variable v) :
    ∃ f, Compiled .standard value (plainScope (v.child key.text)) f ∧ f.warnings = [] ∧
      part = .link (.variable v) key.text key.iri (v.child key.text) f := by
  rcases plain_entry_cases h hwarnings with ⟨heq, -⟩ | ⟨heq, -⟩ | ⟨-, f, hf, hnone, rfl⟩
  · exact absurd heq key.ne_id
  · exact absurd heq (key.ne_keyword .type)
  · exact ⟨f, hf, hnone, by rw [hterm]; rfl⟩

lemma CompiledEntry.plain_id {v : Variable} {identity : Identity} {value : Json}
    {part : EntryPart}
    (h : CompiledEntry (Compiled .standard) (plainScope v) identity ("@id", value) part)
    (hwarnings : part.warnings = []) : part = .id (plainScope v) identity "@id" value := by
  rcases plain_entry_cases h hwarnings with ⟨-, rfl⟩ | ⟨heq, -⟩ | ⟨hform, -⟩
  · rfl
  · exact absurd heq (by decide)
  · exact absurd (by decide) hform

lemma Compiled.plain_scalar {value : Json} {v : Variable} {f : Fragment}
    (h : Compiled .standard value (plainScope v) f) {l : Literal}
    (hl : Literal.ofNative? value = some l) : compilePrimitive value (plainScope v) = .ok f := by
  have hyields := h.yields
  cases value with
  | string text =>
    simp only [Kind.of] at hyields
    split at hyields <;> exact hyields
  | bool b => exact hyields
  | number n => exact hyields
  | null => cases hl
  | array items => cases hl
  | object entries => cases hl

lemma Compiled.plain_placeholder {v : Variable} {f : Fragment}
    (h : Compiled .standard (.string placeholderText) (plainScope v) f) :
    f = .placeholder (.native v) v := by
  rcases compilePrimitive_eq_ok (h.plain_scalar (l := .simple placeholderText) rfl) with
    ⟨-, rfl⟩ | ⟨t, hne, -⟩ | ⟨hterm, -⟩
  · rfl
  · exact absurd rfl hne
  · cases hterm

lemma Compiled.plain_constant {c : Constant} {v : Variable} {f : Fragment}
    (h : Compiled .standard c.value (plainScope v) f) :
    f = .fixed c.value (.literal c.literal) := by
  have hterm : constantTerm (plainScope v) c.value = .ok (some (.literal c.literal)) := by
    have hcoercion : (plainScope v).coercion? = none := rfl
    simp [constantTerm, hcoercion, c.encoded]
  rcases compilePrimitive_eq_ok (h.plain_scalar c.encoded) with
    ⟨heq, -⟩ | ⟨t, -, hterm', rfl⟩ | ⟨hterm', -⟩
  · exact absurd heq c.fixed
  · cases hterm.symm.trans hterm'
    rfl
  · cases hterm.symm.trans hterm'

namespace NodeTemplate

lemma mem_children {c : Variable} {v : Variable} : ∀ {t : NodeTemplate}, c ∈ t.children v →
    ∃ key, c = v.child key
  | .done, h => by cases h
  | .id rest, h => mem_children (t := rest) h
  | .entry key request rest, h => by
    rcases List.mem_cons.mp h with rfl | h
    · exact ⟨_, rfl⟩
    · exact mem_children h

lemma filterMap_child (v : Variable) : ∀ t : NodeTemplate,
    (t.parts v).filterMap (·.child) = t.children v
  | .done => rfl
  | .id rest => filterMap_child v rest
  | .entry key request rest => by
    rw [parts, children, ← filterMap_child v rest]
    rfl

/-- The entries of the template that a node is compiled to. -/
def shape (t : NodeTemplate) (v : Variable) : List (String × Template) :=
  (t.parts v).map fun part => (part.key, part.template)

lemma keys_shape (v : Variable) : ∀ t : NodeTemplate,
    (t.shape v).map Prod.fst = t.keys
  | .done => rfl
  | .id rest => congrArg (List.cons "@id") (rest.keys_shape v)
  | .entry key _ rest => congrArg (List.cons key.text) (rest.keys_shape v)

end NodeTemplate

/-! #### Identifiers of templates -/

namespace NodeTemplate

lemma keys_id (rest : NodeTemplate) : rest.id.keys = "@id" :: rest.keys := rfl

lemma keys_entry (key : IriKey) (request : Request) (rest : NodeTemplate) :
    (NodeTemplate.entry key request rest).keys = key.text :: rest.keys := rfl

lemma mem_entries_of_id_mem {t : NodeTemplate} (h : "@id" ∈ t.keys) :
    ("@id", .string placeholderText) ∈ t.entries := by
  obtain ⟨e, he, heq⟩ := List.mem_map.mp h
  rcases mem_entries he with rfl | ⟨key, hkey⟩
  · exact he
  · exact absurd (hkey.symm.trans heq) key.ne_id

variable (t : NodeTemplate) {v : Variable} {identity : Identity}
  (h : identityOf (plainScope v) t.entries = .ok identity)

include h

/-- A template with an identifier has one only, and it is filled in. -/
lemma identity_of_mem (hid : "@id" ∈ t.keys) :
    t.keys.count "@id" = 1 ∧ identity = .placeholder := by
  obtain ⟨id, heq, hfilter, hplaceholder⟩ :=
    identityOf_of_mem t.contextless h (mem_entries_of_id_mem hid)
  cases heq
  refine ⟨?_, hplaceholder rfl⟩
  rw [keys, List.count_eq_countP, List.countP_map, List.countP_eq_length_filter]
  exact congrArg List.length hfilter

lemma term_of_identity : identity.term (plainScope v) = .variable v := by
  by_cases hid : "@id" ∈ t.keys
  · rw [(identity_of_mem t h hid).2]
    rfl
  · have hfilter : (ownEntries t.entries).filter
        (fun e => (plainScope v).context.isKeyword .id e.1) = [] := by
      rw [ownEntries_of_contextless t.contextless, List.filter_eq_nil_iff]
      intro e he hkey
      exact hid (List.mem_map.mpr ⟨e, he, Context.isKeyword_empty_iff.mp hkey⟩)
    rw [identityOf, hfilter] at h
    cases h
    rfl

end NodeTemplate

mutual

/-- The compiled entries of a node without warnings. -/
lemma NodeTemplate.parts_of_compiled : ∀ (t : NodeTemplate) {v : Variable} {identity : Identity}
    {parts : List EntryPart},
    List.Forall₂ (CompiledEntry (Compiled .standard) (plainScope v) identity) t.entries parts →
    (∀ part ∈ parts, part.warnings = []) → (parts.filterMap (·.child)).Nodup →
    identity.term (plainScope v) = .variable v →
    ("@id" ∈ t.keys → t.keys.count "@id" = 1 ∧ identity = .placeholder) →
    parts = t.parts v ∧ t.Distinct v
  | .done, v, identity, parts, hparts, _, _, _, _ => by
    cases hparts
    exact ⟨rfl, trivial⟩
  | .id rest, v, identity, parts, hparts, hwarnings, hnodup, hterm, hid => by
    obtain ⟨hcount, rfl⟩ := hid List.mem_cons_self
    have hfresh : "@id" ∉ rest.keys := by
      rw [NodeTemplate.keys_id, List.count_cons_self] at hcount
      exact List.count_eq_zero.mp (by omega)
    cases hparts with
    | @cons _ part _ parts hpart hparts =>
      rw [List.forall_mem_cons] at hwarnings
      obtain rfl := hpart.plain_id hwarnings.1
      obtain ⟨rfl, hdistinct⟩ := rest.parts_of_compiled hparts hwarnings.2 hnodup hterm
        fun h => absurd h hfresh
      exact ⟨rfl, hfresh, hdistinct⟩
  | .entry key request rest, v, identity, parts, hparts, hwarnings, hnodup, hterm, hid => by
    cases hparts with
    | @cons _ part _ parts hpart hparts =>
      rw [List.forall_mem_cons] at hwarnings
      obtain ⟨f, hf, hnone, rfl⟩ := hpart.plain_link hwarnings.1 hterm
      have hcons := List.nodup_cons.mp (show (v.child key.text :: parts.filterMap (·.child)).Nodup
        from hnodup)
      obtain ⟨rfl, hdistinct⟩ := rest.parts_of_compiled hparts hwarnings.2 hcons.2 hterm fun h => by
        obtain ⟨hcount, hidentity⟩ := hid (List.mem_cons_of_mem _ h)
        rw [NodeTemplate.keys_entry, List.count_cons_of_ne key.ne_id] at hcount
        exact ⟨hcount, hidentity⟩
      obtain ⟨rfl, hrequest⟩ := request.fragment_of_compiled hf hnone
      rw [rest.filterMap_child v] at hcons
      exact ⟨rfl, hcons.1, hrequest, hdistinct⟩

/-- The fragment of the value of an entry without warnings. -/
lemma Request.fragment_of_compiled : ∀ (request : Request) {v : Variable} {f : Fragment},
    Compiled .standard request.json (plainScope v) f → f.warnings = [] →
    f = request.fragment v ∧ request.Distinct v
  | .constant c, v, f, hf, _ => ⟨hf.plain_constant, trivial⟩
  | .value, v, f, hf, _ => ⟨hf.plain_placeholder, trivial⟩
  | .values, v, f, hf, hnone => by
    obtain ⟨template, f', heq, hf', rfl⟩ := hf.array_plain Grammar.standard_usual
    cases heq
    obtain rfl := hf'.plain_placeholder
    exact ⟨rfl, trivial⟩
  | .nodes member, v, f, hf, hnone => by
    obtain ⟨template, f', heq, hf', rfl⟩ := hf.array_plain Grammar.standard_usual
    cases heq
    obtain ⟨identity, parts, hidentity, hparts, hwarnings, hnodup, rfl⟩ :=
      hf'.node_plain Grammar.standard_usual member.isNodeObject member.contextless
        (by simpa [arrayFragment] using hnone)
    have hterm := member.term_of_identity hidentity
    obtain ⟨rfl, hdistinct⟩ := member.parts_of_compiled hparts hwarnings hnodup hterm
      fun hid => member.identity_of_mem hidentity hid
    refine ⟨?_, hdistinct⟩
    rw [hterm]
    rfl

end

end Exemplar
