import Exemplar.Context.Declaration
import Exemplar.Proofs.Outcome

/-!
# Reading one definition

What is read for a term depends on the context only through the names that the definition refers
to, and how a name expands depends only on the term that it is and the term in front of its colon.
-/

namespace Exemplar

namespace Declaration

/-! ### Names -/

/-- The terms on which the expansion of a name depends: the name and what precedes its colon. -/
def parts (name : String) : List String := name :: ((splitColon? name).map Prod.fst).toList

/-- Contexts with the same vocabulary that agree on the parts of a name expand it alike. -/
lemma expand?_congr {c c' : Context} {name : String} (hvocabulary : c.vocabulary = c'.vocabulary)
    (hparts : ∀ u ∈ parts name, c.term? u = c'.term? u) :
    c.expand? .vocab name = c'.expand? .vocab name := by
  have hexact : c.exactTerm? .vocab name = c'.exactTerm? .vocab name :=
    hparts name List.mem_cons_self
  have hrelative : c.expandRelative? .vocab name = c'.expandRelative? .vocab name := by
    simp only [Context.expandRelative?, hvocabulary]
  have hname : c.expandName? .vocab name = c'.expandName? .vocab name := by
    unfold Context.expandName?
    cases hsplit : splitColon? name with
    | none => exact hrelative
    | some pair =>
      obtain ⟨start, suffix⟩ := pair
      have hstart : c.term? start = c'.term? start := hparts start (by simp [parts, hsplit])
      simp only [hrelative, Context.prefixIri?, hstart]
  simp only [Context.expand?, hexact, hname]

/-- Expands a name in a context that stays as it is. -/
def lookUp (c : Context) (term name : String) (st : Progress) :
    Except ContextError (Expansion × Progress) :=
  match c.expand? .vocab name with
  | some expansion => .ok (expansion, st)
  | none => .error (.invalidTerm term (.notExpandable name))

lemma lookUp_eq_ok {c : Context} {term name : String} {e : Expansion} {st st' : Progress} :
    lookUp c term name st = .ok (e, st') ↔ c.expand? .vocab name = some e ∧ st' = st := by
  unfold lookUp
  split
  · next heq => simp [heq, eq_comm]
  · next heq => simp [heq]

/-! ### Definitions -/

/-- The names that are expanded for the entry `@id` of a term. -/
def mappingNames (term : String) : Option Json → List String
  | some (.string value) => [value]
  | none => [term]
  | some _ => []

/-- The names that are expanded for the entry `@type`. -/
def coercionNames : Option Json → List String
  | some (.string kind) => if kind = "@id" ∨ kind = "@vocab" then [] else [kind]
  | _ => []

/-- The names that the definition of a term refers to. -/
def referred (term : String) : Json → List String
  | .string value => [value]
  | .object entries =>
    mappingNames term (Entries.get? entries "@id") ++ coercionNames (Entries.get? entries "@type")
  | _ => []

/-- A way to expand names, which may define terms on its way. -/
abbrev Refer := String → Progress → Except ContextError (Expansion × Progress)

/-- Names that are expanded one after the other, each in the state that the one before it leaves
behind. -/
inductive Refers (refer : Refer) : List String → Progress → List Expansion → Progress → Prop
  | nil (st : Progress) : Refers refer [] st [] st
  | cons {name : String} {names : List String} {e : Expansion} {es : List Expansion}
      {st m st' : Progress} : refer name st = .ok (e, m) → Refers refer names m es st' →
      Refers refer (name :: names) st (e :: es) st'

section

variable {refer : Refer} {st st' : Progress} {name : String}

lemma refers_singleton {es : List Expansion} :
    Refers refer [name] st es st' ↔ ∃ e, refer name st = .ok (e, st') ∧ es = [e] := by
  constructor
  · rintro (_ | ⟨h, ⟨⟩⟩)
    exact ⟨_, h, rfl⟩
  · rintro ⟨e, h, rfl⟩
    exact .cons h (.nil st')

lemma Refers.length_eq {names : List String} {es : List Expansion}
    (h : Refers refer names st es st') : es.length = names.length := by
  induction h with
  | nil => rfl
  | cons _ _ ih => simp [ih]

lemma refers_append {names names' : List String} {es : List Expansion} :
    Refers refer (names ++ names') st es st' ↔
      ∃ es₁ m es₂, Refers refer names st es₁ m ∧ Refers refer names' m es₂ st' ∧
        es = es₁ ++ es₂ := by
  induction names generalizing st es with
  | nil =>
    constructor
    · exact fun h => ⟨[], st, es, .nil st, h, rfl⟩
    · rintro ⟨_, _, es₂, ⟨⟩, h, rfl⟩
      exact h
  | cons name names ih =>
    constructor
    · rintro (_ | ⟨h, hrest⟩)
      obtain ⟨es₁, m, es₂, h₁, h₂, rfl⟩ := ih.mp hrest
      exact ⟨_, m, es₂, .cons h h₁, h₂, rfl⟩
    · rintro ⟨_, m, es₂, _ | ⟨h, h₁⟩, h₂, rfl⟩
      exact .cons h (ih.mpr ⟨_, m, es₂, h₁, h₂, rfl⟩)

end

/-- Whether reading expands the given names only, and yields the same whenever these names expand to
the same. -/
def Determined {α : Type} (names : List String)
    (read : Refer → Progress → Except ContextError (α × Progress)) : Prop :=
  ∀ refer st a st', read refer st = .ok (a, st') → ∃ es, Refers refer names st es st' ∧
    ∀ refer' x x', Refers refer' names x es x' → read refer' x = .ok (a, x')

section

variable {term : String}

lemma determined_refer (name : String) : Determined [name] fun refer st => refer name st := by
  intro refer st e st' h
  refine ⟨[e], .cons h (.nil st'), fun refer' x x' hrefers => ?_⟩
  obtain ⟨e', hx, heq⟩ := refers_singleton.mp hrefers
  cases heq
  exact hx

lemma determined_ok {α : Type} (a : α) : Determined [] fun _ st => .ok (a, st) := by
  rintro refer st _ _ ⟨⟩
  refine ⟨[], .nil st, fun refer' x x' hrefers => ?_⟩
  cases hrefers
  rfl

lemma determined_error {α : Type} (names : List String) (e : ContextError) :
    Determined names fun _ _ => (.error e : Except ContextError (α × Progress)) :=
  fun _ _ _ _ h => by cases h

/-- One reading after another expands the names of both. -/
lemma Determined.bind {α β : Type} {names names' both : List String}
    {read : Refer → Progress → Except ContextError (α × Progress)}
    {next : α → Refer → Progress → Except ContextError (β × Progress)}
    (hread : Determined names read) (hnext : ∀ a, Determined names' (next a))
    (hboth : names ++ names' = both) :
    Determined both fun refer st => read refer st >>= fun r => next r.1 refer r.2 := by
  intro refer st b st' h
  subst hboth
  obtain ⟨⟨a, m⟩, ha, hb⟩ := bind_eq_ok.mp h
  obtain ⟨es₁, hrefers₁, hsame₁⟩ := hread refer st a m ha
  obtain ⟨es₂, hrefers₂, hsame₂⟩ := hnext a refer m b st' hb
  refine ⟨es₁ ++ es₂, refers_append.mpr ⟨es₁, m, es₂, hrefers₁, hrefers₂, rfl⟩, ?_⟩
  intro refer' x x' hrefers
  obtain ⟨es₁', m', es₂', hrefers₁', hrefers₂', heq⟩ := refers_append.mp hrefers
  obtain ⟨rfl, rfl⟩ := List.append_inj heq (hrefers₁.length_eq.trans hrefers₁'.length_eq.symm)
  exact bind_eq_ok.mpr ⟨(a, m'), hsame₁ refer' x m' hrefers₁', hsame₂ refer' m' x' hrefers₂'⟩

lemma determined_readMapping (id : Option Json) :
    Determined (mappingNames term id) fun refer st => readMapping refer term st id := by
  match id with
  | none => exact determined_refer term
  | some (.string value) => exact determined_refer value
  | some .null | some (.bool _) | some (.number _) | some (.array _) | some (.object _) =>
    exact determined_error _ _

lemma determined_readCoercion (kind : Option Json) :
    Determined (coercionNames kind) fun refer st => readCoercion refer term st kind := by
  match kind with
  | none => exact determined_ok none
  | some (.string kind) =>
    unfold coercionNames readCoercion
    by_cases hid : kind = "@id"
    · simp only [hid, true_or, if_true]
      exact determined_ok (some Coercion.id)
    · by_cases hvocab : kind = "@vocab"
      · simp only [hvocab, or_true, if_true]
        exact determined_ok (some Coercion.vocab)
      · simp only [hid, hvocab, or_self, if_false]
        intro refer st coercion st' h
        obtain ⟨⟨e, m⟩, he, h⟩ := bind_eq_ok.mp h
        cases e with
        | keyword keyword => cases h
        | iri datatype =>
          cases h
          refine ⟨[.iri datatype], refers_singleton.mpr ⟨_, he, rfl⟩, ?_⟩
          intro refer' x x' hrefers
          obtain ⟨e, hx, heq⟩ := refers_singleton.mp hrefers
          cases heq
          exact bind_eq_ok.mpr ⟨_, hx, rfl⟩
  | some .null | some (.bool _) | some (.number _) | some (.array _) | some (.object _) =>
    exact determined_error _ _

lemma determined_readDefinition (entries : Entries) :
    Determined (mappingNames term (entries.get? "@id") ++ coercionNames (entries.get? "@type"))
      fun refer st => readDefinition refer term entries st := by
  have hcontainer : ∀ mapping coercion, Determined [] fun _ st =>
      readContainer term (entries.get? "@container") >>= fun container =>
        .ok (TermDefinition.mk mapping coercion container, st) := by
    intro mapping coercion
    cases readContainer term (entries.get? "@container") with
    | error e => exact determined_error _ e
    | ok container => exact determined_ok (TermDefinition.mk mapping coercion container)
  have hcoercion : ∀ mapping, Determined (coercionNames (entries.get? "@type")) fun refer st =>
      readCoercion refer term st (entries.get? "@type") >>= fun r =>
        readContainer term (entries.get? "@container") >>= fun container =>
          .ok (TermDefinition.mk mapping r.1 container, r.2) :=
    fun mapping => (determined_readCoercion _).bind (hcontainer mapping) (List.append_nil _)
  unfold readDefinition
  by_cases hreverse : entries.has "@reverse"
  · simp only [hreverse, if_true]
    exact determined_error _ _
  · simp only [hreverse, Bool.false_eq_true, if_false]
    exact (determined_readMapping _).bind hcoercion rfl

/-- What is said about a term is read alike whenever the names that it refers to expand alike. -/
lemma determined_readTerm (term : String) (value : Json) :
    Determined (referred term value) fun refer st => readTerm refer term st value := by
  match value with
  | .null => exact determined_ok none
  | .string value =>
    have hmapping : ∀ mapping, Determined [] fun _ st =>
        .ok (some (TermDefinition.mk mapping none none), st) :=
      fun mapping => determined_ok (some (TermDefinition.mk mapping none none))
    exact (determined_refer value).bind hmapping rfl
  | .object entries =>
    exact (determined_readDefinition entries).bind
      (fun definition => determined_ok (some definition)) (List.append_nil _)
  | .bool _ | .number _ | .array _ => exact determined_error _ _

end

end Declaration

end Exemplar
