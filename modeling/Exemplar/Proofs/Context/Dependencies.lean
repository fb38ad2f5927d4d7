import Exemplar.Proofs.Context.Definitions
import Mathlib.Logic.Relation

/-!
# Dependencies between terms

A term of a declaration depends on the other terms of it that its definition refers to. It has a
definition if all of these have theirs and it can be read with them; all other terms mean what they
mean around the declaration. This says nothing of an order in which the terms are defined.
-/

namespace Exemplar

namespace Declaration

/-- The other terms of a declaration that the expansion of a name depends on. -/
def needed (entries : Entries) (term name : String) : List String :=
  (parts name).filter fun u => u ≠ term ∧ entries.has u

/-- Whether the definition of one term refers to another one of the same declaration. -/
def DependsOn (entries : Entries) (term u : String) : Prop :=
  ∃ value, entries.get? term = some value ∧ ∃ name ∈ referred term value,
    u ∈ needed entries term name

/-- Whether dependencies lead from one term to another. -/
abbrev Reaches (entries : Entries) : String → String → Prop :=
  Relation.ReflTransGen (DependsOn entries)

/-- Whether a term has a definition in a context in which all names that it refers to are known. -/
def Reads (now : Context) (term : String) (value : Json) (definition : Option TermDefinition) :
    Prop :=
  ∀ st, readTerm (lookUp now term) term st value = .ok (definition, st)

/-- What a declaration says about a term on top of a context. The context in which it is read has
the definitions of the terms on which the term depends; the term itself and the terms that are not
of the declaration mean what they mean around it. -/
inductive Settled (entries : Entries) (c : Context) : String → Option TermDefinition → Prop
  | intro {term : String} {value : Json} {definition : Option TermDefinition} (now : Context)
      (hget : entries.get? term = some value) (hvocabulary : now.vocabulary = c.vocabulary)
      (hneeded : ∀ u, DependsOn entries term u → Settled entries c u (now.term? u))
      (hother : ∀ u, ¬ (u ≠ term ∧ entries.has u) → now.term? u = c.term? u)
      (hreads : Reads now term value definition) : Settled entries c term definition

section

variable {entries : Entries} {c now now' : Context} {term u name : String} {value : Json}
  {definition definition' : Option TermDefinition}

lemma mem_needed :
    u ∈ needed entries term name ↔ u ∈ parts name ∧ u ≠ term ∧ entries.has u := by
  simp [needed]

lemma DependsOn.intro (hget : entries.get? term = some value) (hname : name ∈ referred term value)
    (hu : u ∈ parts name) (hmem : u ≠ term ∧ entries.has u) : DependsOn entries term u :=
  ⟨value, hget, name, hname, mem_needed.mpr ⟨hu, hmem⟩⟩

lemma Settled.has (h : Settled entries c term definition) : entries.has term := by
  obtain ⟨now, hget, -⟩ := h
  exact Option.isSome_of_eq_some hget

/-! ### Reading in a context -/

lemma refers_lookUp_iff {names : List String} {es : List Expansion} {st st' : Progress} :
    Refers (lookUp now term) names st es st' ↔
      List.Forall₂ (fun name e => now.expand? .vocab name = some e) names es ∧ st' = st := by
  constructor
  · intro h
    induction h with
    | nil st => exact ⟨.nil, rfl⟩
    | cons hname _ ih =>
      obtain ⟨hexpand, rfl⟩ := lookUp_eq_ok.mp hname
      exact ⟨.cons hexpand ih.1, ih.2⟩
  · rintro ⟨h, rfl⟩
    induction h with
    | nil => exact .nil st'
    | cons hexpand _ ih => exact .cons (lookUp_eq_ok.mpr ⟨hexpand, rfl⟩) ih

/-- What is read in a context depends on the names that are referred to only. -/
lemma Reads.exists_expansions (h : Reads now term value definition) : ∃ es,
    List.Forall₂ (fun name e => now.expand? .vocab name = some e) (referred term value) es ∧
      ∀ refer st st', Refers refer (referred term value) st es st' →
        readTerm refer term st value = .ok (definition, st') := by
  obtain ⟨es, hrefers, hsame⟩ := determined_readTerm term value _ ⟨now, []⟩ _ _ (h ⟨now, []⟩)
  exact ⟨es, (refers_lookUp_iff.mp hrefers).1, hsame⟩

lemma Reads.congr (h : Reads now term value definition)
    (hexpand : ∀ name ∈ referred term value,
      now.expand? .vocab name = now'.expand? .vocab name) :
    Reads now' term value definition := by
  obtain ⟨es, hes, hsame⟩ := h.exists_expansions
  refine fun st => hsame _ st st (refers_lookUp_iff.mpr ⟨?_, rfl⟩)
  exact forall₂_imp_of_mem hes fun name hname e _ he => (hexpand name hname).symm.trans he

/-! ### Definitions -/

/-- A term has at most one definition. -/
lemma Settled.unique (h : Settled entries c term definition)
    (h' : Settled entries c term definition') : definition = definition' := by
  induction h generalizing definition' with
  | @intro term value definition now hget hvocabulary hneeded hother hreads ih =>
    obtain ⟨now', hget', hvocabulary', hneeded', hother', hreads'⟩ := h'
    cases hget.symm.trans hget'
    have hexpand : ∀ name ∈ referred term value,
        now.expand? .vocab name = now'.expand? .vocab name := by
      intro name hname
      refine expand?_congr (hvocabulary.trans hvocabulary'.symm) fun u hu => ?_
      by_cases hmem : u ≠ term ∧ entries.has u
      · have hdepends := DependsOn.intro hget hname hu hmem
        exact ih u hdepends (hneeded' u hdepends)
      · exact (hother u hmem).trans (hother' u hmem).symm
    have hsame := hreads.congr hexpand ⟨now', []⟩
    rw [hreads' ⟨now', []⟩] at hsame
    cases hsame
    rfl

/-- A term that has a definition does not depend on itself, however indirectly. -/
lemma Settled.acyclic (h : Settled entries c term definition) {u : String}
    (hdepends : DependsOn entries term u) : ¬ Reaches entries u term := by
  induction h generalizing u with
  | intro now hget hvocabulary hneeded hother hreads ih =>
    intro hreaches
    rcases hreaches.cases_head with rfl | ⟨w, hw, hreaches⟩
    · obtain ⟨_, -, name, -, hmem⟩ := hdepends
      exact (mem_needed.mp hmem).2.1 rfl
    · exact ih u hdepends hw (hreaches.tail hdepends)

/-- Whether a context has what the expansion of a name in the definition of a term depends on. -/
structure Knows (entries : Entries) (c : Context) (term name : String) (now : Context) : Prop where
  vocabulary : now.vocabulary = c.vocabulary
  settled : ∀ u ∈ needed entries term name, Settled entries c u (now.term? u)
  other : ∀ u, ¬ (u ≠ term ∧ entries.has u) → now.term? u = c.term? u

/-- A name expands alike in all contexts that have what it depends on. -/
lemma Knows.expand?_eq (h : Knows entries c term name now) (h' : Knows entries c term name now') :
    now.expand? .vocab name = now'.expand? .vocab name := by
  refine expand?_congr (h.vocabulary.trans h'.vocabulary.symm) fun u hu => ?_
  by_cases hmem : u ≠ term ∧ entries.has u
  · have hu := mem_needed.mpr ⟨hu, hmem⟩
    exact (h.settled u hu).unique (h'.settled u hu)
  · exact (h.other u hmem).trans (h'.other u hmem).symm

/-! ### Declarations with the same entries -/

variable {entries' : Entries}

lemma has_congr (hget : ∀ key, entries.get? key = entries'.get? key) (key : String) :
    entries.has key = entries'.has key :=
  congrArg Option.isSome (hget key)

lemma dependsOn_congr (hget : ∀ key, entries.get? key = entries'.get? key) :
    DependsOn entries = DependsOn entries' := by
  funext term u
  simp only [DependsOn, mem_needed, hget, has_congr hget]

/-- What a declaration says about a term does not depend on the order of its entries. -/
lemma Settled.congr (hget : ∀ key, entries.get? key = entries'.get? key)
    (h : Settled entries c term definition) : Settled entries' c term definition := by
  induction h with
  | intro now hvalue hvocabulary hneeded hother hreads ih =>
    refine .intro now ((hget _).symm.trans hvalue) hvocabulary (fun u hu => ?_) (fun u hu => ?_)
      hreads
    · exact ih u (dependsOn_congr hget ▸ hu)
    · exact hother u (has_congr hget u ▸ hu)

end

end Declaration

end Exemplar
