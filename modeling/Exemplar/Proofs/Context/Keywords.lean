import Exemplar.Proofs.Context.Equations
import Exemplar.Proofs.Context.Names

/-!
# Keywords among the terms

A declaration keeps entries such as `@vocab` beside its terms. They are skipped when the terms are
defined one after the other, but a term whose definition refers to such an entry defines it as well.
Without references of this kind no term of a context has the form of a keyword.
-/

namespace Exemplar

namespace Declaration

/-- Whether a term refers to an entry that has the form of a keyword and is not `null`. -/
def MakesKeyword (entries : Entries) : Prop :=
  ∃ term u, ¬ Keyword.hasForm term ∧ DependsOn entries term u ∧ Keyword.hasForm u ∧
    entries.get? u ≠ some .null

mutual

/-- Whether no object of a declaration makes a term of a keyword. -/
def KeepsKeywords : Json → Prop
  | .array declarations => AllKeepKeywords declarations
  | .object entries => ¬ MakesKeyword entries
  | _ => True

def AllKeepKeywords : List Json → Prop
  | [] => True
  | declaration :: rest => KeepsKeywords declaration ∧ AllKeepKeywords rest

end

section

variable {entries : Entries} {start around c : Context} {term u : String} {st : Progress}

/-! ### One declaration -/

lemma get?_ne_null_of_dependsOn (h : DependsOn entries term u) :
    entries.get? term ≠ some .null := by
  obtain ⟨value, hget, name, hname, -⟩ := h
  intro hnull
  cases hget.symm.trans hnull
  cases hname

/-- The first keyword on a way from a term to a keyword is one that a term refers to. -/
lemma makesKeyword_of_reaches (hreaches : Reaches entries term u) (hterm : ¬ Keyword.hasForm term)
    (hu : Keyword.hasForm u) (hget : entries.get? u ≠ some .null) : MakesKeyword entries := by
  induction hreaches using Relation.ReflTransGen.head_induction_on with
  | refl => exact absurd hu hterm
  | @head term next hstep hrest ih =>
    by_cases hnext : Keyword.hasForm next
    · refine ⟨term, next, hterm, hstep, hnext, ?_⟩
      rcases hrest.cases_head with rfl | ⟨w, hw, -⟩
      · exact hget
      · exact get?_ne_null_of_dependsOn hw
    · exact ih hnext

/-- A keyword is defined if and only if a term refers to it, given that none is defined around the
declaration. -/
lemma exists_keyword_iff (h : applyEntries entries around = .ok c)
    (haround : ∀ term ∈ around.terms.names, ¬ Keyword.hasForm term) :
    (∃ term ∈ c.terms.names, Keyword.hasForm term) ↔ MakesKeyword entries := by
  obtain ⟨start, st, hstart, hall, rfl⟩ := exists_run_of_applyEntries h
  have hsound := hall.sound
  constructor
  · rintro ⟨u, hname, hu⟩
    obtain ⟨definition, hdefinition⟩ := Context.mem_names_iff.mp hname
    by_cases hdefined : u ∈ st.defined
    · have hget := (hsound.settled u hdefined).isSome_iff.mp (Option.isSome_of_eq_some hdefinition)
      obtain ⟨term, hterm, hreaches⟩ :=
        (hall.mem_defined_iff fun _ => has_of_mem_termKeys).mp hdefined
      exact makesKeyword_of_reaches hreaches (mem_termKeys_iff.mp hterm).1 hu hget
    · have hkept : around.term? u = some definition := by
        rw [← hdefinition, hsound.untouched u hdefined, Context.term?, Context.term?, hstart.terms]
      exact absurd hu (haround u (Context.mem_names_iff.mpr ⟨definition, hkept⟩))
  · rintro ⟨term, u, hterm, hdepends, hu, hget⟩
    have hhas : entries.has term := by
      obtain ⟨value, hvalue, -⟩ := hdepends
      exact Option.isSome_of_eq_some hvalue
    have hdefined := hsound.closed term (hall.term_defined hterm hhas) u hdepends
    obtain ⟨definition, hdefinition⟩ :=
      Option.isSome_iff_exists.mp ((hsound.settled u hdefined).isSome_iff.mpr hget)
    exact ⟨u, Context.mem_names_iff.mpr ⟨definition, hdefinition⟩, hu⟩

end

/-! ### Declarations one after the other -/

mutual

lemma not_hasForm_of_apply {declaration : Json} (hkeeps : KeepsKeywords declaration)
    {around c : Context} (haround : ∀ term ∈ around.terms.names, ¬ Keyword.hasForm term)
    (h : apply declaration around = .ok c) : ∀ term ∈ c.terms.names, ¬ Keyword.hasForm term := by
  match declaration with
  | .null =>
    cases h
    exact fun _ hterm => absurd hterm List.not_mem_nil
  | .array declarations => exact not_hasForm_of_applyAll hkeeps haround h
  | .object entries =>
    intro term hname hterm
    exact hkeeps ((exists_keyword_iff h haround).mp ⟨term, hname, hterm⟩)
  | .string _ | .bool _ | .number _ => cases h

lemma not_hasForm_of_applyAll {declarations : List Json} (hkeeps : AllKeepKeywords declarations)
    {around c : Context} (haround : ∀ term ∈ around.terms.names, ¬ Keyword.hasForm term)
    (h : applyAll declarations around = .ok c) :
    ∀ term ∈ c.terms.names, ¬ Keyword.hasForm term := by
  match declarations with
  | [] =>
    cases h
    exact haround
  | declaration :: rest =>
    obtain ⟨m, hm, h⟩ := bind_eq_ok.mp h
    exact not_hasForm_of_applyAll hkeeps.2 (not_hasForm_of_apply hkeeps.1 haround hm) h

end

/-! ### Compaction -/

section

variable {c : Context} {name : String}

lemma not_hasForm_of_mem_names (hterms : ∀ term ∈ c.terms.names, ¬ Keyword.hasForm term)
    {iri : String} (h : name ∈ c.exactNames iri ∨ name ∈ c.compactNames iri) :
    ¬ Keyword.hasForm name := by
  rcases h with h | h
  · obtain ⟨definition, hdefinition, -⟩ := Context.mem_exactNames_iff.mp h
    exact hterms name (Context.mem_names_iff.mpr ⟨definition, hdefinition⟩)
  · obtain ⟨term, definition, start, suffix, hdefinition, -, -, rfl⟩ :=
      Context.exists_of_mem_compactNames h
    exact not_hasForm_append (hterms term (Context.mem_names_iff.mpr ⟨definition, hdefinition⟩))

/-- Without references to entries for keywords no term of a context has the form of a keyword,
whatever declarations are applied one after the other. No name that a term provides has it either:
where compaction yields such a name, it is the IRI itself or a part of it. -/
theorem keywords_are_no_terms {start : Context} {declarations : List Json}
    (hstart : start = .empty ∨ ∃ base, start = .ofBase base)
    (hkeeps : AllKeepKeywords declarations) (h : applyAll declarations start = .ok c) :
    (∀ term ∈ c.terms.names, ¬ Keyword.hasForm term) ∧ ∀ iri,
      (∀ name, name ∈ c.exactNames iri ∨ name ∈ c.compactNames iri → ¬ Keyword.hasForm name) ∧
      ∀ mode, Keyword.hasForm (c.compact mode iri) → c.compact mode iri = iri ∨
        mode = .vocab ∧ c.vocabularyName? iri = some (c.compact mode iri) ∨
        mode = .base ∧ c.baseName? iri = some (c.compact mode iri) := by
  have hempty : start.terms = .empty := by
    rcases hstart with rfl | ⟨base, rfl⟩
    · rfl
    · rfl
  have hterms : ∀ term ∈ c.terms.names, ¬ Keyword.hasForm term := by
    refine not_hasForm_of_applyAll hkeeps (fun term hterm => ?_) h
    rw [hempty] at hterm
    exact absurd hterm List.not_mem_nil
  refine ⟨hterms, fun iri => ⟨fun name => not_hasForm_of_mem_names hterms, fun mode hform => ?_⟩⟩
  rcases c.compact_cases mode iri with hkept | hcompact | ⟨-, hexact⟩ | hname
  · exact .inl hkept
  · exact absurd hform (not_hasForm_of_mem_names hterms (.inr hcompact))
  · exact absurd hform (not_hasForm_of_mem_names hterms (.inl hexact))
  · exact .inr hname

/-- A vocabulary, and a term that stands for a keyword. -/
def besideVocabulary : Entries := [("@vocab", .string "ex:"), ("type", .string "@type")]

/-- The context with nothing but this vocabulary. -/
def vocabularyOnly : Context := { Context.empty with vocabulary := some "ex:" }

lemma readVocabulary_only :
    readVocabulary .empty (some (.string "ex:")) = .ok vocabularyOnly := by
  have hexpand : Context.empty.expand? .vocab "ex:" = some (.iri ⟨"ex:"⟩) := by decide +kernel
  rw [readVocabulary, hexpand]
  rfl

lemma applyEntries_besideVocabulary :
    ∃ c, applyEntries besideVocabulary .empty = .ok c ∧ "type" ∈ c.terms.names := by
  have htype : define besideVocabulary [] "type" ⟨vocabularyOnly, []⟩ =
      .ok (.finish ⟨vocabularyOnly, []⟩ "type" (some { mapping := .keyword .type })) := by
    have hneeded : needed besideVocabulary "type" "@type" = [] := by decide
    refine define_of_defineAll List.not_mem_nil List.not_mem_nil rfl ?_ rfl
    rw [hneeded]
    rfl
  refine ⟨_, applyEntries_eq_ok_iff.mpr
    ⟨_, .empty, _, rfl, readVocabulary_only, rfl, bind_eq_ok.mpr ⟨_, htype, rfl⟩, rfl⟩, by decide⟩

/-- A vocabulary is no term, though the declaration lists it beside a term. -/
theorem keywords_are_no_terms_besideVocabulary :
    ∃ c, applyAll [.object besideVocabulary] .empty = .ok c ∧
      (∀ term ∈ c.terms.names, ¬ Keyword.hasForm term) ∧ "type" ∈ c.terms.names := by
  have hkeeps : ¬ MakesKeyword besideVocabulary := by
    rintro ⟨term, u, hterm, ⟨value, hget, name, hname, hu⟩, hform, -⟩
    have hmem : (term, value) = ("@vocab", .string "ex:") ∨
        (term, value) = ("type", .string "@type") := by
      simpa [besideVocabulary] using mem_of_lookup_eq_some hget
    rcases hmem with hmem | hmem
    · cases hmem
      exact hterm rfl
    · cases hmem
      cases List.mem_singleton.mp hname
      have hnone : needed besideVocabulary "type" "@type" = [] := by decide
      rw [hnone] at hu
      cases hu
  have hall : AllKeepKeywords [.object besideVocabulary] := ⟨hkeeps, trivial⟩
  obtain ⟨c, hc, hname⟩ := applyEntries_besideVocabulary
  have happly : applyAll [.object besideVocabulary] .empty = .ok c :=
    bind_eq_ok.mpr ⟨c, hc, rfl⟩
  exact ⟨c, happly, (keywords_are_no_terms (.inl rfl) hall happly).1, hname⟩

/-- A vocabulary, and a term that refers to it as if it were a term. -/
def namesVocabulary : Entries := [("@vocab", .string "ex:"), ("a", .string "@vocab")]

/-- The vocabulary is made a term on demand, and then it names itself. -/
theorem vocabulary_made_term :
    ∃ c, applyAll [.object namesVocabulary] .empty = .ok c ∧
      "@vocab" ∈ c.terms.names ∧ c.compact .vocab "ex:" = "@vocab" := by
  have hvocab : define namesVocabulary ["a"] "@vocab" ⟨vocabularyOnly, []⟩ =
      .ok (.finish ⟨vocabularyOnly, []⟩ "@vocab" (some { mapping := .iri ⟨"ex:"⟩ })) := by
    have hneeded : needed namesVocabulary "@vocab" "ex:" = [] := by decide
    refine define_of_defineAll List.not_mem_nil (by decide) rfl ?_ (by decide +kernel)
    rw [hneeded]
    rfl
  have ha : define namesVocabulary [] "a" ⟨vocabularyOnly, []⟩ =
      .ok (.finish (.finish ⟨vocabularyOnly, []⟩ "@vocab" (some { mapping := .iri ⟨"ex:"⟩ })) "a"
        (some { mapping := .keyword .vocab })) := by
    have hneeded : needed namesVocabulary "a" "@vocab" = ["@vocab"] := by decide
    refine define_of_defineAll List.not_mem_nil List.not_mem_nil rfl ?_ rfl
    rw [hneeded]
    exact bind_eq_ok.mpr ⟨_, hvocab, rfl⟩
  have happly : applyEntries namesVocabulary .empty = .ok _ := applyEntries_eq_ok_iff.mpr
    ⟨_, .empty, _, rfl, readVocabulary_only, rfl, bind_eq_ok.mpr ⟨_, ha, rfl⟩, rfl⟩
  exact ⟨_, bind_eq_ok.mpr ⟨_, happly, rfl⟩, by decide, by decide +kernel⟩

end

end Declaration

end Exemplar
