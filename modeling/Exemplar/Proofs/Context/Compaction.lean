import Exemplar.Proofs.Context.Absolute
import Exemplar.Proofs.Context.Names

/-!
# Compaction and expansion

The name that compaction chooses for an IRI relative to the vocabulary is read back as this IRI: a
term as what it stands for, a suffix behind the vocabulary, a compact IRI behind what its term
stands for, and an IRI that is kept as it is as itself.
-/

namespace Exemplar

namespace Context

/-- The IRIs whose names are read back in a context. -/
structure ReadsBack (c : Context) (i : Iri) : Prop where
  /-- Terms cannot be taken for a compact IRI, a keyword or the start of a blank node. -/
  terms : ∀ term ∈ c.terms.names,
    ':' ∉ term.toList ∧ ¬ Keyword.hasForm term ∧ term ≠ "_"
  /-- What follows the vocabulary cannot be taken for a keyword. -/
  vocabulary : ∀ vocabulary suffix, c.vocabulary = some vocabulary →
    i.text = vocabulary ++ suffix → ¬ Keyword.hasForm suffix
  /-- What follows the IRI of a term does not start with two slashes. -/
  suffix : ∀ term definition start rest, c.term? term = some definition →
    definition.mapping = .iri start → i.text ≠ start.text ++ ("//" ++ rest)
  /-- The scheme cannot be taken for a term, unless two slashes follow it. -/
  scheme : ∀ name suffix, splitColon? i.text = some (name, suffix) →
    (∃ rest, suffix = "//" ++ rest) ∨
      ∀ definition, c.term? name = some definition → definition.mapping.iri? = none

section

variable {c : Context} {i : Iri} {name suffix term : String} {definition : TermDefinition}

lemma prefixIri?_eq_none (h : (∃ rest, suffix = "//" ++ rest) ∨
      ∀ definition, c.term? name = some definition → definition.mapping.iri? = none) :
    c.prefixIri? name suffix = none := by
  unfold prefixIri?
  rcases h with ⟨rest, hrest⟩ | hterm
  · rw [if_pos (Option.isSome_of_eq_some (afterStart?_eq_some_iff.mpr hrest))]
  · split
    · rfl
    · exact Option.bind_eq_none_iff.mpr hterm

lemma prefixIri?_eq_some {start : Iri} (hterm : c.term? name = some definition)
    (hmapping : definition.mapping = .iri start) (hsuffix : ∀ rest, suffix ≠ "//" ++ rest) :
    c.prefixIri? name suffix = some start := by
  have hnone : ¬ (afterStart? "//" suffix).isSome := fun h => by
    obtain ⟨rest, hrest⟩ := Option.isSome_iff_exists.mp h
    exact hsuffix rest (afterStart?_eq_some_iff.mp hrest)
  rw [prefixIri?, if_neg hnone, hterm, Option.bind_some, hmapping]
  rfl

lemma parse?_eq_self (h : (Iri.parse? i.text).isSome) : Iri.parse? i.text = some i := by
  obtain ⟨iri, hiri⟩ := Option.isSome_iff_exists.mp h
  rw [hiri, (Iri.parse?_eq_some hiri).1]

/-- A term is read back as what it stands for. -/
lemma expand?_term (h : c.ReadsBack i) (hterm : c.term? term = some definition) :
    c.expand? .vocab term = some definition.mapping := by
  have hform := (h.terms term (mem_names_iff.mpr ⟨definition, hterm⟩)).2.1
  rw [expand?, if_neg hform, exactTerm?, hterm]

/-- A suffix is read back behind the vocabulary. -/
lemma expand?_vocabularyName (hi : (Iri.parse? i.text).isSome) (h : c.ReadsBack i)
    (hname : c.vocabularyName? i.text = some suffix) : c.expand? .vocab suffix = some (.iri i) := by
  obtain ⟨vocabulary, hvocabulary, htext, hplain, hterm⟩ := vocabularyName?_eq_some_iff.mp hname
  have hsplit := splitColon?_eq_none_iff.mpr (isPlainSuffix_iff.mp hplain).2
  rw [expand?, if_neg (h.vocabulary vocabulary suffix hvocabulary htext), exactTerm?, hterm,
    expandName?, hsplit]
  simp only [expandRelative?, hvocabulary, Option.bind_some, ← htext, parse?_eq_self hi,
    Option.map_some]

/-- A name with a colon in it is no term. -/
lemma term?_eq_none (h : c.ReadsBack i) (hname : ':' ∈ name.toList) : c.term? name = none := by
  rw [Option.eq_none_iff_forall_not_mem]
  intro definition hterm
  exact (h.terms name (mem_names_iff.mpr ⟨definition, hterm⟩)).1 hname

/-- A compact IRI is read back behind what its term stands for. -/
lemma expand?_compactName {start : Iri} (hi : (Iri.parse? i.text).isSome) (h : c.ReadsBack i)
    (hterm : c.term? term = some definition) (hmapping : definition.mapping = .iri start)
    (htext : i.text = start.text ++ suffix) :
    c.expand? .vocab (term ++ ":" ++ suffix) = some (.iri i) := by
  obtain ⟨hcolon, hform, hblank⟩ := h.terms term (mem_names_iff.mpr ⟨definition, hterm⟩)
  have hexact : c.term? (term ++ ":" ++ suffix) = none := term?_eq_none h (by simp)
  have hsuffix : ∀ rest, suffix ≠ "//" ++ rest := by
    rintro rest rfl
    exact h.suffix term definition start rest hterm hmapping htext
  rw [expand?, if_neg (not_hasForm_append hform), exactTerm?, hexact, expandName?,
    splitColon?_append hcolon]
  simp only [hblank, if_false, prefixIri?_eq_some hterm hmapping hsuffix, ← htext,
    parse?_eq_self hi, Option.map_some]

/-- An IRI that is kept as it is stands for itself. -/
lemma expand?_kept (hi : (Iri.parse? i.text).isSome) (h : c.ReadsBack i) :
    c.expand? .vocab i.text = some (.iri i) := by
  obtain ⟨_, _, -, -, hcolon⟩ := Iri.exists_scheme hi
  obtain ⟨name, suffix, hsplit, hname⟩ := exists_splitColon? hi
  rw [expand?, if_neg (not_hasForm_of_absolute hi), exactTerm?, term?_eq_none h hcolon, expandName?,
    hsplit]
  simp only [hname, if_false, prefixIri?_eq_none (h.scheme name suffix hsplit), parse?_eq_self hi,
    Option.some_or, Option.map_some]

end

/-- The name that compaction chooses relative to the vocabulary is expanded to the IRI again, and
it does not depend on how the terms of the context are listed. -/
theorem expand?_compact (c : Context) :
    (∀ i : Iri, (Iri.parse? i.text).isSome → c.ReadsBack i →
      c.expand? .vocab (c.compact .vocab i.text) = some (.iri i)) ∧
    ∀ c' : Context, c'.base = c.base → c'.vocabulary = c.vocabulary →
      c'.terms.entries.Perm c.terms.entries →
      ∀ mode iri, c'.compact mode iri = c.compact mode iri := by
  refine ⟨fun i hi h => ?_, fun c' => compact_of_perm⟩
  rcases compact_cases c .vocab i.text with hkept | hcompact | ⟨-, hexact⟩ | ⟨-, hname⟩ | ⟨hbase, -⟩
  · rw [hkept]
    exact expand?_kept hi h
  · obtain ⟨term, definition, start, suffix, hterm, hmapping, htext, hname⟩ :=
      exists_of_mem_compactNames hcompact
    rw [hname]
    exact expand?_compactName hi h hterm hmapping htext
  · obtain ⟨definition, hterm, hmapping⟩ := mem_exactNames_iff.mp hexact
    rw [expand?_term h hterm, hmapping]
  · exact expand?_vocabularyName hi h hname
  · cases hbase

/-- A vocabulary, and two terms for the same IRI. -/
def sameMeaning : Context where
  base := none
  vocabulary := some "ex:"
  terms := ⟨[("b", { mapping := .iri ⟨"ab:"⟩ }), ("a", { mapping := .iri ⟨"ab:"⟩ })], by decide⟩

/-- Of two terms for the same IRI the first one in the order of characters is chosen, wherever it is
listed, and it is read back. -/
theorem expand?_compact_sameMeaning :
    sameMeaning.compact .vocab "ab:x" = "a:x" ∧
    sameMeaning.expand? .vocab "a:x" = some (.iri ⟨"ab:x"⟩) ∧
    ∀ c' : Context, c'.base = none → c'.vocabulary = some "ex:" →
      c'.terms.entries.Perm sameMeaning.terms.entries → c'.compact .vocab "ab:x" = "a:x" := by
  have hcompact : sameMeaning.compact .vocab "ab:x" = "a:x" := by decide
  have hread : sameMeaning.ReadsBack ⟨"ab:x"⟩ := by
    refine ⟨by decide, ?_, ?_, ?_⟩
    · rintro _ suffix ⟨⟩ htext
      simpa using congrArg String.toList htext
    · intro term definition start rest hterm hmapping htext
      have hall : ∀ entry ∈ sameMeaning.terms.entries, entry.2.mapping = .iri ⟨"ab:"⟩ := by decide
      cases hmapping.symm.trans (hall _ (mem_entries_iff.mpr hterm))
      simpa using congrArg String.toList htext
    · intro name suffix hsplit
      have hab : splitColon? "ab:x" = some ("ab", "x") := by decide
      cases hab.symm.trans hsplit
      exact .inr fun definition hterm => by cases hterm
  refine ⟨hcompact, ?_, fun c' hbase hvocabulary hterms => ?_⟩
  · rw [← hcompact]
    exact (expand?_compact sameMeaning).1 ⟨"ab:x"⟩ (by decide) hread
  · exact ((expand?_compact sameMeaning).2 c' hbase hvocabulary hterms _ _).trans hcompact

end Context

end Exemplar
