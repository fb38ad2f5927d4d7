import Exemplar.Proofs.Context.Empty
import Exemplar.Proofs.Iri.Parts
import Mathlib.Data.List.TakeWhile

/-!
# Absolute names

A name that is an absolute IRI starts with a scheme, so that it has neither the form of a keyword
nor that of a blank node. Without any terms it expands to itself.
-/

namespace Exemplar

namespace Iri

/-- The first letter of an absolute IRI, and the colon behind its scheme. -/
lemma exists_scheme {text : String} (h : (parse? text).isSome) :
    ∃ c cs, text.toList = c :: cs ∧ isLetter c ∧ ':' ∈ text.toList := by
  obtain ⟨iri, hiri⟩ := Option.isSome_iff_exists.mp h
  obtain ⟨-, hscheme⟩ := parse?_eq_some hiri
  obtain ⟨⟨name, rest⟩, hscheme⟩ := Option.isSome_iff_exists.mp hscheme
  obtain ⟨htext, -, c, hc, hletter⟩ := readScheme?_eq_some_iff.mp hscheme
  rw [List.eq_cons_of_mem_head? hc, List.cons_append] at htext
  exact ⟨c, _, htext, hletter, by simp [htext]⟩

end Iri

section

variable {text : String} (h : (Iri.parse? text).isSome)

include h

lemma not_hasForm_of_absolute : ¬ Keyword.hasForm text := by
  obtain ⟨c, cs, heq, hletter, -⟩ := Iri.exists_scheme h
  rw [Keyword.hasForm, heq]
  intro hat
  obtain rfl : c = '@' := by simpa using hat
  exact absurd hletter (by decide)

/-- What stands in front of the first colon is not the name of a blank node. -/
lemma exists_splitColon? : ∃ name suffix, splitColon? text = some (name, suffix) ∧ name ≠ "_" := by
  obtain ⟨c, cs, heq, hletter, hcolon⟩ := Iri.exists_scheme h
  have hc : c ≠ ':' := by
    rintro rfl
    exact absurd hletter (by decide)
  unfold splitColon?
  split
  · next hnone =>
    rw [List.dropWhile_eq_nil_iff] at hnone
    simpa using hnone ':' hcolon
  · refine ⟨_, _, rfl, ?_⟩
    intro hname
    have hlist := congrArg String.toList hname
    rw [String.toList_ofList, heq, List.takeWhile_cons_of_pos (by simpa using hc)] at hlist
    obtain rfl : c = '_' := (List.cons.inj hlist).1
    exact absurd hletter (by decide)

/-- An absolute IRI stands for itself, as a key and as an identifier. -/
lemma expand?_absolute (mode : IriMode) : Context.empty.expand? mode text = some (.iri ⟨text⟩) := by
  obtain ⟨iri, hiri⟩ := Option.isSome_iff_exists.mp h
  obtain ⟨rfl, -⟩ := Iri.parse?_eq_some hiri
  obtain ⟨name, suffix, hsplit, hname⟩ := exists_splitColon? h
  have hterm : Context.empty.exactTerm? mode text = none := by cases mode <;> rfl
  have hprefix : Context.empty.prefixIri? name suffix = none := by
    unfold Context.prefixIri?
    split <;> rfl
  rw [Context.expand?, if_neg (not_hasForm_of_absolute h), hterm, Context.expandName?, hsplit]
  simp [hname, hprefix, hiri]

lemma expandIri_absolute {s : Scope} (hs : s.context = .empty) (mode : IriMode) :
    s.expandIri mode text = .ok ⟨text⟩ := by
  simp [Scope.expandIri, hs, expand?_absolute h, Expansion.iri?]

end

end Exemplar
