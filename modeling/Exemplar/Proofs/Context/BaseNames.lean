import Exemplar.Proofs.Context.Absolute
import Exemplar.Proofs.Context.Names
import Exemplar.Proofs.Iri.References

/-!
# Names relative to the base

Compaction replaces an IRI that starts with the base by what follows the base, and expansion
resolves this against the base. It gives the IRI again if and only if what follows takes over where
the base ends and cannot be taken for a keyword.
-/

namespace Exemplar

namespace Context

section

variable {c : Context} {b i : Iri} {base parts : IriParts} {name : String}

/-- A name without a colon is what follows the base, which is not empty. -/
lemma baseName?_of_compact (hi : Iri.readParts i.text = .ok parts)
    (hname : c.compact .base i.text = name) (hcolon : ':' ∉ name.toList) :
    c.baseName? i.text = some name := by
  rcases compact_cases c .base i.text with hkept | hcompact | ⟨hvocab, -⟩ | ⟨hvocab, -⟩ | ⟨-, hbase⟩
  · have habsolute : (Iri.parse? i.text).isSome := by
      rw [Iri.parse?, Iri.parse, hi]
      rfl
    obtain ⟨_, _, -, -, hmem⟩ := Iri.exists_scheme habsolute
    rw [← hname, hkept] at hcolon
    exact absurd hmem hcolon
  · obtain ⟨term, _, _, suffix, -, -, -, hterm⟩ := exists_of_mem_compactNames hcompact
    rw [← hname, hterm] at hcolon
    exact absurd (by simp) hcolon
  · cases hvocab
  · cases hvocab
  · rw [hbase, hname]

/-- A name without a colon that is no keyword is resolved against the base. -/
lemma expand?_base_eq_some_iff (hbase : c.base = some b) (hcolon : ':' ∉ name.toList) :
    c.expand? .base name = some (.iri i) ↔ ¬ Keyword.hasForm name ∧ b.resolve name = .ok i := by
  have hresolve : c.expandName? .base name = (b.resolve name).toOption := by
    rw [expandName?, splitColon?_eq_none_iff.mpr hcolon]
    simp only [expandRelative?, hbase, Option.bind_some]
  unfold expand?
  split
  · next hform => simp [hform]
  · next hform =>
    simp only [exactTerm?, hresolve, hform]
    cases b.resolve name with
    | error e => simp [Except.toOption]
    | ok j => simp [Except.toOption]

end

/-- If an IRI without dot segments is replaced by what it has behind the base, then this is expanded
to the IRI again if and only if it takes over where the base ends and is no keyword. -/
theorem expand?_baseName (c : Context) (b i : Iri) (base parts : IriParts) (suffix : String)
    (hbase : c.base = some b) (hb : Iri.readParts b.text = .ok base)
    (hi : Iri.readParts i.text = .ok parts) (hdots : ¬ Iri.HasDotSegment parts.path)
    (htext : i.text = b.text ++ suffix) (hname : c.compact .base i.text = suffix)
    (hcolon : ':' ∉ suffix.toList) :
    c.expand? .base suffix = some (.iri i) ↔
      ¬ Keyword.hasForm suffix ∧ base.TakenOverBy suffix.toList := by
  obtain ⟨_, -, -, hplain⟩ := baseName?_eq_some_iff.mp (baseName?_of_compact hi hname hcolon)
  have hne : suffix ≠ "" := (isPlainSuffix_iff.mp hplain).1
  rw [expand?_base_eq_some_iff hbase hcolon,
    Iri.resolve_eq_ok_iff hb hi hdots htext hne hcolon]

/-- Behind a slash a name is read back. -/
theorem expand?_baseName_slash :
    (ofBase ⟨"ex:/a/"⟩).compact .base "ex:/a/b" = "b" ∧
    (ofBase ⟨"ex:/a/"⟩).expand? .base "b" = some (.iri ⟨"ex:/a/b"⟩) := by
  have hcompact : (ofBase ⟨"ex:/a/"⟩).compact .base "ex:/a/b" = "b" := by decide
  refine ⟨hcompact, ?_⟩
  refine (expand?_baseName _ ⟨"ex:/a/"⟩ ⟨"ex:/a/b"⟩
    ⟨some "ex".toList, none, "/a/".toList, none, none⟩
    ⟨some "ex".toList, none, "/a/b".toList, none, none⟩ "b" rfl (by decide +kernel)
    (by decide +kernel) (by decide)
    (by decide) hcompact (by decide)).mpr ⟨by decide, .inl (by decide), by decide⟩

/-- Without a slash at its end the last segment of the base is replaced, and a keyword behind the
base is a keyword. -/
theorem not_expand?_baseName :
    (Iri.parse? "http://example.com/ab").isSome ∧
    (ofBase ⟨"http://example.com/a"⟩).compact .base "http://example.com/ab" = "b" ∧
    (ofBase ⟨"http://example.com/a"⟩).expand? .base "b" = some (.iri ⟨"http://example.com/b"⟩) ∧
    (Iri.parse? "http://example.com/@id").isSome ∧
    (ofBase ⟨"http://example.com/"⟩).compact .base "http://example.com/@id" = "@id" ∧
    (ofBase ⟨"http://example.com/"⟩).expand? .base "@id" = some (.keyword .id) := by
  refine ⟨?_, ?_, ?_, ?_, ?_, ?_⟩ <;> decide +kernel

end Context

end Exemplar
