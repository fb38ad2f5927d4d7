import Exemplar.Context.Compaction
import Exemplar.Proofs.Outcome
import Mathlib.Data.List.TakeWhile
import Mathlib.Data.Prod.Lex
import Mathlib.Data.String.Basic

/-!
# Names of an IRI

The names among which compaction chooses. The shortest one is a least element of an order in which
no two names are alike, so that it does not depend on how the terms of the context are listed.
-/

namespace Exemplar

/-! ### Text -/

lemma afterStart?_eq_some_iff {start text suffix : String} :
    afterStart? start text = some suffix ↔ text = start ++ suffix := by
  unfold afterStart?
  constructor
  · intro h
    split at h
    · next hprefix =>
      cases h
      obtain ⟨rest, hrest⟩ := List.isPrefixOf_iff_prefix.mp hprefix
      rw [← String.toList_inj, String.toList_append, String.toList_ofList, ← hrest,
        List.drop_left]
    · cases h
  · rintro rfl
    rw [String.toList_append, if_pos (List.isPrefixOf_iff_prefix.mpr (List.prefix_append _ _)),
      List.drop_left, String.ofList_toList]

lemma splitColon?_eq_none_iff {text : String} : splitColon? text = none ↔ ':' ∉ text.toList := by
  unfold splitColon?
  constructor
  · intro h hmem
    split at h
    · next hnil => simpa using List.dropWhile_eq_nil_iff.mp hnil ':' hmem
    · cases h
  · intro h
    have hnil : text.toList.dropWhile (· != ':') = [] := by
      rw [List.dropWhile_eq_nil_iff]
      exact fun c hc => bne_iff_ne.mpr (ne_of_mem_of_not_mem hc h)
    rw [hnil]

lemma splitColon?_append {name suffix : String} (hname : ':' ∉ name.toList) :
    splitColon? (name ++ ":" ++ suffix) = some (name, suffix) := by
  have hbefore : ∀ c ∈ name.toList, (c != ':') = true :=
    fun c hc => bne_iff_ne.mpr (ne_of_mem_of_not_mem hc hname)
  have htext : (name ++ ":" ++ suffix).toList = name.toList ++ ':' :: suffix.toList := by simp
  unfold splitColon?
  rw [htext, List.dropWhile_append_of_pos hbefore, List.takeWhile_append_of_pos hbefore]
  simp

lemma isPlainSuffix_iff {suffix : String} :
    isPlainSuffix suffix ↔ suffix ≠ "" ∧ ':' ∉ suffix.toList := by
  simp [isPlainSuffix]

lemma not_hasForm_append {term suffix : String} (hterm : ¬ Keyword.hasForm term) :
    ¬ Keyword.hasForm (term ++ ":" ++ suffix) := by
  unfold Keyword.hasForm at hterm ⊢
  rw [String.toList_append, String.toList_append]
  cases hchars : term.toList with
  | nil => simp
  | cons first rest =>
    rw [hchars] at hterm
    simpa using hterm

/-! ### The shortest name -/

/-- What names are compared by: the number of bytes, then the characters. -/
def nameKey (name : String) : ℕ ×ₗ String := toLex (name.utf8ByteSize, name)

lemma nameKey_injective : Function.Injective nameKey := fun a b h => by
  simpa [nameKey] using congrArg (fun key => (ofLex key).2) h

lemma shorter_iff {a b : String} : shorter a b ↔ nameKey a < nameKey b := by
  simp [shorter, nameKey, Prod.Lex.toLex_lt_toLex]

lemma shortestName?_eq_none_iff {names : List String} :
    shortestName? names = none ↔ names = [] := by
  cases names with
  | nil => simp [shortestName?]
  | cons name rest =>
    rw [shortestName?]
    split <;> simp

lemma shortestName?_least {names : List String} {name : String}
    (h : shortestName? names = some name) :
    name ∈ names ∧ ∀ other ∈ names, nameKey name ≤ nameKey other := by
  induction names generalizing name with
  | nil => cases h
  | cons first rest ih =>
    rw [shortestName?] at h
    split at h
    · next hnone =>
      cases h
      rw [shortestName?_eq_none_iff.mp hnone]
      simp
    · next other hother =>
      obtain ⟨hmem, hleast⟩ := ih hother
      rw [List.forall_mem_cons]
      split at h
      · next hshorter =>
        cases h
        exact ⟨List.mem_cons_of_mem _ hmem, (shorter_iff.mp hshorter).le, hleast⟩
      · next hshorter =>
        cases h
        have hle : nameKey first ≤ nameKey other :=
          not_lt.mp fun hlt => hshorter (shorter_iff.mpr hlt)
        exact ⟨List.mem_cons_self, le_rfl, fun u hu => hle.trans (hleast u hu)⟩

lemma shortestName?_of_perm {names names' : List String} (h : names.Perm names') :
    shortestName? names = shortestName? names' := by
  cases hname : shortestName? names with
  | none =>
    rw [shortestName?_eq_none_iff.mp hname] at h
    rw [← h.nil_eq, shortestName?]
  | some name =>
    cases hname' : shortestName? names' with
    | none =>
      rw [shortestName?_eq_none_iff.mp hname'] at h
      rw [h.eq_nil] at hname
      cases hname
    | some name' =>
      obtain ⟨hmem, hleast⟩ := shortestName?_least hname
      obtain ⟨hmem', hleast'⟩ := shortestName?_least hname'
      have heq : nameKey name = nameKey name' :=
        le_antisymm (hleast name' (h.mem_iff.mpr hmem')) (hleast' name (h.mem_iff.mp hmem))
      rw [nameKey_injective heq]

/-! ### The names of a context -/

namespace Context

variable {c c' : Context} {mode : IriMode} {iri name suffix term : String}

lemma mem_entries_iff {definition : TermDefinition} :
    (term, definition) ∈ c.terms.entries ↔ c.term? term = some definition :=
  mem_iff_lookup_eq_some c.terms.nodup

lemma mem_names_iff : term ∈ c.terms.names ↔ ∃ definition, c.term? term = some definition :=
  (mem_keys_iff_lookup_isSome c.terms.entries term).trans Option.isSome_iff_exists

lemma mem_exactNames_iff : term ∈ c.exactNames iri ↔
    ∃ definition, c.term? term = some definition ∧ definition.mapping = .iri ⟨iri⟩ := by
  simp only [exactNames, List.mem_filterMap, Prod.exists, mem_entries_iff,
    Option.ite_none_right_eq_some, Option.some.injEq]
  constructor
  · rintro ⟨_, definition, hterm, hmapping, rfl⟩
    exact ⟨definition, hterm, hmapping⟩
  · rintro ⟨definition, hterm, hmapping⟩
    exact ⟨term, definition, hterm, hmapping, rfl⟩

/-- A name that a term makes of an IRI: what the term stands for starts the IRI. -/
lemma exists_of_mem_compactNames (h : name ∈ c.compactNames iri) :
    ∃ term definition start suffix, c.term? term = some definition ∧
      definition.mapping = .iri start ∧ iri = start.text ++ suffix ∧
      name = term ++ ":" ++ suffix := by
  obtain ⟨⟨term, definition⟩, hmem, hname⟩ := List.mem_filterMap.mp h
  obtain ⟨start, hstart, hname⟩ := Option.bind_eq_some_iff.mp hname
  obtain ⟨suffix, hsuffix, hname⟩ := Option.bind_eq_some_iff.mp hname
  have hmapping : definition.mapping = .iri start := by
    cases hdefinition : definition.mapping with
    | keyword keyword => simp [hdefinition, Expansion.iri?] at hstart
    | iri i => simpa [hdefinition, Expansion.iri?] using hstart
  split at hname
  · cases hname
    exact ⟨term, definition, start, suffix, mem_entries_iff.mp hmem, hmapping,
      afterStart?_eq_some_iff.mp hsuffix, rfl⟩
  · cases hname

lemma vocabularyName?_eq_some_iff : c.vocabularyName? iri = some suffix ↔
    ∃ vocabulary, c.vocabulary = some vocabulary ∧ iri = vocabulary ++ suffix ∧
      isPlainSuffix suffix ∧ c.term? suffix = none := by
  unfold vocabularyName?
  simp only [Option.bind_eq_bind, Option.bind_eq_some_iff, afterStart?_eq_some_iff]
  constructor
  · rintro ⟨vocabulary, hvocabulary, rest, hrest, h⟩
    split at h
    · next hplain =>
      cases h
      exact ⟨vocabulary, hvocabulary, hrest, by simpa using hplain⟩
    · cases h
  · rintro ⟨vocabulary, hvocabulary, hrest, hplain, hterm⟩
    exact ⟨vocabulary, hvocabulary, suffix, hrest, by simp [hplain, hterm]⟩

lemma baseName?_eq_some_iff : c.baseName? iri = some suffix ↔
    ∃ base, c.base = some base ∧ iri = base.text ++ suffix ∧ isPlainSuffix suffix := by
  unfold baseName?
  simp only [Option.bind_eq_bind, Option.bind_eq_some_iff, afterStart?_eq_some_iff]
  constructor
  · rintro ⟨base, hbase, rest, hrest, h⟩
    split at h
    · next hplain =>
      cases h
      exact ⟨base, hbase, hrest, hplain⟩
    · cases h
  · rintro ⟨base, hbase, hrest, hplain⟩
    exact ⟨base, hbase, suffix, hrest, by simp [hplain]⟩

/-- The ways in which a name can come about. -/
lemma compact_cases (c : Context) (mode : IriMode) (iri : String) :
    c.compact mode iri = iri ∨ c.compact mode iri ∈ c.compactNames iri ∨
      mode = .vocab ∧ c.compact mode iri ∈ c.exactNames iri ∨
      mode = .vocab ∧ c.vocabularyName? iri = some (c.compact mode iri) ∨
      mode = .base ∧ c.baseName? iri = some (c.compact mode iri) := by
  unfold compact
  cases hrelative : c.relativeName? mode iri with
  | none =>
    cases hname : shortestName? (c.compactNames iri) with
    | none => exact .inl rfl
    | some name => exact .inr (.inl (shortestName?_least hname).1)
  | some name =>
    refine .inr (.inr ?_)
    cases mode with
    | base => exact .inr (.inr ⟨rfl, hrelative⟩)
    | vocab =>
      rcases Option.or_eq_some_iff.mp hrelative with hexact | ⟨-, hname⟩
      · exact .inl ⟨rfl, (shortestName?_least hexact).1⟩
      · exact .inr (.inl ⟨rfl, hname⟩)

/-- Compaction does not depend on the order in which the terms are listed. -/
lemma compact_of_perm (hbase : c'.base = c.base) (hvocabulary : c'.vocabulary = c.vocabulary)
    (hterms : c'.terms.entries.Perm c.terms.entries) (mode : IriMode) (iri : String) :
    c'.compact mode iri = c.compact mode iri := by
  have hterm : ∀ term, c'.term? term = c.term? term := fun term =>
    Option.ext fun definition => mem_entries_iff.symm.trans (hterms.mem_iff.trans mem_entries_iff)
  have hexact : shortestName? (c'.exactNames iri) = shortestName? (c.exactNames iri) :=
    shortestName?_of_perm (hterms.filterMap _)
  have hcompact : shortestName? (c'.compactNames iri) = shortestName? (c.compactNames iri) :=
    shortestName?_of_perm (hterms.filterMap _)
  have hrelative : c'.relativeName? mode iri = c.relativeName? mode iri := by
    cases mode with
    | base => simp only [relativeName?, baseName?, hbase]
    | vocab => simp only [relativeName?, vocabularyName?, hvocabulary, hexact, hterm]
  unfold compact
  rw [hrelative, hcompact]

end Context

end Exemplar
