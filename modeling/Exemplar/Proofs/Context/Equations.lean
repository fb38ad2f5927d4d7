import Exemplar.Proofs.Context.Order

/-!
# Defining equations

Applying a declaration ends, and it succeeds only if no term waits for itself. What it yields
satisfies the declaration read as a set of equations: each term stands for what its name means in
the context that results, and not only in the one in which it was read.
-/

namespace Exemplar

namespace Declaration

section

variable {entries : Entries} {around start c c' : Context} {path : List String}
  {term u name : String} {st : Progress}

/-! ### The context in which terms are defined -/

lemma readBase_eq_ok {value : Option Json} (h : readBase c value = .ok c') :
    c'.terms = c.terms ∧ c'.vocabulary = c.vocabulary ∧ (value = none → c'.base = c.base) := by
  unfold readBase at h
  split at h
  · cases h
    exact ⟨rfl, rfl, fun _ => rfl⟩
  · cases h
    exact ⟨rfl, rfl, fun hnone => by cases hnone⟩
  · dsimp only at h
    split at h
    · cases h
      exact ⟨rfl, rfl, fun hnone => by cases hnone⟩
    · cases h
  · cases h

lemma readVocabulary_eq_ok {value : Option Json} (h : readVocabulary c value = .ok c') :
    c'.terms = c.terms ∧ c'.base = c.base ∧ (value = none → c'.vocabulary = c.vocabulary) := by
  unfold readVocabulary at h
  split at h
  · cases h
    exact ⟨rfl, rfl, fun _ => rfl⟩
  · cases h
    exact ⟨rfl, rfl, fun hnone => by cases hnone⟩
  · split at h
    · cases h
      exact ⟨rfl, rfl, fun hnone => by cases hnone⟩
    · cases h
  · cases h

/-- The context in which the terms of a declaration are defined: only the base and the vocabulary
may differ from what is around the declaration. -/
structure StartsFrom (entries : Entries) (around start : Context) : Prop where
  terms : start.terms = around.terms
  base : ¬ entries.has "@base" → start.base = around.base
  vocabulary : ¬ entries.has "@vocab" → start.vocabulary = around.vocabulary

/-- A declaration is applied by defining all of its terms. -/
lemma exists_run_of_applyEntries (h : applyEntries entries around = .ok c) :
    ∃ start st, StartsFrom entries around start ∧
      Completes entries start [] (termKeys entries) ⟨start, []⟩ st ∧ c = st.context := by
  obtain ⟨start, b, st, hb, hstart, -, hst, rfl⟩ := applyEntries_eq_ok_iff.mp h
  obtain ⟨hterms, hvocabulary, hbase⟩ := readBase_eq_ok hb
  obtain ⟨hterms', hbase', hvocabulary'⟩ := readVocabulary_eq_ok hstart
  have hnone : ∀ {key}, ¬ entries.has key → entries.get? key = none :=
    fun hkey => Option.not_isSome_iff_eq_none.mp hkey
  refine ⟨start, st, ⟨hterms'.trans hterms, fun hkey => ?_, fun hkey => ?_⟩,
    completes_of_defineAll sound_start hst, rfl⟩
  · exact hbase'.trans (hbase (hnone hkey))
  · exact (hvocabulary' (hnone hkey)).trans hvocabulary

lemma mem_termKeys_iff : term ∈ termKeys entries ↔ ¬ Keyword.hasForm term ∧ entries.has term := by
  rw [termKeys, List.mem_filter, mem_keys_iff_lookup_isSome, and_comm]
  simp [Entries.has]

lemma Completes.term_defined (h : Completes entries start [] (termKeys entries) ⟨start, []⟩ st)
    (hterm : ¬ Keyword.hasForm term) (hhas : entries.has term) : term ∈ st.defined :=
  h.done term (mem_termKeys_iff.mpr ⟨hterm, hhas⟩) hhas

/-! ### Termination and cycles -/

/-- The definitions under way: to define a term off the path, a term that it depends on is defined
while it waits. -/
inductive Nested (entries : Entries) : List String × String → List String × String → Prop
  | intro {path : List String} {term u : String} : term ∉ path → DependsOn entries term u →
      Nested entries (term :: path, u) (path, term)

/-- No chain of nested definitions is endless: each one leaves fewer entries that are off the
path. -/
lemma wellFounded_nested (entries : Entries) : WellFounded (Nested entries) := by
  refine Subrelation.wf ?_ (measure fun call => remaining entries call.1).wf
  rintro _ _ ⟨hpath, value, hget, -⟩
  exact remaining_cons_lt hpath hget

/-- Terms that are on a cycle, or that lead to one, are never defined. -/
lemma not_reaches_cycle (hsound : Sound entries c path st) (hterm : term ∈ st.defined)
    (hreaches : Reaches entries term u) : ¬ Relation.TransGen (DependsOn entries) u u := by
  have hdefined : u ∈ st.defined := by
    induction hreaches with
    | refl => exact hterm
    | tail _ hstep ih => exact hsound.closed _ ih _ hstep
  intro hcycle
  obtain ⟨w, hstep, hback⟩ := Relation.TransGen.head'_iff.mp hcycle
  exact (hsound.settled u hdefined).acyclic hstep hback

/-! ### Equations -/

/-- Only what is listed as `null` is left without a definition. -/
lemma Settled.isSome_iff {definition : Option TermDefinition}
    (h : Settled entries c term definition) :
    definition.isSome ↔ entries.get? term ≠ some .null := by
  obtain @⟨_, value, _, now, hget, -, -, -, hreads⟩ := h
  have hread := hreads ⟨now, []⟩
  rw [hget]
  cases value with
  | null =>
    cases hread
    simp
  | string name =>
    obtain ⟨⟨_, _⟩, -, hread⟩ := bind_eq_ok.mp hread
    cases hread
    simp
  | object entries =>
    obtain ⟨⟨_, _⟩, -, hread⟩ := bind_eq_ok.mp hread
    cases hread
    simp
  | bool | number | array => cases hread

/-- The term of a name stands for what the name means where all is defined that it depends on. -/
lemma Sound.expanded (hsound : Sound entries c path st) (hterm : term ∈ st.defined)
    (hget : entries.get? term = some (.string name)) (hself : term ∉ parts name) :
    ∃ definition, st.context.term? term = some definition ∧
      st.context.expand? .vocab name = some definition.mapping := by
  have hsettled := hsound.settled term hterm
  generalize st.context.term? term = definition at hsettled
  obtain ⟨now, hget', hvocabulary, hneeded, hother, hreads⟩ := hsettled
  cases hget.symm.trans hget'
  obtain ⟨⟨mapping, st'⟩, hlook, hdefinition⟩ := bind_eq_ok.mp (hreads ⟨now, []⟩)
  cases hdefinition
  refine ⟨_, rfl, Eq.trans ?_ (lookUp_eq_ok.mp hlook).1⟩
  refine expand?_congr (hsound.vocabulary.trans hvocabulary.symm) fun u hu => ?_
  have hne : u ≠ term := fun heq => hself (heq ▸ hu)
  by_cases hhas : entries.has u
  · have hdepends := DependsOn.intro hget List.mem_cons_self hu ⟨hne, hhas⟩
    have hu := hsound.closed term hterm u hdepends
    exact (hsound.settled u hu).unique (hneeded u hdepends)
  · have hu : u ∉ st.defined := fun hu => hhas (hsound.settled u hu).has
    exact (hsound.untouched u hu).trans (hother u fun hmem => hhas hmem.2).symm

/-- The context that results from a declaration, read as equations between its terms. -/
structure Solves (entries : Entries) (around c : Context) : Prop where
  /-- What is listed as `null` has no definition. -/
  removed : ∀ term, ¬ Keyword.hasForm term → entries.get? term = some .null → c.term? term = none
  /-- What is listed with a name stands for what this name means in the context itself. -/
  expanded : ∀ term name, ¬ Keyword.hasForm term → entries.get? term = some (.string name) →
    term ∉ parts name → ∃ definition, c.term? term = some definition ∧
      c.expand? .vocab name = some definition.mapping
  /-- What is not listed means what it means around the declaration. -/
  kept : ∀ term, ¬ entries.has term → c.term? term = around.term? term
  base : ¬ entries.has "@base" → c.base = around.base
  vocabulary : ¬ entries.has "@vocab" → c.vocabulary = around.vocabulary

lemma solves_of_applyEntries (h : applyEntries entries around = .ok c) :
    Solves entries around c := by
  obtain ⟨start, st, hstart, hall, rfl⟩ := exists_run_of_applyEntries h
  have hsound := hall.sound
  refine ⟨fun term hterm hget => ?_, fun term name hterm hget hself => ?_, fun term hhas => ?_,
    fun hkey => ?_, fun hkey => ?_⟩
  · have hdefined := hall.term_defined hterm (Option.isSome_of_eq_some hget)
    rw [← Option.not_isSome_iff_eq_none, (hsound.settled term hdefined).isSome_iff]
    exact fun hne => hne hget
  · exact hsound.expanded (hall.term_defined hterm (Option.isSome_of_eq_some hget)) hget hself
  · rw [hsound.untouched term fun hdefined => hhas (hsound.settled term hdefined).has,
      Context.term?, hstart.terms]
    rfl
  · exact hsound.base.trans (hstart.base hkey)
  · exact hsound.vocabulary.trans (hstart.vocabulary hkey)

/-- What leads to a cycle is listed: it depends on another term, or it is on the cycle itself. -/
lemma has_of_reaches_cycle (hreaches : Reaches entries term u)
    (hcycle : Relation.TransGen (DependsOn entries) u u) : entries.has term := by
  obtain ⟨w, ⟨value, hget, -⟩, -⟩ :=
    Relation.TransGen.head'_iff.mp (Relation.TransGen.trans_right hreaches hcycle)
  exact Option.isSome_of_eq_some hget

lemma exists_error_of_cycle (hterm : ¬ Keyword.hasForm term) (hreaches : Reaches entries term u)
    (hcycle : Relation.TransGen (DependsOn entries) u u) :
    ∃ e, applyEntries entries around = .error e := by
  cases happly : applyEntries entries around with
  | error e => exact ⟨e, rfl⟩
  | ok c =>
    obtain ⟨start, st, -, hall, -⟩ := exists_run_of_applyEntries happly
    have hdefined := hall.term_defined hterm (has_of_reaches_cycle hreaches hcycle)
    exact absurd hcycle (not_reaches_cycle hall.sound hdefined hreaches)

/-- Applying a declaration ends, with a context or with an error. It fails if a term leads to a
cycle of terms that depend on each other, and the context that it yields solves its equations. -/
theorem apply_solves (declaration : Json) (around : Context) :
    ((∃ c, apply declaration around = .ok c) ∨ ∃ e, apply declaration around = .error e) ∧
      ∀ entries, declaration = .object entries → WellFounded (Nested entries) ∧
        (∀ term u, ¬ Keyword.hasForm term → Reaches entries term u →
          Relation.TransGen (DependsOn entries) u u → ∃ e, apply declaration around = .error e) ∧
        ∀ c, apply declaration around = .ok c → Solves entries around c := by
  constructor
  · cases apply declaration around with
    | ok c => exact .inl ⟨c, rfl⟩
    | error e => exact .inr ⟨e, rfl⟩
  · rintro entries rfl
    rw [apply]
    exact ⟨wellFounded_nested entries, fun term u => exists_error_of_cycle,
      fun c => solves_of_applyEntries⟩

/-- A term that is written as a name stands for it when all that the name needs is defined. -/
lemma define_of_defineAll {value : Expansion} {m : Progress} (h : term ∉ st.defined)
    (hpath : term ∉ path) (hget : entries.get? term = some (.string name))
    (hneeded : defineAll entries (term :: path) (needed entries term name) st = .ok m)
    (hname : m.context.expand? .vocab name = some value) :
    define entries path term st = .ok (m.finish term (some { mapping := value })) := by
  refine define_of_string h hpath hget ?_
  rw [reference_eq]
  exact bind_eq_ok.mpr ⟨m, hneeded, lookUp_eq_ok.mpr ⟨hname, rfl⟩⟩

/-- Two terms each of which is written with the other one in front of the colon. -/
def eachOther : Entries := [("a", .string "b:x"), ("b", .string "a:y")]

/-- A compact IRI that is listed before its prefix. -/
def prefixedBefore : Entries := [("a", .string "b:x"), ("b", .string "ex:")]

lemma applyEntries_prefixedBefore : ∃ c, applyEntries prefixedBefore .empty = .ok c := by
  have hb : define prefixedBefore ["a"] "b" ⟨.empty, []⟩ =
      .ok (.finish ⟨.empty, []⟩ "b" (some { mapping := .iri ⟨"ex:"⟩ })) := by
    have hneeded : needed prefixedBefore "b" "ex:" = [] := by decide
    refine define_of_defineAll List.not_mem_nil (by decide) rfl ?_ (by decide +kernel)
    rw [hneeded]
    rfl
  have ha : define prefixedBefore [] "a" ⟨.empty, []⟩ =
      .ok (.finish (.finish ⟨.empty, []⟩ "b" (some { mapping := .iri ⟨"ex:"⟩ })) "a"
        (some { mapping := .iri ⟨"ex:x"⟩ })) := by
    have hneeded : needed prefixedBefore "a" "b:x" = ["b"] := by decide
    refine define_of_defineAll List.not_mem_nil List.not_mem_nil rfl ?_ (by decide +kernel)
    rw [hneeded]
    exact bind_eq_ok.mpr ⟨_, hb, rfl⟩
  have hall : ∃ st,
      defineAll prefixedBefore [] (termKeys prefixedBefore) ⟨.empty, []⟩ = .ok st := by
    have hkeys : termKeys prefixedBefore = ["a", "b"] := by decide
    rw [hkeys]
    exact ⟨_, bind_eq_ok.mpr ⟨_, ha, bind_eq_ok.mpr ⟨_, define_of_mem (by decide), rfl⟩⟩⟩
  obtain ⟨st, hst⟩ := hall
  exact ⟨_, applyEntries_eq_ok_iff.mpr ⟨.empty, .empty, st, rfl, rfl, rfl, hst, rfl⟩⟩

/-- Terms that need each other fail, and a compact IRI that is listed before its prefix means what
it means in the end. -/
theorem apply_solves_prefixedBefore : (∃ e, apply (.object eachOther) .empty = .error e) ∧
    ∃ c definition, apply (.object prefixedBefore) .empty = .ok c ∧
      c.term? "a" = some definition ∧ c.expand? .vocab "b:x" = some definition.mapping := by
  have hab : DependsOn eachOther "a" "b" :=
    ⟨.string "b:x", rfl, "b:x", List.mem_cons_self, by decide⟩
  have hba : DependsOn eachOther "b" "a" :=
    ⟨.string "a:y", rfl, "a:y", List.mem_cons_self, by decide⟩
  refine ⟨((apply_solves (.object eachOther) .empty).2 _ rfl).2.1 "a" "a" (by decide) .refl
    (.tail (.single hab) hba), ?_⟩
  obtain ⟨c, hc⟩ := applyEntries_prefixedBefore
  have happly : apply (.object prefixedBefore) .empty = .ok c := hc
  have hsolves := ((apply_solves (.object prefixedBefore) .empty).2 _ rfl).2.2 c happly
  obtain ⟨definition, hterm, hexpand⟩ :=
    hsolves.expanded "a" "b:x" (by decide) rfl (by decide)
  exact ⟨c, definition, happly, hterm, hexpand⟩

end

end Declaration

end Exemplar
