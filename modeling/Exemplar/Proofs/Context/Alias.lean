import Exemplar.Compilation.Grammar
import Mathlib.Tactic.Lemma

/-!
# Aliases of keywords

A declaration whose only entry is an alias of a keyword adds this term to the context around it and
leaves everything else as it is.
-/

namespace Exemplar

lemma Keyword.hasForm_text (keyword : Keyword) : hasForm keyword.text := by cases keyword <;> rfl

section

variable {term : String} {keyword : Keyword}

lemma get?_alias (hterm : ¬ Keyword.hasForm term) {key : String} (hkey : Keyword.hasForm key) :
    Entries.get? [(term, .string keyword.text)] key = none := by
  have hne : key ≠ term := by
    rintro rfl
    exact hterm hkey
  simp [Entries.get?, hne]

lemma reference_alias (hterm : ¬ Keyword.hasForm term) (st : Declaration.Progress) :
    Declaration.reference [(term, .string keyword.text)] [term] term keyword.text st =
      .ok (.keyword keyword, st) := by
  have hcolon : splitColon? keyword.text = none := by cases keyword <;> rfl
  have hnone : List.lookup keyword.text [(term, Json.string keyword.text)] = none :=
    get?_alias hterm keyword.hasForm_text
  unfold Declaration.reference
  simp [Entries.has, hnone, hcolon, Context.expand?, keyword.hasForm_text, Keyword.ofText?_text,
    bind, Except.bind, pure, Except.pure]

lemma define_alias (hterm : ¬ Keyword.hasForm term) (around : Context) :
    Declaration.define [(term, .string keyword.text)] [] term ⟨around, []⟩ =
      .ok (.finish ⟨around, []⟩ term (some { mapping := .keyword keyword })) := by
  have hget : Entries.get? [(term, .string keyword.text)] term = some (.string keyword.text) := by
    simp [Entries.get?]
  unfold Declaration.define
  rw [if_neg (List.not_mem_nil), dif_neg (List.not_mem_nil)]
  split
  · rename_i hnone
    cases hget.symm.trans hnone
  · rename_i hsome
    cases hget.symm.trans hsome
    simp [Declaration.readTerm, reference_alias hterm, bind, Except.bind, pure, Except.pure]

/-- The context with an alias of a keyword. -/
def Context.withAlias (c : Context) (term : String) (keyword : Keyword) : Context :=
  { c with terms := c.terms.set term (some { mapping := .keyword keyword }) }

/-- The declaration of an alias adds the term to the context. -/
lemma extendContext_alias (hterm : ¬ Keyword.hasForm term) (keyword : Keyword)
    (around : Context) :
    Grammar.standard.extendContext around (some (.object [(term, .string keyword.text)])) =
      .ok (around.withAlias term keyword) := by
  have hbase : Entries.get? [(term, .string keyword.text)] "@base" = none := get?_alias hterm rfl
  have hvocab : Entries.get? [(term, .string keyword.text)] "@vocab" = none := get?_alias hterm rfl
  have hterm' : Keyword.hasForm term = false := by simpa using hterm
  have happly : Declaration.apply (.object [(term, .string keyword.text)]) around =
      .ok (around.withAlias term keyword) := by
    simp [Declaration.apply, Declaration.applyEntries, hbase, hvocab, Declaration.readBase,
      Declaration.readVocabulary, Declaration.checkEntries, Declaration.termKeys, hterm',
      define_alias hterm, Declaration.Progress.finish, Context.withAlias, bind, Except.bind, pure,
      Except.pure]
  simp [Grammar.extendContext, ContextLoader.extend, ContextLoader.fetch, happly]

end

end Exemplar
