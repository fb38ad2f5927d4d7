import Exemplar.Compilation.NodeObject
import Exemplar.Proofs.Outcome

/-!
# Documents without contexts

Without declarations the context stays empty: keys that are no keywords are IRIs as they are
written, and IRIs are written as they are.
-/

namespace Exemplar

/-! ### Names in the empty context -/

namespace Context

lemma expand?_empty {key : String} (hkey : ¬ Keyword.hasForm key) {e : Expansion}
    (h : empty.expand? .vocab key = some e) : e = .iri ⟨key⟩ := by
  have hterm : empty.exactTerm? .vocab key = none := rfl
  rw [expand?, if_neg hkey, hterm, Option.map_eq_some_iff] at h
  obtain ⟨iri, hiri, rfl⟩ := h
  unfold expandName? at hiri
  split at hiri
  · cases hiri
  · next name suffix _ =>
    have hnotPrefixed : empty.prefixIri? name suffix = none := by
      unfold prefixIri?
      split <;> rfl
    have hrelative : empty.expandRelative? .vocab key = none := rfl
    split at hiri
    · cases hiri
    · rw [hnotPrefixed, hrelative, Option.or_none, Iri.parse?, Iri.parse] at hiri
      cases hparts : Iri.readParts key with
      | error e => simp [hparts, Except.map, Except.toOption] at hiri
      | ok parts =>
        rw [hparts] at hiri
        cases hiri
        rfl

lemma isKeyword_empty_iff {keyword : Keyword} {key : String} :
    empty.isKeyword keyword key ↔ key = keyword.text := by
  rw [isKeyword, beq_iff_eq]
  constructor
  · intro h
    by_cases hform : Keyword.hasForm key
    · rw [expand?, if_pos hform, Option.map_eq_some_iff] at h
      obtain ⟨k, hk, heq⟩ := h
      cases heq
      exact (Keyword.text_eq_of_ofText? hk).symm
    · cases expand?_empty hform h
  · rintro rfl
    have hform : Keyword.hasForm keyword.text := by cases keyword <;> decide
    rw [expand?, if_pos hform, Keyword.ofText?_text]
    rfl

lemma expand?_keyword (k : Keyword) : empty.expand? .vocab k.text = some (.keyword k) :=
  beq_iff_eq.mp (isKeyword_empty_iff.mpr rfl)

lemma compact_empty (mode : IriMode) (iri : String) : empty.compact mode iri = iri := by
  cases mode <;> rfl

end Context

/-- The first entry with a keyword is the one that is looked up by its text. -/
lemma keywordEntry?_empty (entries : Entries) (keyword : Keyword) :
    keywordEntry? .empty entries keyword =
      (entries.lookup keyword.text).map fun value => (keyword.text, value) := by
  induction entries with
  | nil => rfl
  | cons e rest ih =>
    obtain ⟨key, value⟩ := e
    rw [ keywordEntry?, List.find?_cons, List.lookup_cons]
    by_cases hkey : key = keyword.text
    · subst hkey
      simp [Context.isKeyword_empty_iff.mpr rfl]
    · have hfalse : Context.empty.isKeyword keyword key = false := by
        simpa using fun h => hkey (Context.isKeyword_empty_iff.mp h)
      have hne : (keyword.text == key) = false := by simpa using Ne.symm hkey
      rw [hne, hfalse]
      exact ih

/-! ### Documents -/

namespace Json

mutual

/-- Whether no object of a document has a declaration. -/
def Contextless : Json → Prop
  | .array items => ItemsContextless items
  | .object entries => EntriesContextless entries
  | _ => True

def ItemsContextless : List Json → Prop
  | [] => True
  | item :: rest => item.Contextless ∧ ItemsContextless rest

def EntriesContextless : List (String × Json) → Prop
  | [] => True
  | (key, value) :: rest => key ≠ "@context" ∧ value.Contextless ∧ EntriesContextless rest

end

lemma contextless_array {items : List Json} :
    (Json.array items).Contextless ↔ ∀ item ∈ items, item.Contextless := by
  rw [Contextless]
  induction items with
  | nil => simp [ItemsContextless]
  | cons item rest ih => simp [ItemsContextless, ih]

lemma contextless_object {entries : Entries} :
    (Json.object entries).Contextless ↔ ∀ e ∈ entries, e.1 ≠ "@context" ∧ e.2.Contextless := by
  rw [Contextless]
  induction entries with
  | nil => simp [EntriesContextless]
  | cons e rest ih => simp [EntriesContextless, ih, and_assoc]

lemma contextless_of_lookup {entries : Entries} (h : (Json.object entries).Contextless)
    {key : String} {value : Json} (hvalue : entries.lookup key = some value) :
    value.Contextless :=
  (contextless_object.mp h _ (mem_of_lookup_eq_some hvalue)).2

end Json

section

variable {entries : Entries} (h : (Json.object entries).Contextless)

include h

lemma declaration?_of_contextless : declaration? entries = none := by
  unfold declaration? Entries.get?
  rw [List.lookup_eq_none_iff]
  intro e he
  simpa using Ne.symm (Json.contextless_object.mp h e he).1

lemma ownEntries_of_contextless : ownEntries entries = entries := by
  unfold ownEntries
  rw [List.filter_eq_self]
  intro e he
  simpa using (Json.contextless_object.mp h e he).1

end

lemma Grammar.extendContext_none (g : Grammar) {around context : Context}
    (h : g.extendContext around none = .ok context) : context = around := by
  cases h
  rfl

end Exemplar
