import Exemplar.Proofs.Context.OnDemand

/-!
# The order of entries

Terms are defined in an order that follows from how the entries of a declaration are listed.
Whatever this order is, each term gets the definition that the declaration settles, or there is none
for some term in any order.
-/

namespace Exemplar

namespace Declaration

section

variable {entries entries' : Entries} {c around : Context}

lemma get?_of_perm (hkeys : (entries.map Prod.fst).Nodup) (hperm : entries.Perm entries')
    (key : String) : entries.get? key = entries'.get? key := by
  refine Option.ext fun value => ?_
  have hkeys' : (entries'.map Prod.fst).Nodup := (hperm.map Prod.fst).nodup hkeys
  exact (mem_iff_lookup_eq_some hkeys).symm.trans
    (hperm.mem_iff.trans (mem_iff_lookup_eq_some hkeys'))

lemma checkEntries_of_perm (hperm : entries.Perm entries') (h : checkEntries entries = .ok ()) :
    checkEntries entries' = .ok () := by
  unfold checkEntries at h ⊢
  split at h
  · cases h
  · next hnone =>
    have hnone' : entries'.find? (fun entry =>
        Keyword.hasForm entry.1 && !isEntryKeyword entry.1) = none := by
      rw [List.find?_eq_none] at hnone ⊢
      exact fun entry hentry => hnone entry (hperm.mem_iff.mpr hentry)
    rw [hnone']

lemma has_of_mem_termKeys {term : String} (h : term ∈ termKeys entries) : entries.has term :=
  (mem_keys_iff_lookup_isSome entries term).mp (List.mem_filter.mp h).1

lemma applyEntries_eq_ok_iff {c' : Context} : applyEntries entries around = .ok c' ↔
    ∃ c b st, readBase around (entries.get? "@base") = .ok b ∧
      readVocabulary b (entries.get? "@vocab") = .ok c ∧ checkEntries entries = .ok () ∧
      defineAll entries [] (termKeys entries) ⟨c, []⟩ = .ok st ∧ c' = st.context := by
  constructor
  · intro h
    obtain ⟨b, hb, h⟩ := bind_eq_ok.mp h
    obtain ⟨c, hc, h⟩ := bind_eq_ok.mp h
    obtain ⟨⟨⟩, hcheck, h⟩ := bind_eq_ok.mp h
    obtain ⟨st, hst, h⟩ := bind_eq_ok.mp h
    cases h
    exact ⟨c, b, st, hb, hc, hcheck, hst, rfl⟩
  · rintro ⟨c, b, st, hb, hc, hcheck, hst, rfl⟩
    exact bind_eq_ok.mpr ⟨b, hb, bind_eq_ok.mpr ⟨c, hc, bind_eq_ok.mpr ⟨(), hcheck,
      bind_eq_ok.mpr ⟨st, hst, rfl⟩⟩⟩⟩

/-- A declaration whose entries are listed in another order is applied alike. -/
lemma applyEntries_of_perm (hkeys : (entries.map Prod.fst).Nodup) (hperm : entries.Perm entries')
    {c' : Context} (h : applyEntries entries around = .ok c') :
    ∃ c'', applyEntries entries' around = .ok c'' ∧ c''.Equivalent c' := by
  obtain ⟨c, b, st, hb, hc, hcheck, hst, rfl⟩ := applyEntries_eq_ok_iff.mp h
  have hget := get?_of_perm hkeys hperm
  have hterms : ∀ term, term ∈ termKeys entries ↔ term ∈ termKeys entries' := fun term =>
    ((hperm.map Prod.fst).filter _).mem_iff
  have hhas : ∀ term ∈ termKeys entries', entries'.has term := fun _ => has_of_mem_termKeys
  have hall := completes_of_defineAll sound_start hst
  obtain ⟨st', hst'⟩ := (exists_defineAll_iff hhas).mpr fun term hterm => by
    have hterm := (hterms term).mpr hterm
    exact ⟨_, (hall.sound.settled term (hall.done term hterm (has_of_mem_termKeys hterm))).congr
      hget⟩
  have hall' := completes_of_defineAll sound_start hst'
  refine ⟨st'.context, applyEntries_eq_ok_iff.mpr ⟨c, b, st', hget _ ▸ hb, hget _ ▸ hc,
    checkEntries_of_perm hperm hcheck, hst', rfl⟩, ?_, ?_, fun term => ?_⟩
  · exact hall'.sound.base.trans hall.sound.base.symm
  · exact hall'.sound.vocabulary.trans hall.sound.vocabulary.symm
  · have hdefined : term ∈ st'.defined ↔ term ∈ st.defined := by
      rw [hall'.mem_defined_iff hhas, hall.mem_defined_iff fun _ => has_of_mem_termKeys, Reaches,
        Reaches, dependsOn_congr hget]
      exact exists_congr fun w => and_congr_left fun _ => (hterms w).symm
    by_cases hmem : term ∈ st.defined
    · have hsettled := hall'.sound.settled term (hdefined.mpr hmem)
      exact hsettled.unique ((hall.sound.settled term hmem).congr hget)
    · rw [hall.sound.untouched term hmem]
      exact hall'.sound.untouched term fun h => hmem (hdefined.mp h)

/-- Applying a declaration does not depend on the order of its entries: it fails in every order or
yields equivalent contexts in all of them. -/
theorem apply_perm (hkeys : (entries.map Prod.fst).Nodup) (around : Context) :
    (∀ entries', entries'.Perm entries → ∃ e, apply (.object entries') around = .error e) ∨
      ∃ c, apply (.object entries) around = .ok c ∧ ∀ entries', entries'.Perm entries →
        ∃ c', apply (.object entries') around = .ok c' ∧ c'.Equivalent c := by
  cases happly : applyEntries entries around with
  | error e =>
    refine .inl fun entries' hperm => ?_
    cases happly' : applyEntries entries' around with
    | error e' => exact ⟨e', by rw [apply, happly']⟩
    | ok c' =>
      have hkeys' : (entries'.map Prod.fst).Nodup := (hperm.map Prod.fst).nodup_iff.mpr hkeys
      obtain ⟨c, hc, -⟩ := applyEntries_of_perm hkeys' hperm happly'
      cases happly.symm.trans hc
  | ok c =>
    refine .inr ⟨c, by rw [apply, happly], fun entries' hperm => ?_⟩
    obtain ⟨c', hc', hequivalent⟩ := applyEntries_of_perm hkeys hperm.symm happly
    exact ⟨c', by rw [apply, hc'], hequivalent⟩

/-- A term that stands for a term that is listed after it. -/
def usedBefore : Entries := [("kind", .string "type"), ("type", .string "@type")]

/-- An alias may be listed before or after the term that it stands for. -/
theorem apply_perm_usedBefore : ∃ c c', apply (.object usedBefore) .empty = .ok c ∧
    apply (.object usedBefore.reverse) .empty = .ok c' ∧ c'.Equivalent c ∧
    c.expand? .vocab "kind" = some (.keyword .type) := by
  have hinner : define usedBefore ["kind"] "type" ⟨.empty, []⟩ =
      .ok (.finish ⟨.empty, []⟩ "type" (some { mapping := .keyword .type })) := by
    refine define_of_string List.not_mem_nil (by decide) rfl ?_
    rw [reference_eq]
    rfl
  have houter : define usedBefore [] "kind" ⟨.empty, []⟩ =
      .ok (.finish (.finish ⟨.empty, []⟩ "type" (some { mapping := .keyword .type })) "kind"
        (some { mapping := .keyword .type })) := by
    have hneeded : needed usedBefore "kind" "type" = ["type"] := by decide
    refine define_of_string List.not_mem_nil List.not_mem_nil rfl ?_
    rw [reference_eq, hneeded, defineAll, List.foldlM_cons, hinner]
    rfl
  have hall : defineAll usedBefore [] (termKeys usedBefore) ⟨.empty, []⟩ =
      define usedBefore [] "kind" ⟨.empty, []⟩ := by
    have hkeys : termKeys usedBefore = ["kind", "type"] := by decide
    have hdone := List.mem_cons_of_mem "kind" (List.mem_cons_self : "type" ∈ ["type"])
    rw [hkeys, defineAll, List.foldlM_cons, houter]
    exact bind_eq_ok.mpr ⟨_, rfl, bind_eq_ok.mpr ⟨_, define_of_mem hdone, rfl⟩⟩
  have happly : applyEntries usedBefore .empty = .ok _ :=
    applyEntries_eq_ok_iff.mpr ⟨.empty, .empty, _, rfl, rfl, rfl, hall.trans houter, rfl⟩
  have hkeys : (usedBefore.map Prod.fst).Nodup := by decide
  rcases apply_perm hkeys .empty with h | ⟨c, hc, hperm⟩
  · obtain ⟨e, he⟩ := h usedBefore (.refl _)
    rw [apply, happly] at he
    cases he
  · obtain ⟨c', hc', hequivalent⟩ := hperm usedBefore.reverse (List.reverse_perm _)
    refine ⟨c, c', hc, hc', hequivalent, ?_⟩
    rw [apply, happly] at hc
    cases hc
    rfl

end

end Declaration

end Exemplar
