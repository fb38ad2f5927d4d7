import Exemplar.Proofs.Template.Completion
import Exemplar.Proofs.Template.Parts

/-!
# Shapes of results

What kind of value the result of a template is, whatever solutions are folded into it: a scalar for
a placeholder, an array for a set or a list, and an object with the keys of its template.
-/

namespace Exemplar

/-- Whether a value is a string, a number or a boolean. -/
def Json.IsScalar : Json → Prop
  | .string _ => True
  | .number _ => True
  | .bool _ => True
  | _ => False

lemma Literal.isScalar_native? {l : Literal} {d : Json} (h : l.native? = some d) : d.IsScalar := by
  cases l with
  | tagged lexical language => cases h
  | typed lexical datatype =>
    simp only [Literal.native?] at h
    repeat' split at h
    · cases h
      trivial
    · obtain ⟨n, -, rfl⟩ := Option.map_eq_some_iff.mp h
      trivial
    · obtain ⟨n, -, rfl⟩ := Option.map_eq_some_iff.mp h
      trivial
    · cases h
      trivial
    · cases h
      trivial
    · cases h
    · cases h

namespace Template

variable {rows : List Solution} {d : Json}

/-! ### Scalars -/

lemma Gives.isScalar_native {v : Variable} (h : (native v).Gives rows d) : d.IsScalar := by
  obtain ⟨f, hf, hd⟩ := h
  obtain ⟨t, -, hvalue⟩ := placeholder_value hf hd
  unfold nativeValue at hvalue
  split at hvalue
  · next value hnative =>
    cases hvalue
    cases t with
    | node n => cases hnative
    | literal l => exact Literal.isScalar_native? hnative
  · cases hvalue

lemma Gives.isScalar_name {v : Variable} {context : Context} {mode : IriMode}
    (h : (Template.name v context mode).Gives rows d) : d.IsScalar := by
  obtain ⟨iri, -, rfl⟩ := h.name
  trivial

lemma Gives.isScalar_typed {v : Variable} {datatype : Iri} (h : (typed v datatype).Gives rows d) :
    d.IsScalar := by
  obtain ⟨f, hf, hd⟩ := h
  obtain ⟨t, -, hvalue⟩ := placeholder_value hf hd
  unfold typedValue at hvalue
  repeat' split at hvalue
  · cases hvalue
    trivial
  · cases hvalue
  · cases hvalue

/-- Solutions give one result at most. -/
lemma Gives.unique {t : Template} {d' : Json} (h : t.Gives rows d) (h' : t.Gives rows d') :
    d = d' := by
  obtain ⟨f, hf, hd⟩ := h
  obtain ⟨f', hf', hd'⟩ := h'
  cases hf.symm.trans hf'
  exact Except.ok.inj (hd.symm.trans hd')

lemma Gives.constant {value : Json} (h : (constant value).Gives rows d) : d = value := by
  obtain ⟨f, -, hd⟩ := h
  exact (Except.ok.inj hd).symm

/-! ### Objects -/

/-- The results of entries with different keys follow those that are there, in their order. -/
lemma exists_resultEntries {entries : List (String × Template)} {fs : Template.Fillings entries}
    {before as : Entries} (hfs : addAllEntries entries rows (startEntries entries) = .ok fs)
    (has : resultEntries entries fs before = .ok as) (hkeys : (entries.map Prod.fst).Nodup)
    (hbefore : ∀ e ∈ entries, before.lookup e.1 = none) :
    ∃ ds, as = before ++ ds ∧
      List.Forall₂ (fun e a => e.1 = a.1 ∧ e.2.Gives rows a.2) entries ds := by
  induction entries generalizing before with
  | nil =>
    cases has
    exact ⟨[], (List.append_nil _).symm, .nil⟩
  | cons e rest ih =>
    obtain ⟨key, t⟩ := e
    obtain ⟨hf, hrest⟩ := addAllEntries_cons.mp hfs
    obtain ⟨value, hvalue, has⟩ := bind_eq_ok.mp has
    rw [List.map_cons, List.nodup_cons] at hkeys
    rw [List.forall_mem_cons] at hbefore
    rw [insert_of_lookup_eq_none hbefore.1] at has
    obtain ⟨ds, rfl, hds⟩ := ih hrest has hkeys.2 fun e he =>
      lookup_concat_eq_none (hbefore.2 e he) fun heq => hkeys.1 (List.mem_map.mpr ⟨e, he, heq⟩)
    exact ⟨(key, value) :: ds, by simp, .cons ⟨rfl, fs.1, hf, hvalue⟩ hds⟩

/-- An object has the declaration of its template, and an entry for each of its entries, if their
keys are different. -/
lemma Gives.object {declaration : Option Json} {entries : List (String × Template)}
    (h : (Template.object declaration entries).Gives rows d)
    (hkeys : (entries.map Prod.fst).Nodup)
    (hnew : ∀ e ∈ entries, (declarationEntries declaration).lookup e.1 = none) :
    ∃ ds, d = .object (declarationEntries declaration ++ ds) ∧
      List.Forall₂ (fun e a => e.1 = a.1 ∧ e.2.Gives rows a.2) entries ds := by
  obtain ⟨fs, hfs, hresult⟩ := h
  obtain ⟨as, has, rfl⟩ := map_eq_ok.mp hresult
  obtain ⟨ds, rfl, hds⟩ := exists_resultEntries hfs has hkeys hnew
  exact ⟨ds, rfl, hds⟩

/-! ### Arrays -/

/-- The results of members come from the template of the members. -/
lemma Gives.set {v : Variable} {member : Template} (h : (Template.set v member).Gives rows d) :
    ∃ items, d = .array items ∧ ∀ item ∈ items, ∃ rows', member.Gives rows' item := by
  obtain ⟨items, rfl⟩ : ∃ items, d = .array items := by
    obtain ⟨f, -, hd⟩ := h
    obtain ⟨items, -, rfl⟩ := map_eq_ok.mp hd
    exact ⟨items, rfl⟩
  refine ⟨items, rfl, fun item hitem => ?_⟩
  obtain ⟨k, -, hgives⟩ := h.set_item hitem
  exact ⟨_, hgives⟩

lemma Gives.linked {list slot rest : Variable} {member : Template}
    (h : (Template.linked list slot rest member).Gives rows d) :
    ∃ items, d = .array items ∧ ∀ item ∈ items, ∃ rows', member.Gives rows' item := by
  obtain ⟨items, rfl⟩ : ∃ items, d = .array items := by
    obtain ⟨(f : Chain member.Filling), -, hd⟩ := h
    change linkedResult member.result list f = .ok d at hd
    unfold linkedResult at hd
    split at hd
    · cases hd
    · obtain ⟨items, -, rfl⟩ := map_eq_ok.mp hd
      exact ⟨items, rfl⟩
  refine ⟨items, rfl, fun item hitem => ?_⟩
  obtain ⟨k, -, hgives⟩ := h.linked_item hitem
  exact ⟨_, hgives⟩

/-- A position without an item has an empty object. -/
lemma Gives.indexed {index : Variable} {origin : Int} {member : Template}
    (h : (Template.indexed index origin member).Gives rows d) :
    ∃ items, d = .array items ∧
      ∀ item ∈ items, item = .object [] ∨ ∃ rows', member.Gives rows' item := by
  obtain ⟨(slots : List (Nat × IndexedSlot member.Filling)), hslots, hd⟩ := h
  have hmembers := members_of_addAll_indexed hslots
  rcases indexedResult_eq_ok.mp hd with ⟨-, rfl⟩ | ⟨e, -, -, items, hitems, rfl⟩
  · exact ⟨[], rfl, by simp⟩
  · refine ⟨items, rfl, fun item hitem => ?_⟩
    obtain ⟨position, -, hitem⟩ := exists_mem_left (mapM_eq_ok.mp hitems) hitem
    unfold itemAt at hitem
    split at hitem
    · next slot hslot =>
      refine .inr ⟨_, slot.item, hmembers.filled position slot.item ?_, hitem⟩
      rw [lookup_map_snd, hslot]
      rfl
    · cases hitem
      exact .inl rfl

lemma Gives.unwrapped {key : String} {inner : Template}
    (h : (Template.unwrapped key inner).Gives rows d) :
    ∃ entries, inner.Gives rows (.object entries) ∧ entries.lookup key = some d := by
  obtain ⟨f, hf, hd⟩ := h
  obtain ⟨d', hd', hunwrap⟩ := bind_eq_ok.mp hd
  cases d' with
  | object entries =>
    cases hvalue : entries.lookup key with
    | none =>
      rw [unwrap, hvalue] at hunwrap
      cases hunwrap
    | some value =>
      rw [unwrap, hvalue] at hunwrap
      cases hunwrap
      exact ⟨entries, ⟨f, hf, hd'⟩, hvalue⟩
  | _ => cases hunwrap

end Template

end Exemplar
