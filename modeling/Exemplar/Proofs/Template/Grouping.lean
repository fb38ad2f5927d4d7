import Exemplar.Proofs.Outcome
import Exemplar.Template.Folding
import Mathlib.Data.List.Induction

/-!
# Rows in groups

Rows that are added one after the other to what is kept for their key. What a key has at the end
is what the rows of this key alone give, in their order; the rows of other keys do not matter.
-/

namespace Exemplar

variable {κ α ε σ : Type} [DecidableEq κ]

/-! ### One key -/

/-- The list in which a key has a value: in its place if it is there, else at the end. -/
def putAt (key : κ) (a : α) : List (κ × α) → List (κ × α)
  | [] => [(key, a)]
  | (k, b) :: rest => if k = key then (k, a) :: rest else (k, b) :: putAt key a rest

lemma updateAt_eq (fresh : α) (change : α → Except ε α) (key : κ) (l : List (κ × α)) :
    updateAt fresh change key l =
      (change ((l.lookup key).getD fresh)).map fun a => putAt key a l := by
  induction l with
  | nil => simp [updateAt, putAt]
  | cons e rest ih =>
    obtain ⟨k, b⟩ := e
    by_cases hk : k = key
    · subst hk
      simp [updateAt, putAt]
    · have hne : (key == k) = false := by simpa using Ne.symm hk
      rw [updateAt, if_neg hk, ih, List.lookup_cons, hne]
      simp only [putAt, if_neg hk]
      cases change ((rest.lookup key).getD fresh) <;> simp [Except.map]

@[simp] lemma lookup_putAt (key k : κ) (a : α) (l : List (κ × α)) :
    (putAt key a l).lookup k = if k = key then some a else l.lookup k := by
  induction l with
  | nil => grind [putAt]
  | cons e rest ih => grind [putAt]

lemma mem_keys_putAt {key k : κ} {a : α} {l : List (κ × α)} :
    k ∈ (putAt key a l).map Prod.fst ↔ k = key ∨ k ∈ l.map Prod.fst := by
  induction l with
  | nil => simp [putAt]
  | cons e rest ih => grind [putAt]

lemma nodup_keys_putAt (key : κ) (a : α) {l : List (κ × α)} (h : (l.map Prod.fst).Nodup) :
    ((putAt key a l).map Prod.fst).Nodup := by
  induction l with
  | nil => simp [putAt]
  | cons e rest ih =>
    obtain ⟨k, b⟩ := e
    simp only [List.map_cons, List.nodup_cons] at h
    by_cases hk : k = key
    · rw [putAt, if_pos hk]
      exact List.nodup_cons.mpr h
    · rw [putAt, if_neg hk, List.map_cons, List.nodup_cons, mem_keys_putAt]
      exact ⟨fun hmem => hmem.elim hk h.1, ih h.2⟩

lemma lookup_map_snd {β : Type} (f : α → β) (l : List (κ × α)) (k : κ) :
    (l.map fun e => (e.1, f e.2)).lookup k = (l.lookup k).map f := by
  induction l with
  | nil => rfl
  | cons e rest ih =>
    rw [List.map_cons, List.lookup_cons, List.lookup_cons, ih]
    cases k == e.1 <;> rfl

/-! ### Groups -/

section

-- a row that has a key changes what is kept for this key, at first what is `fresh` for the row
variable (key? : σ → Option κ) (fresh : σ → α) (change : σ → α → Except ε α)

/-- Adds a row to the group of its key, if it has one. -/
def addToGroup (l : List (κ × α)) (s : σ) : Except ε (List (κ × α)) :=
  match key? s with
  | none => .ok l
  | some key => updateAt (fresh s) (change s) key l

/-- Adds a row to what a single group has been filled with. -/
def addToOne (a : Option α) (s : σ) : Except ε (Option α) :=
  (change s (a.getD (fresh s))).map some

/-- The rows of a key. -/
def group (k : κ) (rows : List σ) : List σ := rows.filter fun s => key? s = some k

/-- What is kept by key after some rows: for each key what its own rows give. -/
structure Grouped (rows : List σ) (l : List (κ × α)) : Prop where
  nodup : (l.map Prod.fst).Nodup
  lookup (k : κ) : (group key? k rows).foldlM (addToOne fresh change) none = .ok (l.lookup k)

variable {key? fresh change}

lemma mem_group {k : κ} {s : σ} {rows : List σ} :
    s ∈ group key? k rows ↔ s ∈ rows ∧ key? s = some k := by simp [group]

lemma group_concat (k : κ) (rows : List σ) (s : σ) :
    group key? k (rows ++ [s]) =
      if key? s = some k then group key? k rows ++ [s] else group key? k rows := by
  by_cases h : key? s = some k <;> simp [group, h]

/-- A row belongs to its group, and leaves all others as they are. -/
lemma Grouped.concat {rows : List σ} {l l' : List (κ × α)} {s : σ}
    (h : Grouped key? fresh change rows l) (hs : addToGroup key? fresh change l s = .ok l') :
    Grouped key? fresh change (rows ++ [s]) l' := by
  unfold addToGroup at hs
  split at hs
  · next hnone =>
    cases hs
    refine ⟨h.nodup, fun k => ?_⟩
    rw [group_concat, hnone, if_neg (by simp)]
    exact h.lookup k
  · next key hkey =>
    rw [updateAt_eq, map_eq_ok] at hs
    obtain ⟨a, ha, rfl⟩ := hs
    refine ⟨nodup_keys_putAt key a h.nodup, fun k => ?_⟩
    rw [group_concat, hkey, lookup_putAt]
    by_cases hk : k = key
    · subst hk
      rw [if_pos rfl, if_pos rfl, foldlM_concat_eq_ok]
      exact ⟨_, h.lookup k, map_eq_ok.mpr ⟨a, ha, rfl⟩⟩
    · rw [if_neg (by simpa using Ne.symm hk), if_neg hk]
      exact h.lookup k

/-- All rows together keep for each key what the rows of this key give. -/
lemma grouped_of_foldlM {rows : List σ} {l : List (κ × α)}
    (h : rows.foldlM (addToGroup key? fresh change) [] = .ok l) :
    Grouped key? fresh change rows l := by
  induction rows using List.reverseRecOn generalizing l with
  | nil =>
    cases h
    exact ⟨by simp, fun k => rfl⟩
  | append_singleton rows s ih =>
    obtain ⟨m, hm, hs⟩ := foldlM_concat_eq_ok.mp h
    exact (ih hm).concat hs

/-- If the rows of each key can be added, all rows can. -/
lemma exists_foldlM_addToGroup {rows : List σ}
    (h : ∀ k, ∃ a, (group key? k rows).foldlM (addToOne fresh change) none = .ok a) :
    ∃ l, rows.foldlM (addToGroup key? fresh change) [] = .ok l := by
  induction rows using List.reverseRecOn with
  | nil => exact ⟨[], rfl⟩
  | append_singleton rows s ih =>
    have hstep : ∀ k, ∃ a, (group key? k rows).foldlM (addToOne fresh change) none = .ok a := by
      intro k
      obtain ⟨a, ha⟩ := h k
      rw [group_concat] at ha
      split at ha
      · obtain ⟨m, hm, -⟩ := foldlM_concat_eq_ok.mp ha
        exact ⟨m, hm⟩
      · exact ⟨a, ha⟩
    obtain ⟨l, hl⟩ := ih hstep
    cases hkey : key? s with
    | none => exact ⟨l, foldlM_concat_eq_ok.mpr ⟨l, hl, by simp [addToGroup, hkey]⟩⟩
    | some key =>
      obtain ⟨a, ha⟩ := h key
      rw [group_concat, if_pos hkey, foldlM_concat_eq_ok] at ha
      obtain ⟨m, hm, hchange⟩ := ha
      have heq : m = l.lookup key :=
        Except.ok.inj (hm.symm.trans ((grouped_of_foldlM hl).lookup key))
      obtain ⟨b, hb, -⟩ := map_eq_ok.mp (heq ▸ hchange)
      refine ⟨putAt key b l, foldlM_concat_eq_ok.mpr ⟨l, hl, ?_⟩⟩
      simp only [addToGroup, hkey, updateAt_eq]
      exact map_eq_ok.mpr ⟨b, hb, rfl⟩

/-- A group has a value exactly if it has rows. -/
lemma isSome_of_foldlM_addToOne {rows : List σ} {a : Option α}
    (h : rows.foldlM (addToOne fresh change) none = .ok a) : a.isSome ↔ rows ≠ [] := by
  induction rows using List.reverseRecOn with
  | nil => cases h; simp
  | append_singleton rows s _ =>
    obtain ⟨m, -, hs⟩ := foldlM_concat_eq_ok.mp h
    obtain ⟨b, -, rfl⟩ := map_eq_ok.mp hs
    simp

/-- A key is kept exactly if some row has it. -/
lemma Grouped.mem_keys {rows : List σ} {l : List (κ × α)} (h : Grouped key? fresh change rows l)
    {k : κ} : k ∈ l.map Prod.fst ↔ ∃ s ∈ rows, key? s = some k := by
  have hsome := isSome_of_foldlM_addToOne (h.lookup k)
  rw [List.lookup_isSome_iff] at hsome
  constructor
  · intro hk
    obtain ⟨e, he, rfl⟩ := List.mem_map.mp hk
    obtain ⟨s, hs⟩ := List.exists_mem_of_ne_nil _ (hsome.mp ⟨e, he, by simp⟩)
    exact ⟨s, mem_group.mp hs⟩
  · rintro ⟨s, hs, hkey⟩
    obtain ⟨e, he, hek⟩ := hsome.mpr (List.ne_nil_of_mem (mem_group.mpr ⟨hs, hkey⟩))
    exact List.mem_map.mpr ⟨e, he, (beq_iff_eq.mp hek).symm⟩

end

end Exemplar
