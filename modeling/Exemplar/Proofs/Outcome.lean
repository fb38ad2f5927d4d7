import Mathlib.Data.List.Forall2
import Mathlib.Tactic.Lemma

/-!
# Steps that can fail

When a computation of several steps succeeds: each of its steps does, and what they yield is
handed on. A look-up finds what is in the list.
-/

namespace Exemplar

variable {ε α β : Type}

lemma bind_eq_ok {x : Except ε α} {f : α → Except ε β} {b : β} :
    x >>= f = .ok b ↔ ∃ a, x = .ok a ∧ f a = .ok b := by
  cases x with
  | error e => simp [bind, Except.bind]
  | ok a => simp [bind, Except.bind]

lemma map_eq_ok {x : Except ε α} {f : α → β} {b : β} :
    x.map f = .ok b ↔ ∃ a, x = .ok a ∧ f a = b := by
  cases x with
  | error e => simp [Except.map]
  | ok a => simp [Except.map]

lemma mapError_eq_ok {ε' : Type} {x : Except ε α} {f : ε → ε'} {a : α} :
    x.mapError f = .ok a ↔ x = .ok a := by
  cases x with
  | error e => simp [Except.mapError]
  | ok b => simp [Except.mapError]

/-- A list is mapped successfully if and only if each of its elements is. -/
lemma mapM_eq_ok {f : α → Except ε β} {as : List α} {bs : List β} :
    as.mapM f = .ok bs ↔ List.Forall₂ (fun a b => f a = .ok b) as bs := by
  induction as generalizing bs with
  | nil => cases bs <;> simp [pure, Except.pure]
  | cons a as ih =>
    rw [List.mapM_cons, bind_eq_ok]
    constructor
    · rintro ⟨b, hb, hrest⟩
      obtain ⟨bs', hbs, heq⟩ := bind_eq_ok.mp hrest
      cases heq
      exact .cons hb (ih.mp hbs)
    · rintro (_ | ⟨hb, hbs⟩)
      exact ⟨_, hb, bind_eq_ok.mpr ⟨_, ih.mpr hbs, rfl⟩⟩

lemma mapM_congr {f f' : α → Except ε β} {as : List α} (h : ∀ a ∈ as, f a = f' a) :
    as.mapM f = as.mapM f' := by
  induction as with
  | nil => rfl
  | cons a as ih =>
    rw [List.forall_mem_cons] at h
    rw [List.mapM_cons, List.mapM_cons, h.1, ih h.2]

lemma mapM_append_eq_ok {f : α → Except ε β} {as bs : List α} {cs : List β} :
    (as ++ bs).mapM f = .ok cs ↔
      ∃ cs₁ cs₂, as.mapM f = .ok cs₁ ∧ bs.mapM f = .ok cs₂ ∧ cs = cs₁ ++ cs₂ := by
  rw [List.mapM_append, bind_eq_ok]
  constructor
  · rintro ⟨cs₁, hcs₁, h⟩
    obtain ⟨cs₂, hcs₂, heq⟩ := bind_eq_ok.mp h
    cases heq
    exact ⟨cs₁, cs₂, hcs₁, hcs₂, rfl⟩
  · rintro ⟨cs₁, cs₂, hcs₁, hcs₂, rfl⟩
    exact ⟨cs₁, hcs₁, bind_eq_ok.mpr ⟨cs₂, hcs₂, rfl⟩⟩

lemma mapM_insert_eq_ok {f : α → Except ε β} {as bs : List α} {a : α} {cs : List β} :
    (as ++ a :: bs).mapM f = .ok cs ↔ ∃ cs₁ c cs₂, as.mapM f = .ok cs₁ ∧ f a = .ok c ∧
      bs.mapM f = .ok cs₂ ∧ cs = cs₁ ++ c :: cs₂ := by
  rw [mapM_append_eq_ok]
  constructor
  · rintro ⟨cs₁, rest, hcs₁, hrest, rfl⟩
    rw [List.mapM_cons] at hrest
    obtain ⟨c, hc, h⟩ := bind_eq_ok.mp hrest
    obtain ⟨cs₂, hcs₂, heq⟩ := bind_eq_ok.mp h
    cases heq
    exact ⟨cs₁, c, cs₂, hcs₁, hc, hcs₂, rfl⟩
  · rintro ⟨cs₁, c, cs₂, hcs₁, hc, hcs₂, rfl⟩
    refine ⟨cs₁, c :: cs₂, hcs₁, ?_, rfl⟩
    rw [List.mapM_cons]
    exact bind_eq_ok.mpr ⟨c, hc, bind_eq_ok.mpr ⟨cs₂, hcs₂, rfl⟩⟩

lemma exists_mem_left {R : α → β → Prop} {as : List α} {bs : List β}
    (h : List.Forall₂ R as bs) {b : β} (hb : b ∈ bs) : ∃ a ∈ as, R a b := by
  induction h with
  | nil => cases hb
  | @cons a b' as bs hab _ ih =>
    rcases List.mem_cons.mp hb with rfl | hb
    · exact ⟨a, List.mem_cons_self, hab⟩
    · obtain ⟨a', ha', hR⟩ := ih hb
      exact ⟨a', List.mem_cons_of_mem _ ha', hR⟩

lemma exists_mem_right {R : α → β → Prop} {as : List α} {bs : List β}
    (h : List.Forall₂ R as bs) {a : α} (ha : a ∈ as) : ∃ b ∈ bs, R a b :=
  exists_mem_left h.flip ha

/-- Related lists are related at each position. -/
lemma exists_getElem?_left {R : α → β → Prop} {as : List α} {bs : List β}
    (h : List.Forall₂ R as bs) {i : Nat} {b : β} (hb : bs[i]? = some b) :
    ∃ a, as[i]? = some a ∧ R a b := by
  induction h generalizing i with
  | nil => cases hb
  | @cons a b' as bs hab _ ih =>
    cases i with
    | zero =>
      cases hb
      exact ⟨a, rfl, hab⟩
    | succ i => exact ih hb

lemma exists_getElem?_right {R : α → β → Prop} {as : List α} {bs : List β}
    (h : List.Forall₂ R as bs) {i : Nat} {a : α} (ha : as[i]? = some a) :
    ∃ b, bs[i]? = some b ∧ R a b :=
  exists_getElem?_left h.flip ha

lemma forall₂_imp_of_mem {R S : α → β → Prop} {as : List α} {bs : List β}
    (h : List.Forall₂ R as bs) (hRS : ∀ a ∈ as, ∀ b ∈ bs, R a b → S a b) :
    List.Forall₂ S as bs := by
  induction h with
  | nil => exact .nil
  | cons hab _ ih =>
    refine .cons (hRS _ List.mem_cons_self _ List.mem_cons_self hab) (ih fun a ha b hb => ?_)
    exact hRS a (List.mem_cons_of_mem _ ha) b (List.mem_cons_of_mem _ hb)

lemma mem_of_lookup_eq_some {κ : Type} [DecidableEq κ] {l : List (κ × α)} {k : κ} {a : α}
    (h : l.lookup k = some a) : (k, a) ∈ l := by
  obtain ⟨before, after, rfl, -⟩ := List.lookup_eq_some_iff.mp h
  simp

lemma mem_iff_lookup_eq_some {κ : Type} [DecidableEq κ] {l : List (κ × α)}
    (h : (l.map Prod.fst).Nodup) {k : κ} {a : α} : (k, a) ∈ l ↔ l.lookup k = some a := by
  induction l with
  | nil => simp
  | cons e rest ih =>
    obtain ⟨j, b⟩ := e
    simp only [List.map_cons, List.nodup_cons] at h
    have hj : ∀ c, (j, c) ∉ rest := fun c hc => h.1 (List.mem_map.mpr ⟨_, hc, rfl⟩)
    by_cases hk : k = j
    · subst hk
      simp [hj, eq_comm]
    · have hne : (k == j) = false := by simpa using hk
      simp [List.lookup_cons, hne, hk, ih h.2]

lemma mem_keys_iff_lookup_isSome {κ : Type} [DecidableEq κ] (l : List (κ × α)) (k : κ) :
    k ∈ l.map Prod.fst ↔ (l.lookup k).isSome := by
  rw [List.lookup_isSome_iff, List.mem_map]
  exact exists_congr fun e => and_congr_right fun _ => by rw [beq_iff_eq, eq_comm]

/-- Where only one element passes a test, it is at only one place. -/
lemma index_eq_of_filter_eq_singleton {α : Type} {p : α → Bool} {l : List α} {a : α}
    (h : l.filter p = [a]) {i j : Nat} {x y : α} (hi : l[i]? = some x) (hj : l[j]? = some y)
    (hx : p x) (hy : p y) : i = j := by
  induction l generalizing i j with
  | nil => cases h
  | cons b rest ih =>
    have hnone : p b → ∀ {k : Nat} {z : α}, rest[k]? = some z → p z → False := by
      intro hb k z hk hz
      rw [List.filter_cons_of_pos hb] at h
      have hrest := (List.cons.inj h).2
      exact List.filter_eq_nil_iff.mp hrest z (List.mem_of_getElem? hk) hz
    cases i with
    | zero =>
      cases hi
      cases j with
      | zero => rfl
      | succ j => exact (hnone hx hj hy).elim
    | succ i =>
      cases j with
      | zero =>
        cases hj
        exact (hnone hy hi hx).elim
      | succ j =>
        by_cases hb : p b
        · exact (hnone hb hi hx).elim
        · rw [List.filter_cons_of_neg hb] at h
          rw [ih h hi hj]

/-- Where all values are different, elements with the same value are the same. -/
lemma eq_of_nodup_filterMap {f : α → Option β} {l : List α}
    (h : (l.filterMap f).Nodup) {a b : α} (ha : a ∈ l) (hb : b ∈ l) {c : β} (hac : f a = some c)
    (hbc : f b = some c) : a = b := by
  induction l with
  | nil => cases ha
  | cons d rest ih =>
    have hmem : ∀ {e}, e ∈ rest → f e = some c → c ∈ rest.filterMap f :=
      fun he hec => List.mem_filterMap.mpr ⟨_, he, hec⟩
    rcases List.mem_cons.mp ha with rfl | ha' <;> rcases List.mem_cons.mp hb with rfl | hb'
    · rfl
    · rw [List.filterMap_cons_some hac, List.nodup_cons] at h
      exact absurd (hmem hb' hbc) h.1
    · rw [List.filterMap_cons_some hbc, List.nodup_cons] at h
      exact absurd (hmem ha' hac) h.1
    · refine ih ?_ ha' hb'
      cases hd : f d with
      | none => rwa [List.filterMap_cons_none hd] at h
      | some e =>
        rw [List.filterMap_cons_some hd, List.nodup_cons] at h
        exact h.2

/-- The last step of a successful run starts from what the run before it yields. -/
lemma foldlM_concat_eq_ok {f : β → α → Except ε β} {b c : β} {as : List α} {a : α} :
    (as ++ [a]).foldlM f b = .ok c ↔ ∃ m, as.foldlM f b = .ok m ∧ f m a = .ok c := by
  rw [List.foldlM_append, bind_eq_ok]
  simp

end Exemplar
