import Exemplar.Proofs.Template.Positions

/-!
# Hygienic templates

Templates in which the variables of different parts do not get into each other's way. A placeholder
shares its variable with no other one, the slots of a list have variables of their own, and only
sets that are directly inside each other have the same one.
-/

namespace Exemplar.Template

/-- The variables that no other part of a template may have: that of a placeholder, and those of
the slots of a list. -/
def exclusiveVariables : Template → List Variable
  | .native v => [v]
  | .name v _ _ => [v]
  | .typed v _ => [v]
  | .indexed index _ _ => [index]
  | .linked _ slot rest _ => [slot, rest]
  | _ => []

/-- Whether different parts of a template only share a variable if they are sets and one of them is
the other's member, or a member of such a member. -/
structure Hygienic (t : Template) : Prop where
  exclusive {p p' : List Step} {a b : Template} {x : Variable} (ha : t.at? p = some a)
    (hb : t.at? p' = some b) (hxa : x ∈ a.exclusiveVariables) (hxb : x ∈ b.exclusiveVariables) :
    p = p'
  sets {p p' : List Step} {v : Variable} {m m' : Template} (h : t.at? p = some (.set v m))
    (h' : t.at? p' = some (.set v m')) :
    ∃ n, p' = p ++ List.replicate n .member ∨ p = p' ++ List.replicate n .member

lemma mem_ownVariables_of_mem_exclusive {t : Template} {x : Variable}
    (h : x ∈ t.exclusiveVariables) : x ∈ t.ownVariables := by
  cases t with
  | linked => exact List.mem_cons_of_mem _ h
  | native | name | typed | indexed => exact h
  | constant | object | set | unwrapped => cases h

/-- Where the step to a set leads, the set is consumed. -/
lemma consumes_of_at?_set {t : Template} {p : List Step} {v : Variable} {m : Template}
    (h : t.at? p = some (.set v m)) : t.Consumes v :=
  ⟨p, _, h, List.mem_cons_self⟩

lemma consumes_of_mem_exclusive {t a : Template} {p : List Step} {x : Variable}
    (h : t.at? p = some a) (hx : x ∈ a.exclusiveVariables) : t.Consumes x :=
  ⟨p, a, h, mem_ownVariables_of_mem_exclusive hx⟩

lemma hygienic_leaf {t : Template}
    (ht : ∀ position part, t.at? position = some part ↔ position = [] ∧ part = t) :
    t.Hygienic where
  exclusive ha hb _ _ := ((ht _ _).mp ha).1.trans ((ht _ _).mp hb).1.symm
  sets h h' := ⟨0, .inl (by rw [((ht _ _).mp h).1, ((ht _ _).mp h').1]; rfl)⟩

/-- What has one part keeps it hygienic if the part does not use its exclusive variables. -/
lemma hygienic_of_step {t inner : Template} {step : Step}
    (ht : ∀ position part, t.at? position = some part ↔ (position = [] ∧ part = t) ∨
      ∃ rest, position = step :: rest ∧ inner.at? rest = some part)
    (hset : ∀ v m, t ≠ .set v m) (h : inner.Hygienic)
    (hexclusive : ∀ x ∈ t.exclusiveVariables, ¬ inner.Consumes x) : t.Hygienic where
  exclusive ha hb hxa hxb := by
    rcases (ht _ _).mp ha with ⟨rfl, heq⟩ | ⟨rest, rfl, hpart⟩ <;>
      rcases (ht _ _).mp hb with ⟨rfl, heq'⟩ | ⟨rest', rfl, hpart'⟩
    · rfl
    · rw [heq] at hxa
      exact absurd (consumes_of_mem_exclusive hpart' hxb) (hexclusive _ hxa)
    · rw [heq'] at hxb
      exact absurd (consumes_of_mem_exclusive hpart hxa) (hexclusive _ hxb)
    · rw [h.exclusive hpart hpart' hxa hxb]
  sets ha hb := by
    rcases (ht _ _).mp ha with ⟨-, heq⟩ | ⟨rest, rfl, hpart⟩
    · exact absurd heq.symm (hset _ _)
    rcases (ht _ _).mp hb with ⟨-, heq⟩ | ⟨rest', rfl, hpart'⟩
    · exact absurd heq.symm (hset _ _)
    obtain ⟨n, heq | heq⟩ := h.sets hpart hpart'
    · exact ⟨n, .inl (congrArg (step :: ·) heq)⟩
    · exact ⟨n, .inr (congrArg (step :: ·) heq)⟩

/-- A set may only share its variable with sets that are its members. -/
lemma hygienic_set {v : Variable} {member : Template} (h : member.Hygienic)
    (hv : ∀ p m, member.at? p = some (.set v m) → ∃ n, p = List.replicate n .member) :
    (set v member).Hygienic where
  exclusive ha hb hxa hxb := by
    rcases at?_set.mp ha with ⟨rfl, heq⟩ | ⟨rest, rfl, hpart⟩
    · rw [heq] at hxa
      cases hxa
    rcases at?_set.mp hb with ⟨rfl, heq⟩ | ⟨rest', rfl, hpart'⟩
    · rw [heq] at hxb
      cases hxb
    rw [h.exclusive hpart hpart' hxa hxb]
  sets ha hb := by
    rcases at?_set.mp ha with ⟨rfl, heq⟩ | ⟨rest, rfl, hpart⟩ <;>
      rcases at?_set.mp hb with ⟨rfl, heq'⟩ | ⟨rest', rfl, hpart'⟩
    · exact ⟨0, .inl rfl⟩
    · cases heq
      obtain ⟨n, rfl⟩ := hv _ _ hpart'
      exact ⟨n + 1, .inl rfl⟩
    · cases heq'
      obtain ⟨n, rfl⟩ := hv _ _ hpart
      exact ⟨n + 1, .inr rfl⟩
    · obtain ⟨n, heq | heq⟩ := h.sets hpart hpart'
      · exact ⟨n, .inl (congrArg (Step.member :: ·) heq)⟩
      · exact ⟨n, .inr (congrArg (Step.member :: ·) heq)⟩

/-- The entries of an object are hygienic together if no two of them consume the same variable. -/
lemma hygienic_object {declaration : Option Json} {entries : List (String × Template)}
    (h : ∀ e ∈ entries, e.2.Hygienic)
    (hdisjoint : ∀ (i j : Nat) (e e' : String × Template) (x : Variable),
      entries[i]? = some e → entries[j]? = some e' → e.2.Consumes x → e'.2.Consumes x → i = j) :
    (object declaration entries).Hygienic where
  exclusive ha hb hxa hxb := by
    rcases at?_object.mp ha with ⟨rfl, heq⟩ | ⟨i, rest, e, rfl, he, hpart⟩
    · rw [heq] at hxa
      cases hxa
    rcases at?_object.mp hb with ⟨rfl, heq⟩ | ⟨j, rest', e', rfl, he', hpart'⟩
    · rw [heq] at hxb
      cases hxb
    obtain rfl := hdisjoint i j e e' _ he he' (consumes_of_mem_exclusive hpart hxa)
      (consumes_of_mem_exclusive hpart' hxb)
    cases he.symm.trans he'
    rw [(h e (List.mem_of_getElem? he)).exclusive hpart hpart' hxa hxb]
  sets ha hb := by
    rcases at?_object.mp ha with ⟨-, heq⟩ | ⟨i, rest, e, rfl, he, hpart⟩
    · cases heq
    rcases at?_object.mp hb with ⟨-, heq⟩ | ⟨j, rest', e', rfl, he', hpart'⟩
    · cases heq
    obtain rfl := hdisjoint i j e e' _ he he' (consumes_of_at?_set hpart)
      (consumes_of_at?_set hpart')
    cases he.symm.trans he'
    obtain ⟨n, heq | heq⟩ := (h e (List.mem_of_getElem? he)).sets hpart hpart'
    · exact ⟨n, .inl (congrArg (Step.entry i :: ·) heq)⟩
    · exact ⟨n, .inr (congrArg (Step.entry i :: ·) heq)⟩

end Exemplar.Template
