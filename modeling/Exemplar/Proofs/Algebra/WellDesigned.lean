import Exemplar.Algebra.Pattern
import Mathlib.Data.List.Induction
import Mathlib.Tactic.Lemma

/-!
# Well-designed patterns

The right side of a left join is well designed if it shares with the rest of the pattern only
variables that the left side binds itself. Looking for it from the solutions of everything before
it then gives the same as joining it to the left side alone.
-/

namespace Exemplar.Pattern

/-- The columns of a table that are defined in every row. -/
def definedColumns (header : List Variable) (rows : List (List (Option Term))) : List Variable :=
  (header.zipIdx.filter fun (_, i) => rows.all fun row => row[i]?.join.isSome).map Prod.fst

/-- Variables that every solution of a pattern binds: those of triple patterns, path ends and fully
defined columns that are not in the right side of a left join. -/
def certain : Pattern → List Variable
  | bgp triples => triples.flatMap TriplePattern.vars
  | path subject _ object => subject.vars ++ object.vars
  | join left right => left.certain ++ right.certain
  | leftJoin left _ _ => left.certain
  | values header rows => definedColumns header rows
  | _ => []

/-- The variables of the triple patterns that are not in the right side of a left join. -/
def inTriples : Pattern → List Variable
  | bgp triples => triples.flatMap TriplePattern.vars
  | join left right => left.inTriples ++ right.inTriples
  | leftJoin left _ _ => left.inTriples
  | project inner _ => inner.inTriples
  | distinct inner => inner.inTriples
  | _ => []

/-- Whether the left side of every left join in a pattern binds, as told by `bound`, the variables
of the right side that also occur outside the left join: elsewhere in the pattern or in the list. -/
def WellDesigned (bound : Pattern → List Variable) : Pattern → List Variable → Prop
  | bgp _, _ => True
  | path _ _ _, _ => True
  | values _ _, _ => True
  | join left right, outside =>
    left.WellDesigned bound (right.mentioned ++ outside) ∧
      right.WellDesigned bound (left.mentioned ++ outside)
  | leftJoin left right _, outside =>
    (∀ v ∈ right.mentioned, v ∈ outside → v ∈ bound left) ∧
      left.WellDesigned bound (right.mentioned ++ outside) ∧
        right.WellDesigned bound (left.mentioned ++ outside)
  | project inner _, outside => inner.WellDesigned bound outside
  | distinct inner, outside => inner.WellDesigned bound outside
  | _, _ => False

instance WellDesigned.decidable (bound : Pattern → List Variable) :
    (p : Pattern) → (outside : List Variable) → Decidable (p.WellDesigned bound outside)
  | bgp _, _ | path _ _ _, _ | values _ _, _ => isTrue trivial
  | join left right, outside =>
    have := decidable bound left (right.mentioned ++ outside)
    have := decidable bound right (left.mentioned ++ outside)
    inferInstanceAs (Decidable (_ ∧ _))
  | leftJoin left right _, outside =>
    have := decidable bound left (right.mentioned ++ outside)
    have := decidable bound right (left.mentioned ++ outside)
    inferInstanceAs (Decidable (_ ∧ _ ∧ _))
  | project inner _, outside => decidable bound inner outside
  | distinct inner, outside => decidable bound inner outside
  | union _ _, _ | minus _ _, _ | filter _ _, _ | slice _, _ | reduced _, _ => isFalse id

variable {p : Pattern} {qs : List Pattern} {x : Variable}

lemma mem_mentioned_of_inTriples (h : x ∈ p.inTriples) : x ∈ p.mentioned := by
  induction p with
  | bgp triples => exact h
  | join left right ihl ihr =>
    apply List.mem_append.mpr
    exact (List.mem_append.mp h).imp ihl ihr
  | leftJoin left right condition ihl ihr => exact List.mem_append_left _ (ihl h)
  | project inner header ih => exact ih h
  | distinct inner ih => exact ih h
  | _ => cases h

/-! ### Left joins in a row -/

lemma mem_mentioned_foldl_leftJoin :
    x ∈ (qs.foldl (fun left right => .leftJoin left right none) p).mentioned ↔
      x ∈ p.mentioned ∨ ∃ q ∈ qs, x ∈ q.mentioned := by
  induction qs generalizing p with
  | nil => simp
  | cons q qs ih => simp [ih, mentioned, or_assoc]

lemma inTriples_foldl_leftJoin :
    (qs.foldl (fun left right => .leftJoin left right none) p).inTriples = p.inTriples := by
  induction qs generalizing p with
  | nil => rfl
  | cons q qs ih => exact ih

/-- Groups that are left joined to a pattern one after the other, if what they share with the
pattern, with each other and with the outside is in triple patterns of the first one. -/
lemma wellDesigned_foldl_leftJoin (hp : ∀ outside, p.WellDesigned inTriples outside)
    (hshared : ∀ q ∈ qs, ∀ x ∈ q.mentioned, x ∈ p.mentioned → x ∈ p.inTriples)
    (hapart : qs.Pairwise fun q q' => ∀ x ∈ q.mentioned, x ∈ q'.mentioned → x ∈ p.inTriples)
    (hqs : ∀ q ∈ qs, ∀ outside, (∀ x ∈ q.mentioned, x ∈ outside → x ∈ p.inTriples) →
      q.WellDesigned inTriples outside)
    {outside : List Variable}
    (houtside : ∀ q ∈ qs, ∀ x ∈ q.mentioned, x ∈ outside → x ∈ p.inTriples) :
    (qs.foldl (fun left right => .leftJoin left right none) p).WellDesigned inTriples outside := by
  induction qs using List.reverseRecOn generalizing outside with
  | nil => exact hp outside
  | append_singleton qs q ih =>
    rw [List.forall_mem_append, List.forall_mem_singleton] at hshared hqs houtside
    rw [List.pairwise_append] at hapart
    obtain ⟨hpairs, -, hlast⟩ := hapart
    rw [List.foldl_append]
    refine ⟨?_, ih hshared.1 hpairs hqs.1 ?_, hqs.2 _ ?_⟩
    · intro x hx hout
      rw [inTriples_foldl_leftJoin]
      exact houtside.2 x hx hout
    · intro q' hq' x hx hout
      rcases List.mem_append.mp hout with hq | hout
      · exact hlast q' hq' q List.mem_cons_self x hx hq
      · exact houtside.1 q' hq' x hx hout
    · intro x hx hout
      rcases List.mem_append.mp hout with hleft | hout
      · rcases mem_mentioned_foldl_leftJoin.mp hleft with hp | ⟨q', hq', hx'⟩
        · exact hshared.2 x hx hp
        · exact hlast q' hq' q List.mem_cons_self x hx' hx
      · exact houtside.2 x hx hout

end Exemplar.Pattern
