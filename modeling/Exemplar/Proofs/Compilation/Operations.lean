import Exemplar.Compilation.Array
import Exemplar.Compilation.NodeObject
import Exemplar.Proofs.Algebra.WellDesigned

/-!
# Parts of operations

What an operation has after another one is joined into it: which patterns, and which variables they
mention.
-/

namespace Exemplar.Operation

/-! ### Joins -/

/-- Two operations part by part. -/
def append (o other : Operation) : Operation :=
  { o with
    triples := o.triples ++ other.triples
    required := o.required ++ other.required
    optionals := o.optionals ++ other.optionals }

/-- What an operation adds to the one that it is joined into. -/
def asPart (o : Operation) : Operation :=
  if o.isOptional then { optionals := [o.build] } else o

section

variable {o other : Operation} {x : Variable}

lemma join_cases : o.join other = o ∨ o.join other = o.append other.asPart := by
  unfold join
  split
  · exact .inl rfl
  · refine .inr ?_
    unfold asPart
    split
    · simp [append]
    · rfl

lemma join_of_not_optional (h : other.isOptional = false) : o.join other = o.append other := by
  unfold join
  split
  · next hempty =>
    simp only [isEmpty, Bool.and_eq_true, List.isEmpty_iff] at hempty
    simp [append, hempty]
  · simp [h, append]

lemma join_of_optional (hoptional : other.isOptional) (hempty : ¬ other.isEmpty) :
    o.join other = { o with optionals := o.optionals ++ [other.build] } := by
  unfold join
  rw [if_neg hempty, if_pos hoptional]

/-- Operations that are joined one after the other into an operation may be joined into an empty one
first. -/
lemma foldl_join_eq_append (parts : List EntryPart) (o : Operation) :
    parts.foldl (fun operation part => operation.join part.operation) o =
      o.append (parts.foldl (fun (operation : Operation) part => operation.join part.operation)
        {}) := by
  have hjoin : ∀ a b other : Operation, (a.append b).join other = a.append (b.join other) := by
    intro a b other
    unfold join
    split
    · rfl
    · split <;> simp [append]
  have hempty : ∀ a : Operation, a.append {} = a := fun a => by simp [append]
  have hfold : ∀ a b : Operation,
      parts.foldl (fun operation part => operation.join part.operation) (a.append b) =
        a.append (parts.foldl (fun operation part => operation.join part.operation) b) := by
    induction parts with
    | nil => exact fun a b => rfl
    | cons part rest ih =>
      intro a b
      rw [List.foldl_cons, List.foldl_cons, hjoin, ih]
  rw [← hfold, hempty]

lemma isOptional_foldl_join (parts : List EntryPart) (o : Operation) :
    (parts.foldl (fun operation part => operation.join part.operation) o).isOptional =
      o.isOptional := by
  induction parts generalizing o with
  | nil => rfl
  | cons part parts ih =>
    rw [List.foldl_cons, ih, join]
    split
    · rfl
    · split <;> rfl

lemma mem_triples_foldl_join {parts : List EntryPart} {t : TriplePattern}
    (h : t ∈ o.triples ∨ ∃ part ∈ parts, part.operation.isOptional = false ∧
      t ∈ part.operation.triples) :
    t ∈ (parts.foldl (fun operation part => operation.join part.operation) o).triples := by
  induction parts generalizing o with
  | nil => simpa using h
  | cons part rest ih =>
    apply ih
    have hjoin : ∀ u, u ∈ o.triples ∨ part.operation.isOptional = false ∧
        u ∈ part.operation.triples → u ∈ (o.join part.operation).triples := by
      rintro u (hu | ⟨hoptional, hu⟩)
      · rcases join_cases with hjoin | hjoin <;> rw [hjoin]
        · exact hu
        · exact List.mem_append_left _ hu
      · rw [join_of_not_optional hoptional]
        exact List.mem_append_right _ hu
    rcases h with ht | ⟨part', hpart', hoptional, ht⟩
    · exact .inl (hjoin t (.inl ht))
    · rcases List.mem_cons.mp hpart' with rfl | hpart'
      · exact .inl (hjoin t (.inr ⟨hoptional, ht⟩))
      · exact .inr ⟨part', hpart', hoptional, ht⟩

end

/-! ### Links and members -/

section

variable {node : PatternTerm} {key : String} {predicate : Iri} {v : Variable} {f : Fragment}

@[simp] lemma isOptional_link :
    (EntryPart.link node key predicate v f).operation.isOptional = f.operation.isOptional := by
  cases hterm : f.term <;> simp [EntryPart.link, withLink, hterm]

/-- A linked value requires its link if it is denoted by something. -/
lemma mem_triples_link {t : TriplePattern} :
    t ∈ (EntryPart.link node key predicate v f).operation.triples ↔
      (∃ object, f.term = some object ∧ t = .link node predicate object) ∨
        t ∈ f.operation.triples := by
  cases hterm : f.term <;> simp [EntryPart.link, withLink, TriplePattern.link, hterm]

/-- A member of an array binds the variable of the array by itself, or as the fixed term that it
is. -/
lemma memberOperation_cases (v : Variable) (f : Fragment) :
    memberOperation v f = f.operation ∨
      ∃ t, fixedTerm? f.term = some t ∧
        memberOperation v f = f.operation.withRequired (.values [v] [[some t]]) := by
  unfold memberOperation
  split
  · next t hfixed => exact .inr ⟨t, hfixed, rfl⟩
  · exact .inl rfl

@[simp] lemma triples_memberOperation : (memberOperation v f).triples = f.operation.triples := by
  rcases memberOperation_cases v f with heq | ⟨t, -, heq⟩ <;> rw [heq]
  rfl

@[simp] lemma optionals_memberOperation :
    (memberOperation v f).optionals = f.operation.optionals := by
  rcases memberOperation_cases v f with heq | ⟨t, -, heq⟩ <;> rw [heq]
  rfl

end

/-! ### Mentioned variables -/

/-- The variables in all patterns of an operation. -/
def mentioned (o : Operation) : List Variable :=
  o.triples.flatMap TriplePattern.vars ++ o.required.flatMap Pattern.mentioned ++
    o.optionals.flatMap Pattern.mentioned

section

variable {o other : Operation} {x : Variable}

@[simp] lemma mentioned_empty : ({} : Operation).mentioned = [] := rfl

lemma mem_mentioned : x ∈ o.mentioned ↔
    (∃ t ∈ o.triples, x ∈ t.vars) ∨ (∃ p ∈ o.required, x ∈ p.mentioned) ∨
      ∃ p ∈ o.optionals, x ∈ p.mentioned := by
  simp only [mentioned, List.mem_append, List.mem_flatMap, or_assoc]

/-- What is in the required pattern, of what joins pass on and triple patterns have: all variables,
or those in triple patterns only. -/
lemma mem_requiredPattern {vars : Pattern → List Variable}
    (hjoin : ∀ l r, vars (.join l r) = vars l ++ vars r)
    (hbgp : ∀ ts, vars (.bgp ts) = ts.flatMap TriplePattern.vars) :
    x ∈ vars o.requiredPattern ↔
      (∃ t ∈ o.triples, x ∈ t.vars) ∨ ∃ p ∈ o.required, x ∈ vars p := by
  have hfold : ∀ (rest : List Pattern) (p : Pattern),
      x ∈ vars (rest.foldl .join p) ↔ x ∈ vars p ∨ ∃ q ∈ rest, x ∈ vars q := by
    intro rest
    induction rest with
    | nil => simp
    | cons q rest ih => simp [ih, hjoin, or_assoc]
  have hall : ∀ ps, x ∈ vars (joinAll ps) ↔ ∃ p ∈ ps, x ∈ vars p := by
    intro ps
    cases ps with
    | nil => simp [joinAll, Pattern.unit, hbgp]
    | cons p rest => simp [joinAll, hfold]
  have htriples : (∃ p ∈ o.bgp, x ∈ vars p) ↔ ∃ t ∈ o.triples, x ∈ t.vars := by
    unfold bgp
    cases o.triples <;> simp [hbgp]
  rw [requiredPattern, hall]
  simp only [List.mem_append, or_and_right, exists_or, htriples]

lemma mem_mentioned_requiredPattern : x ∈ o.requiredPattern.mentioned ↔
    (∃ t ∈ o.triples, x ∈ t.vars) ∨ ∃ p ∈ o.required, x ∈ p.mentioned :=
  mem_requiredPattern (fun _ _ => rfl) fun _ => rfl

lemma mem_mentioned_iff : x ∈ o.mentioned ↔
    x ∈ o.requiredPattern.mentioned ∨ ∃ q ∈ o.optionals, x ∈ q.mentioned := by
  rw [mem_mentioned, mem_mentioned_requiredPattern, or_assoc]

lemma mem_mentioned_build : x ∈ o.build.mentioned ↔ x ∈ o.mentioned := by
  rw [build, Pattern.mem_mentioned_foldl_leftJoin, mem_mentioned_iff]

lemma mem_mentioned_asPart : x ∈ o.asPart.mentioned ↔ x ∈ o.mentioned := by
  unfold asPart
  split
  · simp [mentioned, mem_mentioned_build]
  · rfl

lemma mem_mentioned_toPattern : x ∈ o.toPattern.mentioned ↔ x ∈ o.mentioned := by
  unfold toPattern
  split
  · simp [Pattern.mentioned, Pattern.unit, mem_mentioned_build]
  · exact mem_mentioned_build

lemma mem_mentioned_join :
    x ∈ (o.join other).mentioned ↔ x ∈ o.mentioned ∨ x ∈ other.mentioned := by
  unfold join
  split
  · next hempty =>
    simp only [isEmpty, Bool.and_eq_true, List.isEmpty_iff] at hempty
    simp [mentioned, hempty]
  · split
    · simp only [mentioned, List.flatMap_append, List.flatMap_singleton, List.mem_append,
        mem_mentioned_build]
      tauto
    · simp only [mentioned, List.flatMap_append, List.mem_append]
      tauto

lemma mem_mentioned_withLink {t : TriplePattern} :
    x ∈ (o.withLink t).mentioned ↔ x ∈ t.vars ∨ x ∈ o.mentioned := by
  simp [mem_mentioned, withLink, or_assoc]

lemma mem_mentioned_withRequired {p : Pattern} :
    x ∈ (o.withRequired p).mentioned ↔ x ∈ p.mentioned ∨ x ∈ o.mentioned := by
  simp only [mentioned, withRequired, List.flatMap_append, List.flatMap_singleton, List.mem_append]
  tauto

lemma mem_mentioned_asOptional : x ∈ o.asOptional.mentioned ↔ x ∈ o.mentioned := Iff.rfl

lemma mem_mentioned_foldl_join {parts : List EntryPart} :
    x ∈ (parts.foldl (fun operation part => operation.join part.operation) o).mentioned ↔
      x ∈ o.mentioned ∨ ∃ part ∈ parts, x ∈ part.operation.mentioned := by
  induction parts generalizing o with
  | nil => simp
  | cons part rest ih =>
    simp [ih, mem_mentioned_join, or_assoc]

end

end Exemplar.Operation
