import Exemplar.Proofs.Algebra.Locality
import Exemplar.Proofs.Algebra.Rounds

/-!
# Bindings that a pattern does not look at

What is bound besides the variables of a pattern takes no part in its evaluation: the same solutions
are found, in the same order and as many times, each with the further bindings.
-/

namespace Exemplar

/-! ### Related steps -/

section

variable {α β γ δ : Type} {R : α → β → Prop} {S : γ → δ → Prop}

lemma rel_bind {x : Option α} {y : Option β} {f : α → Option γ} {f' : β → Option δ}
    (h : Option.Rel R x y) (hf : ∀ {a b}, R a b → Option.Rel S (f a) (f' b)) :
    Option.Rel S (x.bind f) (y.bind f') := by
  cases h with
  | some hab => exact hf hab
  | none => exact .none

lemma forall₂_filterMap {f : α → Option γ} {f' : α → Option δ}
    (h : ∀ a, Option.Rel S (f a) (f' a)) (as : List α) :
    List.Forall₂ S (as.filterMap f) (as.filterMap f') :=
  List.rel_filterMap (R := (· = ·)) (fun a _ heq => heq ▸ h a) (List.forall₂_refl as)

/-- Related lists stay related without their repetitions, if these are told in the same way. -/
lemma forall₂_eraseDupsBy {r : α → α → Bool} {r' : β → β → Bool}
    (hr : ∀ a b a' b', R a b → R a' b' → r a a' = r' b b') {as : List α} {bs : List β}
    (h : List.Forall₂ R as bs) : List.Forall₂ R (as.eraseDupsBy r) (bs.eraseDupsBy r') := by
  have hany : ∀ {a b} {as : List α} {bs : List β}, R a b → List.Forall₂ R as bs →
      as.any (r a) = bs.any (r' b) := by
    intro a b as bs hab h
    induction h with
    | nil => rfl
    | cons hhead _ ih => rw [List.any_cons, List.any_cons, hr _ _ _ _ hab hhead, ih]
  -- what has been kept so far is related too
  have hloop : ∀ {kept : List α} {kept' : List β}, List.Forall₂ R kept kept' →
      List.Forall₂ R (List.eraseDupsBy.loop r as kept) (List.eraseDupsBy.loop r' bs kept') := by
    induction h with
    | nil => exact fun hkept => List.rel_reverse hkept
    | cons hhead _ ih =>
      intro kept kept' hkept
      simp only [List.eraseDupsBy.loop, hany hhead hkept]
      split
      · exact ih hkept
      · exact ih (.cons hhead hkept)
  exact hloop .nil

end

lemma Solution.same_iff {s t : Solution} : s.same t ↔ s.get? = t.get? := by
  refine ⟨Pattern.get?_eq_of_same, fun heq => ?_⟩
  rw [same, List.all_eq_true]
  exact fun v _ => beq_iff_eq.mpr (congrFun heq v)

/-- Whether a solution is another one with further bindings, of variables that this one leaves
free. -/
structure Framed (ν : Assignment) (s t : Solution) : Prop where
  get?_eq : t.get? = Assignment.or s.get? ν
  free (v : Variable) : ν v ≠ none → s.get? v = none

namespace Framed

variable {g : Graph} {ν : Assignment} {s t s' t' : Solution}

lemma get?_of_none (h : Framed ν s t) {v : Variable} (hv : ν v = none) : t.get? v = s.get? v := by
  rw [h.get?_eq, Assignment.or_apply, hv, Option.or_none]

lemma resolve?_eq (h : Framed ν s t) {p : PatternTerm} (hν : ∀ v ∈ p.vars, ν v = none) :
    t.resolve? p = s.resolve? p :=
  Solution.resolve?_congr fun v hv => h.get?_of_none (hν v hv)

/-- Further bindings make no solutions different, and none the same. -/
lemma same_eq (h : Framed ν s t) (h' : Framed ν s' t') : s.same s' = t.same t' := by
  rw [Bool.eq_iff_iff, Solution.same_iff, Solution.same_iff]
  constructor
  · intro heq
    rw [h.get?_eq, h'.get?_eq, heq]
  · intro heq
    funext v
    by_cases hv : ν v = none
    · rw [← h.get?_of_none hv, ← h'.get?_of_none hv, heq]
    · rw [h.free v hv, h'.free v hv]

/-! ### Bindings -/

lemma cons (h : Framed ν s t) {v : Variable} (hv : ν v = none) (u : Term) :
    Framed ν ((v, u) :: s) ((v, u) :: t) := by
  refine ⟨funext fun w => ?_, fun w hw => ?_⟩
  · rw [Assignment.or_apply, Solution.get?_cons, Solution.get?_cons, h.get?_eq]
    split <;> rfl
  · have hne : w ≠ v := fun heq => hw (heq ▸ hv)
    rw [Solution.get?_cons, if_neg hne]
    exact h.free w hw

lemma rel_bind? (h : Framed ν s t) {v : Variable} (hv : ν v = none) (u : Term) :
    Option.Rel (Framed ν) (s.bind? v u) (t.bind? v u) := by
  simp only [Solution.bind?, h.get?_of_none hv]
  split
  · exact .some (h.cons hv u)
  · split
    · exact .some h
    · exact .none

lemma rel_unify? (h : Framed ν s t) {p : PatternTerm} (hν : ∀ v ∈ p.vars, ν v = none)
    (u : Term) : Option.Rel (Framed ν) (s.unify? p u) (t.unify? p u) := by
  match p with
  | .variable v => exact h.rel_bind? (hν v List.mem_cons_self) u
  | .constant c =>
    simp only [Solution.unify?]
    split
    · exact .some h
    · exact .none

lemma rel_bindRow? (h : Framed ν s t) {header : List Variable} (hν : ∀ v ∈ header, ν v = none)
    (row : List (Option Term)) :
    Option.Rel (Framed ν) (s.bindRow? header row) (t.bindRow? header row) := by
  induction header generalizing s t row with
  | nil => cases row <;> exact .some h
  | cons v header ih =>
    rw [List.forall_mem_cons] at hν
    match row with
    | [] => exact .some h
    | none :: row => exact ih h hν.2 row
    | some u :: row => exact rel_bind (h.rel_bind? hν.1 u) fun h' => ih h' hν.2 row

/-- What a projection adds does not come from the further bindings, as these are there already. -/
lemma extend (h : Framed ν s t) (h' : Framed ν s' t') (vs : List Variable) :
    Framed ν (s.extend vs s') (t.extend vs t') := by
  refine ⟨funext fun v => ?_, fun v hv => ?_⟩
  · rw [Assignment.or_apply, Pattern.get?_extend, Pattern.get?_extend]
    cases hv : ν v with
    | none => rw [h.get?_of_none hv, h'.get?_of_none hv, Option.or_none]
    | some u =>
      have hbound : ν v ≠ none := by simp [hv]
      rw [h.get?_eq, Assignment.or_apply, h.free v hbound, h'.free v hbound, hv]
      simp
  · rw [Pattern.get?_extend, h.free v hv, h'.free v hv]
    simp

/-! ### What is found -/

lemma forall₂_solutions (h : Framed ν s t) {p : TriplePattern} (hν : ∀ v ∈ p.vars, ν v = none) :
    List.Forall₂ (Framed ν) (p.solutions g s) (p.solutions g t) := by
  have hcandidates : p.candidates g t = p.candidates g s :=
    TriplePattern.candidates_congr fun v hv => h.get?_of_none (hν v hv)
  rw [TriplePattern.vars, List.forall_mem_append, List.forall_mem_append] at hν
  obtain ⟨⟨hsubject, hpredicate⟩, hobject⟩ := hν
  rw [TriplePattern.solutions, TriplePattern.solutions, hcandidates]
  refine forall₂_filterMap (fun u => ?_) _
  refine rel_bind (h.rel_unify? hsubject _) fun h₁ => ?_
  exact rel_bind (h₁.rel_unify? hpredicate _) fun h₂ => h₂.rel_unify? hobject _

lemma forall₂_matchTriples (h : Framed ν s t) {triples : List TriplePattern}
    (hν : ∀ v ∈ triples.flatMap TriplePattern.vars, ν v = none) :
    List.Forall₂ (Framed ν) (matchTriples g triples s) (matchTriples g triples t) := by
  induction triples generalizing s t with
  | nil => exact .cons h .nil
  | cons p rest ih =>
    rw [List.flatMap_cons, List.forall_mem_append] at hν
    rw [matchTriples_cons, matchTriples_cons]
    exact List.rel_flatMap (h.forall₂_solutions hν.1) fun _ _ h' => ih h' hν.2

lemma forall₂_pathSolutions (h : Framed ν s t) (p : Path) {subject object : PatternTerm}
    (hν : ∀ v ∈ subject.vars ++ object.vars, ν v = none) :
    List.Forall₂ (Framed ν) (p.solutions g subject object s) (p.solutions g subject object t) := by
  rw [List.forall_mem_append] at hν
  rw [Path.solutions, Path.solutions, h.resolve?_eq hν.1, h.resolve?_eq hν.2]
  refine forall₂_filterMap (fun ends => ?_) _
  exact rel_bind (h.rel_unify? hν.1 ends.1) fun h' => h'.rel_unify? hν.2 ends.2

lemma forall₂_keepUnmatched (h : Framed ν s t) {found found' : List Solution}
    (hfound : List.Forall₂ (Framed ν) found found') :
    List.Forall₂ (Framed ν) (keepUnmatched s found) (keepUnmatched t found') := by
  cases hfound with
  | nil => exact .cons h .nil
  | cons hhead hrest => exact .cons hhead hrest

end Framed

/-! ### Evaluation -/

/-- Whether a search that succeeds also does so with further bindings, and finds the same with
these. -/
def FramedResults (ν : Assignment) (x y : Except EvaluationError (List Solution)) : Prop :=
  ∀ found, x = .ok found → ∃ found', y = .ok found' ∧ List.Forall₂ (Framed ν) found found'

namespace FramedResults

variable {g : Graph} {ν : Assignment} {x y : Except EvaluationError (List Solution)}

lemma ok {found found' : List Solution} (h : List.Forall₂ (Framed ν) found found') :
    FramedResults ν (.ok found) (.ok found') := by
  rintro _ ⟨⟩
  exact ⟨found', rfl, h⟩

lemma error {e : EvaluationError} : FramedResults ν (.error e) y := by
  intro found hfound
  cases hfound

lemma bind {f f' : List Solution → Except EvaluationError (List Solution)}
    (h : FramedResults ν x y) (hf : ∀ {found found'}, List.Forall₂ (Framed ν) found found' →
      FramedResults ν (f found) (f' found')) : FramedResults ν (x >>= f) (y >>= f') := by
  intro found hfound
  obtain ⟨first, hfirst, hnext⟩ := bind_eq_ok.mp hfound
  obtain ⟨first', hfirst', hframed⟩ := h first hfirst
  obtain ⟨found', hfound', hall⟩ := hf hframed found hnext
  exact ⟨found', bind_eq_ok.mpr ⟨first', hfirst', hfound'⟩, hall⟩

lemma keepUnmatched {s t : Solution} (hst : Framed ν s t) (h : FramedResults ν x y) :
    FramedResults ν (x.map (keepUnmatched s)) (y.map (keepUnmatched t)) := by
  intro found hfound
  obtain ⟨first, hfirst, rfl⟩ := map_eq_ok.mp hfound
  obtain ⟨first', hfirst', hframed⟩ := h first hfirst
  exact ⟨_, map_eq_ok.mpr ⟨first', hfirst', rfl⟩, hst.forall₂_keepUnmatched hframed⟩

lemma extendAll {next : Solution → Except EvaluationError (List Solution)}
    (hnext : ∀ {s t}, Framed ν s t → FramedResults ν (next s) (next t))
    {left left' : List Solution} (h : List.Forall₂ (Framed ν) left left') :
    FramedResults ν (extendAll next left) (extendAll next left') := by
  intro found hfound
  obtain ⟨parts, hparts, rfl⟩ := map_eq_ok.mp hfound
  have hrows : ∃ parts', left'.mapM next = .ok parts' ∧
      List.Forall₂ (List.Forall₂ (Framed ν)) parts parts' := by
    clear hfound
    rw [mapM_eq_ok] at hparts
    simp only [mapM_eq_ok]
    induction h generalizing parts with
    | nil =>
      cases hparts
      exact ⟨[], .nil, .nil⟩
    | cons hhead _ ih =>
      cases hparts with
      | cons hpart hrest =>
        obtain ⟨part', hpart', hframed⟩ := hnext hhead _ hpart
        obtain ⟨parts', hparts', hall⟩ := ih _ hrest
        exact ⟨part' :: parts', .cons hpart' hparts', .cons hframed hall⟩
  obtain ⟨parts', hparts', hframed⟩ := hrows
  exact ⟨parts'.flatten, map_eq_ok.mpr ⟨parts', hparts', rfl⟩, List.rel_flatten hframed⟩

end FramedResults

/-- Bindings of variables that a pattern does not mention are carried through its evaluation. -/
theorem Framed.results_evaluate {g : Graph} {ν : Assignment} {p : Pattern}
    (hν : ∀ v ∈ p.mentioned, ν v = none) {s t : Solution} (h : Framed ν s t) :
    FramedResults ν (p.evaluate g s) (p.evaluate g t) := by
  -- the right side of a join starts from what the left side finds, and not from s and t
  induction p generalizing s t with
  | bgp triples => exact .ok (h.forall₂_matchTriples hν)
  | path subject p object => exact .ok (h.forall₂_pathSolutions p hν)
  | join left right ihl ihr =>
    rw [Pattern.mentioned, List.forall_mem_append] at hν
    exact (ihl hν.1 h).bind fun hleft => .extendAll (ihr hν.2) hleft
  | leftJoin left right condition ihl ihr =>
    rw [Pattern.mentioned, List.forall_mem_append] at hν
    cases condition with
    | some c => exact .error
    | none =>
      exact (ihl hν.1 h).bind fun hleft =>
        .extendAll (fun h' => .keepUnmatched h' (ihr hν.2 h')) hleft
  | values header rows => exact .ok (forall₂_filterMap (h.rel_bindRow? hν) rows)
  | project inner header ih =>
    refine (ih hν h).bind fun hinner => .ok ?_
    exact List.rel_map (R := Framed ν) (fun _ _ h' => h.extend h' header) hinner
  | distinct inner ih =>
    exact (ih hν h).bind fun hinner =>
      .ok (forall₂_eraseDupsBy (fun _ _ _ _ h h' => h.same_eq h') hinner)
  | union | minus | filter | slice | reduced => exact .error

namespace Pattern

/-- Evaluation succeeds, extends the solution that it is given and binds no other variables than
those that the pattern mentions. It looks at no others either: with bindings of other variables
added, it finds the same solutions in the same order and as many times, each with these bindings
added. The variables that a projection only lists do not count as mentioned. -/
theorem evaluate_framed {p : Pattern} (hp : p.isSupported) (g : Graph) (s : Solution) :
    ∃ found, p.evaluate g s = .ok found ∧ (∀ s' ∈ found, ExtendsBy p.mentioned s s') ∧
      ∀ other both : Solution, (∀ v ∈ other.domain, v ∉ s.domain ∧ v ∉ p.mentioned) →
        both.get? = Assignment.or s.get? other.get? →
          ∃ found', p.evaluate g both = .ok found' ∧
            found'.map Solution.get? =
              found.map fun s' => Assignment.or s'.get? other.get? := by
  obtain ⟨found, hfound⟩ := exists_evaluate hp g s
  refine ⟨found, hfound, fun s' hs' => ((mem_evaluate_iff hfound s').mp hs').extendsBy, ?_⟩
  intro other both hother hboth
  have hapart : ∀ v, other.get? v ≠ none → v ∉ s.domain ∧ v ∉ p.mentioned :=
    fun v hv => hother v (Solution.mem_domain hv)
  have hframed : Framed other.get? s both :=
    ⟨hboth, fun v hv => by_contra fun hs => (hapart v hv).1 (Solution.mem_domain hs)⟩
  have hfree : ∀ v ∈ p.mentioned, other.get? v = none :=
    fun v hv => by_contra fun hsome => (hapart v hsome).2 hv
  obtain ⟨found', hfound', hall⟩ := hframed.results_evaluate hfree found hfound
  refine ⟨found', hfound', ?_⟩
  rw [← List.forall₂_eq_eq_eq, List.forall₂_map_left_iff, List.forall₂_map_right_iff]
  exact hall.flip.imp fun _ _ h => h.get?_eq

/-- The nodes around a ring and their names, from a table whose rows are not all as long as its
header. Several rows and all nodes without a name lead to the same. -/
def namesAround : Pattern :=
  .distinct (.project
    (.leftJoin
      (.join
        (.values [⟨"x"⟩, ⟨"y"⟩] [[], [some (.iri ⟨"ex:a"⟩)], [some (.iri ⟨"ex:b"⟩)],
          [none, none, some (.iri ⟨"ex:d"⟩)]])
        (.path (.variable ⟨"x"⟩) (.oneOrMore (.link ⟨"ex:next"⟩)) (.variable ⟨"y"⟩)))
      (.bgp [⟨.variable ⟨"y"⟩, .constant (.iri ⟨"ex:name"⟩), .variable ⟨"name"⟩⟩]) none)
    [⟨"x"⟩, ⟨"name"⟩])

/-- From one node of the ring a name is found, and nodes without one. A note that is bound besides
is kept with both solutions. -/
theorem evaluate_framed_ring :
    let a : Variable × Term := (⟨"x"⟩, .iri ⟨"ex:a"⟩)
    let note : Variable × Term := (⟨"note"⟩, .literal (.simple "N"))
    ∃ found, namesAround.evaluate Path.ring [a] = .ok found ∧
      (found.map fun s => s.get? ⟨"name"⟩) = [some (.literal (.simple "B")), none] ∧
      (∀ s ∈ found, ExtendsBy namesAround.mentioned [a] s) ∧
      ∃ found', namesAround.evaluate Path.ring [a, note] = .ok found' ∧
        found'.map Solution.get? =
          found.map fun s => Assignment.or s.get? (Solution.get? [note]) := by
  intro a note
  obtain ⟨found, hfound, hextends, hframed⟩ :=
    evaluate_framed (p := namesAround) rfl Path.ring [a]
  refine ⟨found, hfound, ?_, hextends, hframed [note] [a, note] (by decide) ?_⟩
  · cases hfound
    decide
  · exact funext (Solution.get?_append [a] [note])

end Pattern

end Exemplar
