import Exemplar.Algebra.Pattern

/-!
# Solutions

A solution is a partial mapping from variables to terms.
-/

namespace Exemplar

/-- The variables that are bound, with their terms. -/
abbrev Solution := List (Variable × Term)

namespace Solution

def get? (s : Solution) (v : Variable) : Option Term := s.lookup v

def domain (s : Solution) : List Variable := s.map Prod.fst

/-- The solution in which a variable has a term, unless it has another one. -/
def bind? (s : Solution) (v : Variable) (t : Term) : Option Solution :=
  match s.get? v with
  | none => some ((v, t) :: s)
  | some bound => if bound = t then some s else none

/-- The solution in which a position of a pattern denotes a term. -/
def unify? (s : Solution) (p : PatternTerm) (t : Term) : Option Solution :=
  match p with
  | .variable v => s.bind? v t
  | .constant c => if c = t then some s else none

/-- The term of a position, if it is fixed or bound. -/
def resolve? (s : Solution) : PatternTerm → Option Term
  | .variable v => s.get? v
  | .constant t => some t

/-- Whether two solutions bind the same variables to the same terms. -/
def same (a b : Solution) : Bool :=
  (a.domain ++ b.domain).all fun v => a.get? v == b.get? v

/-- The solution with the bindings of `other` for those of some variables that it does not bind. -/
def extend (s : Solution) (vs : List Variable) (other : Solution) : Solution :=
  s ++ other.filter fun (v, _) => v ∈ vs ∧ s.get? v = none

/-- The solution in which the variables have the terms of a table row. Undefined cells agree with
every term. -/
def bindRow? : Solution → List Variable → List (Option Term) → Option Solution
  | s, v :: vs, some t :: row => (s.bind? v t).bind fun s => bindRow? s vs row
  | s, _ :: vs, none :: row => bindRow? s vs row
  | s, _, _ => some s

theorem get?_bind?_self {s s' : Solution} {v : Variable} {t : Term} (h : s.bind? v t = some s') :
    s'.get? v = some t := by
  unfold bind? at h
  split at h
  · cases h; simp [get?]
  · next bound hb =>
    split at h
    · next heq => cases h; rw [hb, heq]
    · cases h

theorem get?_bind?_of_some {s s' : Solution} {v w : Variable} {t u : Term}
    (h : s.bind? v t = some s') (hw : s.get? w = some u) : s'.get? w = some u := by
  unfold bind? at h
  split at h
  · next hnone =>
    cases h
    have hwv : w ≠ v := fun e => by rw [e, hnone] at hw; cases hw
    have hne : (w == v) = false := by simpa using hwv
    simpa [get?, List.lookup_cons, hne] using hw
  · split at h
    · cases h; exact hw
    · cases h

end Solution

end Exemplar
