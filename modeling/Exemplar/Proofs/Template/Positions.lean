import Exemplar.Template.Basic
import Mathlib.Tactic.Lemma

/-!
# Positions in templates

The part of a template at a position, and the variables that a part takes from solutions by itself.
What a template consumes is what its parts take, at any depth.
-/

namespace Exemplar.Template

/-- A step from a template to one of its parts. -/
inductive Step
  | entry (index : Nat)
  /-- To the template of the members of a set. -/
  | member
  /-- To the template of the items of a list. -/
  | item
  /-- To the object that an entry is unwrapped from. -/
  | inner
  deriving DecidableEq

/-- The part at a position. -/
@[simp] def at? : Template → List Step → Option Template
  | t, [] => some t
  | .object _ entries, .entry i :: rest => (entries[i]?).bind fun entry => entry.2.at? rest
  | .set _ member, .member :: rest => member.at? rest
  | .indexed _ _ member, .item :: rest => member.at? rest
  | .linked _ _ _ member, .item :: rest => member.at? rest
  | .unwrapped _ inner, .inner :: rest => inner.at? rest
  | _, _ :: _ => none

/-- The variables that a template takes from solutions, apart from those of its parts. -/
def ownVariables : Template → List Variable
  | .constant _ => []
  | .native v => [v]
  | .name v _ _ => [v]
  | .typed v _ => [v]
  | .object _ _ => []
  | .set v _ => [v]
  | .indexed index _ _ => [index]
  | .linked list slot rest _ => [list, slot, rest]
  | .unwrapped _ _ => []

/-- Whether a variable is taken from solutions by some part of a template. -/
def Consumes (t : Template) (x : Variable) : Prop :=
  ∃ position part, t.at? position = some part ∧ x ∈ part.ownVariables

section

variable {position : List Step} {part : Template} {x : Variable}

lemma at?_nil (t : Template) : t.at? [] = some t := by
  cases t <;> rfl

/-! ### Steps into a template -/

lemma at?_constant {value : Json} :
    (constant value).at? position = some part ↔ position = [] ∧ part = constant value := by
  cases position <;> simp [eq_comm]

lemma at?_native {v : Variable} :
    (native v).at? position = some part ↔ position = [] ∧ part = native v := by
  cases position <;> simp [eq_comm]

lemma at?_name {v : Variable} {context : Context} {mode : IriMode} :
    (name v context mode).at? position = some part ↔
      position = [] ∧ part = name v context mode := by
  cases position <;> simp [eq_comm]

lemma at?_typed {v : Variable} {datatype : Iri} :
    (typed v datatype).at? position = some part ↔ position = [] ∧ part = typed v datatype := by
  cases position <;> simp [eq_comm]

lemma at?_object {declaration : Option Json} {entries : List (String × Template)} :
    (object declaration entries).at? position = some part ↔
      (position = [] ∧ part = object declaration entries) ∨
      ∃ i rest entry, position = .entry i :: rest ∧ entries[i]? = some entry ∧
        entry.2.at? rest = some part := by
  rcases position with - | ⟨step, rest⟩
  · rw [at?_nil, Option.some.injEq]
    constructor
    · exact fun h => .inl ⟨rfl, h.symm⟩
    · rintro (⟨-, rfl⟩ | ⟨_, _, _, heq, -⟩)
      · rfl
      · cases heq
  · cases step with
    | entry i =>
      rw [at?, Option.bind_eq_some_iff]
      constructor
      · rintro ⟨entry, hentry, hpart⟩
        exact .inr ⟨i, rest, entry, rfl, hentry, hpart⟩
      · rintro (⟨heq, -⟩ | ⟨_, _, entry, heq, hentry, hpart⟩)
        · cases heq
        · cases heq
          exact ⟨entry, hentry, hpart⟩
    | member | item | inner => simp

lemma at?_set {v : Variable} {member : Template} :
    (set v member).at? position = some part ↔
      (position = [] ∧ part = set v member) ∨
      ∃ rest, position = .member :: rest ∧ member.at? rest = some part := by
  rcases position with - | ⟨step, rest⟩
  · simp [eq_comm]
  · cases step <;> simp

lemma at?_indexed {index : Variable} {origin : Int} {member : Template} :
    (indexed index origin member).at? position = some part ↔
      (position = [] ∧ part = indexed index origin member) ∨
      ∃ rest, position = .item :: rest ∧ member.at? rest = some part := by
  rcases position with - | ⟨step, rest⟩
  · simp [eq_comm]
  · cases step <;> simp

lemma at?_linked {list slot next : Variable} {member : Template} :
    (linked list slot next member).at? position = some part ↔
      (position = [] ∧ part = linked list slot next member) ∨
      ∃ rest, position = .item :: rest ∧ member.at? rest = some part := by
  rcases position with - | ⟨step, rest⟩
  · simp [eq_comm]
  · cases step <;> simp

lemma at?_unwrapped {key : String} {inner : Template} :
    (unwrapped key inner).at? position = some part ↔
      (position = [] ∧ part = unwrapped key inner) ∨
      ∃ rest, position = .inner :: rest ∧ inner.at? rest = some part := by
  rcases position with - | ⟨step, rest⟩
  · simp [eq_comm]
  · cases step <;> simp

/-! ### Consumed variables -/

/-- Placeholders and constants only consume what they take themselves. -/
lemma consumes_leaf {t : Template}
    (ht : ∀ position part, t.at? position = some part ↔ position = [] ∧ part = t) :
    t.Consumes x ↔ x ∈ t.ownVariables := by
  constructor
  · rintro ⟨position, part, hpart, hx⟩
    rwa [((ht _ _).mp hpart).2] at hx
  · exact fun hx => ⟨[], t, at?_nil t, hx⟩

@[simp] lemma consumes_constant {value : Json} : ¬ (constant value).Consumes x := by
  rw [consumes_leaf fun _ _ => at?_constant]
  exact List.not_mem_nil

@[simp] lemma consumes_native {v : Variable} : (native v).Consumes x ↔ x = v := by
  rw [consumes_leaf fun _ _ => at?_native]
  exact List.mem_singleton

@[simp] lemma consumes_name {v : Variable} {context : Context} {mode : IriMode} :
    (name v context mode).Consumes x ↔ x = v := by
  rw [consumes_leaf fun _ _ => at?_name]
  exact List.mem_singleton

@[simp] lemma consumes_typed {v : Variable} {datatype : Iri} :
    (typed v datatype).Consumes x ↔ x = v := by
  rw [consumes_leaf fun _ _ => at?_typed]
  exact List.mem_singleton

/-- An object consumes what its entries consume. -/
lemma consumes_object {declaration : Option Json} {entries : List (String × Template)} :
    (object declaration entries).Consumes x ↔ ∃ entry ∈ entries, entry.2.Consumes x := by
  constructor
  · rintro ⟨position, part, hpart, hx⟩
    rcases at?_object.mp hpart with ⟨-, rfl⟩ | ⟨i, rest, entry, -, hentry, hpart⟩
    · cases hx
    · exact ⟨entry, List.mem_of_getElem? hentry, rest, part, hpart, hx⟩
  · rintro ⟨entry, hmem, rest, part, hpart, hx⟩
    obtain ⟨i, hentry⟩ := List.mem_iff_getElem?.mp hmem
    exact ⟨.entry i :: rest, part, at?_object.mpr (.inr ⟨i, rest, entry, rfl, hentry, hpart⟩), hx⟩

/-- What has one part consumes what it takes itself and what the part consumes. -/
lemma consumes_of_step {t inner : Template} {step : Step}
    (ht : ∀ position part, t.at? position = some part ↔ (position = [] ∧ part = t) ∨
      ∃ rest, position = step :: rest ∧ inner.at? rest = some part) :
    t.Consumes x ↔ x ∈ t.ownVariables ∨ inner.Consumes x := by
  constructor
  · rintro ⟨position, part, hpart, hx⟩
    rcases (ht _ _).mp hpart with ⟨-, rfl⟩ | ⟨rest, -, hpart⟩
    · exact .inl hx
    · exact .inr ⟨rest, part, hpart, hx⟩
  · rintro (hx | ⟨rest, part, hpart, hx⟩)
    · exact ⟨[], t, at?_nil t, hx⟩
    · exact ⟨step :: rest, part, (ht _ _).mpr (.inr ⟨rest, rfl, hpart⟩), hx⟩

lemma consumes_set {v : Variable} {member : Template} :
    (set v member).Consumes x ↔ x = v ∨ member.Consumes x := by
  rw [consumes_of_step fun _ _ => at?_set]
  simp [ownVariables]

lemma consumes_indexed {index : Variable} {origin : Int} {member : Template} :
    (indexed index origin member).Consumes x ↔ x = index ∨ member.Consumes x := by
  rw [consumes_of_step fun _ _ => at?_indexed]
  simp [ownVariables]

lemma consumes_linked {list slot next : Variable} {member : Template} :
    (linked list slot next member).Consumes x ↔
      (x = list ∨ x = slot ∨ x = next) ∨ member.Consumes x := by
  rw [consumes_of_step fun _ _ => at?_linked]
  simp [ownVariables]

lemma consumes_unwrapped {key : String} {inner : Template} :
    (unwrapped key inner).Consumes x ↔ inner.Consumes x := by
  rw [consumes_of_step fun _ _ => at?_unwrapped]
  simp [ownVariables]

end

end Exemplar.Template
