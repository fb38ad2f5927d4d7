import Exemplar.Rdf.Native
import Exemplar.Template.Basic

/-!
# Folding solutions

Solutions are added to a filling one after the other. A placeholder keeps the first term that its
variable is bound to. The members of arrays are kept apart by a term or a position, and each gets
the solutions that bind its own key. A filling that an error leaves behind is not used.
-/

namespace Exemplar

/-- Changes what is kept for a key, which starts as `fresh` when the key is new. -/
def updateAt {κ α ε : Type} [DecidableEq κ] (fresh : α) (change : α → Except ε α) (key : κ) :
    List (κ × α) → Except ε (List (κ × α))
  | [] => (change fresh).map fun a => [(key, a)]
  | (k, a) :: rest =>
    if k = key then (change a).map fun a => (k, a) :: rest
    else (updateAt fresh change key rest).map fun rest => (k, a) :: rest

/-- The value of a placeholder: the one it has, or that of the term of its variable. -/
def fillPlaceholder (v : Variable) (value : Term → Except AnswerError Json) (s : Solution) :
    Option Json → Except AnswerError (Option Json)
  | some present => .ok (some present)
  | none =>
    match s.get? v with
    | none => .ok none
    | some t => (value t).map some

/-- The JSON scalar of a term. -/
def nativeValue (v : Variable) (t : Term) : Except AnswerError Json :=
  match t.native? with
  | some value => .ok value
  | none => .error (.badNativeValue v t)

/-- The compacted name of an IRI. -/
def nameValue (v : Variable) (context : Context) (mode : IriMode) :
    Term → Except AnswerError Json
  | .node (.iri iri) => .ok (.string (context.compact mode iri.text))
  | t => .error (.notNamed v t)

/-- The lexical form of a literal of a datatype. -/
def typedValue (v : Variable) (datatype : Iri) (t : Term) : Except AnswerError Json :=
  match t with
  | .literal l => if l.datatype = datatype then .ok (.string l.lexical)
    else .error (.badNativeValue v t)
  | .node _ => .error (.badNativeValue v t)

/-- The position that an index term stands for, counted from `origin`. -/
def position? (origin : Int) (t : Term) : Option Nat := do
  let index ← (← t.native?).int64?
  -- a difference of more than 63 bits is no position
  let difference := index - origin
  if 0 ≤ difference ∧ difference ≤ 9223372036854775807 then some difference.toNat else none

/-- Adds a solution to the member of its own position. -/
def addIndexed {α : Type} (index : Variable) (origin : Int) (fresh : α)
    (add : α → Except AnswerError α) (s : Solution) (slots : List (Nat × IndexedSlot α)) :
    Except AnswerError (List (Nat × IndexedSlot α)) :=
  match s.get? index with
  | none => .ok slots
  | some t =>
    match position? origin t with
    | none => .error (.badNativeValue index t)
    | some position =>
      updateAt ⟨t, fresh⟩ (fun slot => (add slot.item).map fun item => { slot with item })
        position slots

/-- Adds a solution to the member of its own term. -/
def addMember {α : Type} (v : Variable) (fresh : α) (add : α → Except AnswerError α)
    (s : Solution) (members : List (Term × α)) : Except AnswerError (List (Term × α)) :=
  match s.get? v with
  | none => .ok members
  | some t => updateAt fresh add t members

/-- Adds a solution to a chain: the first head is kept, and the last successor of a slot. -/
def addLinked {α : Type} (list slot rest : Variable) (fresh : α)
    (add : α → Except AnswerError α) (s : Solution) (chain : Chain α) :
    Except AnswerError (Chain α) :=
  let head := chain.head.or (s.get? list)
  match s.get? slot with
  | none => .ok { chain with head }
  | some t =>
    let change (present : LinkedSlot α) :=
      (add present.item).map fun item => ⟨(s.get? rest).or present.rest, item⟩
    (updateAt ⟨none, fresh⟩ change t chain.slots).map fun slots => ⟨head, slots⟩

mutual

/-- Adds a solution to what has been filled in. -/
def Template.add (s : Solution) : (t : Template) → t.Filling → Except AnswerError t.Filling
  | .constant _, f => .ok f
  | .native v, f => fillPlaceholder v (nativeValue v) s f
  | .name v context mode, f => fillPlaceholder v (nameValue v context mode) s f
  | .typed v datatype, f => fillPlaceholder v (typedValue v datatype) s f
  | .object _ entries, f => Template.addEntries s entries f
  | .set v member, f => addMember v member.start (member.add s) s f
  | .indexed index origin member, f =>
    addIndexed index origin member.start (member.add s) s f
  | .linked list slot rest member, f =>
    addLinked list slot rest member.start (member.add s) s f
  | .unwrapped _ inner, f => inner.add s f

def Template.addEntries (s : Solution) : (entries : List (String × Template)) →
    Template.Fillings entries → Except AnswerError (Template.Fillings entries)
  | [], f => .ok f
  | (_, entry) :: rest, (f, fs) => do
    let f ← entry.add s f
    let fs ← Template.addEntries s rest fs
    return (f, fs)

end

def Template.addAll (t : Template) (solutions : List Solution) (f : t.Filling) :
    Except AnswerError t.Filling :=
  solutions.foldlM (fun f s => t.add s f) f

end Exemplar
