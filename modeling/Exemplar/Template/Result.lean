import Exemplar.Template.Basic

/-!
# Results

The document of a filling. It is incomplete as long as a placeholder is empty; an array without
members is complete.
-/

namespace Exemplar

def placeholderResult (v : Variable) : Option Json → Except AnswerError Json
  | some value => .ok value
  | none => .error (.incomplete v)

/-! ### Indexed lists -/

/-- The number of positions without a solution that an indexed list may have. -/
def maxMissing : Nat := 1024

/-- The last position of an indexed list. -/
def lastPosition? {α : Type} : List (Nat × IndexedSlot α) → Option (Nat × IndexedSlot α)
  | [] => none
  | slot :: rest =>
    match lastPosition? rest with
    | none => some slot
    | some other => some (if slot.1 < other.1 then other else slot)

/-- The array of an indexed list, with empty objects at the positions that are missing. -/
def indexedResult {α : Type} (result : α → Except AnswerError Json) (index : Variable)
    (slots : List (Nat × IndexedSlot α)) : Except AnswerError Json :=
  match lastPosition? slots with
  | none => .ok (.array [])
  | some (last, slot) =>
    -- positions count from zero, so the last one tells how many there are
    if maxMissing < last + 1 - slots.length then .error (.badNativeValue index slot.index)
    else
      ((List.range (last + 1)).mapM fun position =>
        match slots.lookup position with
        | some slot => result slot.item
        | none => .ok (.object [])).map .array

/-! ### Linked lists -/

/-- Follows a chain to the empty list. A chain that visits more slots than there are is cyclic. -/
def walkChain {α : Type} (result : α → Except AnswerError Json)
    (slots : List (Term × LinkedSlot α)) : Nat → Term → Except AnswerError (List Json)
  | unvisited, current =>
    if current = .iri Iri.rdfNil then .ok []
    else
      match current, slots.lookup current, unvisited with
      | .literal _, _, _ => .error (.badName current)
      | .node _, some slot, unvisited + 1 => do
        let item ← result slot.item -- a missing successor is noticed after the item
        match slot.rest with
        | none => throw (.brokenChain current)
        | some next => return item :: (← walkChain result slots unvisited next)
      | .node _, _, _ => .error (.brokenChain current)

def linkedResult {α : Type} (result : α → Except AnswerError Json) (list : Variable)
    (chain : Chain α) : Except AnswerError Json :=
  match chain.head with
  | none => .error (.incomplete list)
  | some head => (walkChain result chain.slots chain.slots.length head).map .array

/-! ### Documents -/

/-- The entry of an object. -/
def unwrap (key : String) : Json → Except AnswerError Json
  | .object entries =>
    match entries.lookup key with
    | some value => .ok value
    | none => .error (.badUnwrap key)
  | _ => .error (.badUnwrap key)

/-- The entries of an object before its own: the declaration that is repeated. -/
def declarationEntries : Option Json → Entries
  | none => []
  | some declaration => [("@context", declaration)]

mutual

/-- The document of a filling. -/
def Template.result : (t : Template) → t.Filling → Except AnswerError Json
  | .constant value, _ => .ok value
  | .native v, f => placeholderResult v f
  | .name v _ _, f => placeholderResult v f
  | .typed v _, f => placeholderResult v f
  | .object declaration entries, f =>
    (Template.resultEntries entries f (declarationEntries declaration)).map .object
  | .set _ member, f =>
    (List.mapM (fun entry => member.result entry.2) f).map .array
  | .indexed index _ member, f => indexedResult member.result index f
  | .linked list _ _ member, f => linkedResult member.result list f
  | .unwrapped key inner, f => do unwrap key (← inner.result f)

/-- The entries of an object, behind those that are there already. -/
def Template.resultEntries : (entries : List (String × Template)) →
    Template.Fillings entries → Entries → Except AnswerError Entries
  | [], _, before => .ok before
  | (key, entry) :: rest, (f, fs), before => do
    let value ← entry.result f
    Template.resultEntries rest fs (before.insert key value)

end

end Exemplar
