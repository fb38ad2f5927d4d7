import Exemplar.Compilation.NodeObject
import Mathlib.Tactic.Lemma

/-!
# Placeholders

How many placeholders a document has, how many of them a template fills in, and how many it only
repeats. Declarations do not count: what looks like a placeholder there is part of a definition.
-/

namespace Exemplar

namespace Json

mutual

/-- The number of placeholders in a value, other than in declarations. -/
def placeholders : Json → Nat
  | .string text => if text = placeholderText then 1 else 0
  | .array items => itemPlaceholders items
  | .object entries => entryPlaceholders entries
  | _ => 0

def itemPlaceholders : List Json → Nat
  | [] => 0
  | item :: rest => item.placeholders + itemPlaceholders rest

def entryPlaceholders : List (String × Json) → Nat
  | [] => 0
  | (key, value) :: rest =>
    (if key = "@context" then 0 else value.placeholders) + entryPlaceholders rest

end

@[simp] lemma placeholders_string (text : String) :
    (string text).placeholders = if text = placeholderText then 1 else 0 := by
  rw [placeholders]

lemma placeholders_singleton (item : Json) : (array [item]).placeholders = item.placeholders := by
  simp [placeholders, itemPlaceholders]

/-- Declarations do not count. -/
lemma placeholders_ownEntries (entries : Entries) :
    (object (ownEntries entries)).placeholders = (object entries).placeholders := by
  simp only [placeholders]
  induction entries with
  | nil => rfl
  | cons entry rest ih =>
    by_cases hkey : entry.1 = "@context" <;> simp_all [entryPlaceholders, ownEntries]

lemma entryPlaceholders_append (entries rest : Entries) :
    entryPlaceholders (entries ++ rest) = entryPlaceholders entries + entryPlaceholders rest := by
  induction entries with
  | nil => simp [entryPlaceholders]
  | cons entry entries ih => simp [entryPlaceholders, ih, Nat.add_assoc]

end Json

namespace Template

mutual

/-- The number of placeholders that are filled in, each member of an array like the others. -/
def placeholders : Template → Nat
  | .constant _ => 0
  | .native _ => 1
  | .name _ _ _ => 1
  | .typed _ _ => 1
  | .object _ entries => entryPlaceholders entries
  | .set _ member => member.placeholders
  | .indexed _ _ member => member.placeholders
  | .linked _ _ _ member => member.placeholders
  | .unwrapped _ inner => inner.placeholders

def entryPlaceholders : List (String × Template) → Nat
  | [] => 0
  | (_, entry) :: rest => entry.placeholders + entryPlaceholders rest

end

mutual

/-- The number of placeholders that are repeated as constants. -/
def repeated : Template → Nat
  | .constant value => value.placeholders
  | .native _ => 0
  | .name _ _ _ => 0
  | .typed _ _ => 0
  | .object _ entries => entryRepeated entries
  | .set _ member => member.repeated
  | .indexed _ _ member => member.repeated
  | .linked _ _ _ member => member.repeated
  | .unwrapped _ inner => inner.repeated

def entryRepeated : List (String × Template) → Nat
  | [] => 0
  | (key, entry) :: rest => (if key = "@context" then 0 else entry.repeated) + entryRepeated rest

end

lemma entryPlaceholders_append (entries rest : List (String × Template)) :
    entryPlaceholders (entries ++ rest) = entryPlaceholders entries + entryPlaceholders rest := by
  induction entries with
  | nil => simp [entryPlaceholders]
  | cons entry entries ih => simp [entryPlaceholders, ih, Nat.add_assoc]

lemma entryRepeated_append (entries rest : List (String × Template)) :
    entryRepeated (entries ++ rest) = entryRepeated entries + entryRepeated rest := by
  induction entries with
  | nil => simp [entryRepeated]
  | cons entry entries ih => simp [entryRepeated, ih, Nat.add_assoc]

lemma entryRepeated_eq_zero_iff {entries : List (String × Template)}
    (hkeys : ∀ entry ∈ entries, entry.1 ≠ "@context") :
    entryRepeated entries = 0 ↔ ∀ entry ∈ entries, entry.2.repeated = 0 := by
  induction entries with
  | nil => simp [entryRepeated]
  | cons entry rest ih =>
    rw [List.forall_mem_cons] at hkeys
    simp [entryRepeated, hkeys.1, ih hkeys.2]

/-- Entries that are repeated fill in nothing. -/
lemma entryPlaceholders_constant (entries : Entries) :
    entryPlaceholders (entries.map fun entry => (entry.1, .constant entry.2)) = 0 := by
  induction entries with
  | nil => rfl
  | cons entry entries ih => simp [entryPlaceholders, placeholders, ih]

lemma entryRepeated_constant (entries : Entries) :
    entryRepeated (entries.map fun entry => (entry.1, .constant entry.2)) =
      (Json.object entries).placeholders := by
  rw [Json.placeholders]
  induction entries with
  | nil => rfl
  | cons entry entries ih => simp [entryRepeated, repeated, Json.entryPlaceholders, ih]

end Template

end Exemplar
