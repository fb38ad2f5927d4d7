import Exemplar.Json.Basic
import Mathlib.Tactic.Lemma

/-!
# Keys of objects

Documents whose objects do not repeat a key, as the objects of JSON do not.
-/

namespace Exemplar.Json

mutual

/-- Whether no object of a document repeats a key. -/
def KeysDistinct : Json → Prop
  | .array items => ItemsKeysDistinct items
  | .object entries => (entries.map Prod.fst).Nodup ∧ EntriesKeysDistinct entries
  | _ => True

def ItemsKeysDistinct : List Json → Prop
  | [] => True
  | item :: rest => item.KeysDistinct ∧ ItemsKeysDistinct rest

def EntriesKeysDistinct : List (String × Json) → Prop
  | [] => True
  | (_, value) :: rest => value.KeysDistinct ∧ EntriesKeysDistinct rest

end

lemma keysDistinct_array {items : List Json} :
    (Json.array items).KeysDistinct ↔ ∀ item ∈ items, item.KeysDistinct := by
  rw [KeysDistinct]
  induction items with
  | nil => simp [ItemsKeysDistinct]
  | cons item rest ih => simp [ItemsKeysDistinct, ih]

lemma keysDistinct_object {entries : Entries} :
    (Json.object entries).KeysDistinct ↔
      (entries.map Prod.fst).Nodup ∧ ∀ e ∈ entries, e.2.KeysDistinct := by
  have hvalues : EntriesKeysDistinct entries ↔ ∀ e ∈ entries, e.2.KeysDistinct := by
    induction entries with
    | nil => simp [EntriesKeysDistinct]
    | cons e rest ih => simp [EntriesKeysDistinct, ih]
  rw [KeysDistinct, hvalues]

end Exemplar.Json
