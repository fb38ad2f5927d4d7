import Exemplar.Proofs.Outcome
import Exemplar.Template.Result

/-!
# Templates without data

The result of a template that nothing is filled in for. It is incomplete exactly if a placeholder
or the head of a chain stands outside all arrays, and otherwise a document.
-/

namespace Exemplar

/-! ### Entries -/

lemma Entries.lookup_insert (entries : Entries) (key k : String) (value : Json) :
    (entries.insert key value).lookup k = if k = key then some value else entries.lookup k := by
  induction entries with
  | nil => grind [Entries.insert]
  | cons e rest ih => grind [Entries.insert]

namespace Template

mutual

/-- Whether a result needs data: arrays are complete without any, other templates if all their
parts are. -/
def awaitsData : Template → Bool
  | .constant _ => false
  | .native _ => true
  | .name _ _ _ => true
  | .typed _ _ => true
  | .object _ entries => entriesAwaitData entries
  | .set _ _ => false
  | .indexed _ _ _ => false
  | .linked _ _ _ _ => true
  | .unwrapped _ inner => inner.awaitsData

def entriesAwaitData : List (String × Template) → Bool
  | [] => false
  | (_, entry) :: rest => entry.awaitsData || entriesAwaitData rest

end

mutual

/-- Whether everything that is unwrapped is an entry of an object that has it. -/
def Unwraps : Template → Prop
  | .constant _ => True
  | .native _ => True
  | .name _ _ _ => True
  | .typed _ _ => True
  | .object _ entries => EntriesUnwrap entries
  | .set _ member => member.Unwraps
  | .indexed _ _ member => member.Unwraps
  | .linked _ _ _ member => member.Unwraps
  | .unwrapped key inner => inner.Unwraps ∧
    ∃ declaration entries, inner = .object declaration entries ∧ key ∈ entries.map Prod.fst

def EntriesUnwrap : List (String × Template) → Prop
  | [] => True
  | (_, entry) :: rest => entry.Unwraps ∧ EntriesUnwrap rest

end

/-- Whether an outcome is a document, or is incomplete if data is awaited. -/
def Awaits (awaits : Bool) {α : Type} (outcome : Except AnswerError α) : Prop :=
  if awaits then ∃ v, outcome = .error (.incomplete v) else ∃ a, outcome = .ok a

lemma entriesUnwrap_iff {entries : List (String × Template)} :
    EntriesUnwrap entries ↔ ∀ e ∈ entries, e.2.Unwraps := by
  induction entries with
  | nil => simp [EntriesUnwrap]
  | cons e rest ih => simp [EntriesUnwrap, ih]

/-- The result of an object has all its keys. -/
lemma lookup_resultEntries {entries : List (String × Template)} {fs : Template.Fillings entries}
    {before as : Entries} (h : resultEntries entries fs before = .ok as) {key : String}
    (hkey : key ∈ entries.map Prod.fst ∨ (before.lookup key).isSome) :
    (as.lookup key).isSome := by
  induction entries generalizing before with
  | nil =>
    cases h
    simpa using hkey
  | cons e rest ih =>
    obtain ⟨value, _, hrest⟩ := bind_eq_ok.mp h
    refine ih hrest ?_
    rw [Entries.lookup_insert]
    by_cases heq : key = e.1
    · simp [heq]
    · simpa [heq] using hkey

mutual

/-- Without any data, a template has a document unless it awaits data. -/
theorem result_start (t : Template) (h : t.Unwraps) :
    Awaits t.awaitsData (t.result t.start) := by
  match t with
  | .constant value => exact ⟨value, rfl⟩
  | .native v => exact ⟨v, rfl⟩
  | .name v _ _ => exact ⟨v, rfl⟩
  | .typed v _ => exact ⟨v, rfl⟩
  | .object declaration entries =>
    have hentries := resultEntries_start entries h (declarationEntries declaration)
    unfold Awaits at hentries ⊢
    change if entriesAwaitData entries then _ else _
    split
    · next hawaits =>
      rw [if_pos hawaits] at hentries
      obtain ⟨v, hv⟩ := hentries
      exact ⟨v, by simp only [result, start, hv]; rfl⟩
    · next hawaits =>
      rw [if_neg hawaits] at hentries
      obtain ⟨as, has⟩ := hentries
      exact ⟨.object as, by simp only [result, start, has]; rfl⟩
  | .set _ _ => exact ⟨.array [], rfl⟩
  | .indexed _ _ _ => exact ⟨.array [], rfl⟩
  | .linked list _ _ _ => exact ⟨list, rfl⟩
  | .unwrapped key inner =>
    obtain ⟨hinner, declaration, entries, rfl, hkey⟩ := h
    have hobject := result_start _ hinner
    unfold Awaits at hobject ⊢
    change if (Template.object declaration entries).awaitsData then _ else _
    split
    · next hawaits =>
      rw [if_pos hawaits] at hobject
      obtain ⟨v, hv⟩ := hobject
      exact ⟨v, by simp only [result, start] at hv ⊢; rw [hv]; rfl⟩
    · next hawaits =>
      rw [if_neg hawaits] at hobject
      obtain ⟨d, hd⟩ := hobject
      obtain ⟨as, has, rfl⟩ := map_eq_ok.mp hd
      obtain ⟨value, hvalue⟩ :=
        Option.isSome_iff_exists.mp (lookup_resultEntries has (.inl hkey))
      refine ⟨value, bind_eq_ok.mpr ⟨_, hd, ?_⟩⟩
      simp only [unwrap, hvalue]

lemma resultEntries_start (entries : List (String × Template)) (h : EntriesUnwrap entries)
    (before : Entries) :
    Awaits (entriesAwaitData entries) (resultEntries entries (startEntries entries) before) := by
  match entries with
  | [] => exact ⟨before, rfl⟩
  | (key, t) :: rest =>
    have ht := result_start t h.1
    unfold Awaits at ht ⊢
    change if t.awaitsData || entriesAwaitData rest then _ else _
    by_cases hawaits : t.awaitsData
    · rw [if_pos hawaits] at ht
      obtain ⟨v, hv⟩ := ht
      simp only [hawaits, Bool.true_or, if_true]
      exact ⟨v, by simp only [resultEntries, startEntries, hv]; rfl⟩
    · rw [if_neg hawaits] at ht
      obtain ⟨value, hvalue⟩ := ht
      have hrest := resultEntries_start rest h.2 (before.insert key value)
      simp only [resultEntries, startEntries, hvalue, hawaits]
      exact hrest

end

end Template

end Exemplar
