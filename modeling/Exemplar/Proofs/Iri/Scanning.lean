import Exemplar.Iri.Basic
import Exemplar.Proofs.Outcome

/-!
# Runs of characters

How a text is scanned up to the first character that ends a part of an IRI. Nothing is lost, and the
run stays the same when more text follows that cannot belong to it.
-/

namespace Exemplar

namespace Iri

/-- How a text splits into a run of allowed characters and what is left. -/
inductive Scans (allowed stop : Char → Bool) : List Char → List Char → List Char → Prop
  | done : Scans allowed stop [] [] []
  | stop {c : Char} {rest : List Char} : stop c → Scans allowed stop (c :: rest) [] (c :: rest)
  | percent {a b : Char} {text run rest : List Char} : ¬ stop '%' → isHexDigit a → isHexDigit b →
      Scans allowed stop text run rest →
      Scans allowed stop ('%' :: a :: b :: text) ('%' :: a :: b :: run) rest
  | char {c : Char} {text run rest : List Char} : ¬ stop c → c ≠ '%' → allowed c →
      Scans allowed stop text run rest → Scans allowed stop (c :: text) (c :: run) rest

section

variable {allowed stop : Char → Bool} {text run rest s : List Char}

lemma scans_of_scan (h : scan allowed stop text = .ok (run, rest)) :
    Scans allowed stop text run rest := by
  fun_induction scan allowed stop text generalizing run rest with
  | case1 =>
    cases h
    exact .done
  | case2 c text hstop =>
    cases h
    exact .stop hstop
  | case3 a b text hhex hstop ih =>
    obtain ⟨⟨run', rest'⟩, hrest, heq⟩ := map_eq_ok.mp h
    cases heq
    rw [Bool.and_eq_true] at hhex
    exact .percent hstop hhex.1 hhex.2 (ih hrest)
  | case4 => cases h
  | case5 => cases h
  | case6 c text hstop hpercent hallowed ih =>
    obtain ⟨⟨run', rest'⟩, hrest, heq⟩ := map_eq_ok.mp h
    cases heq
    exact .char hstop hpercent hallowed (ih hrest)
  | case7 => cases h

lemma Scans.scan_eq (h : Scans allowed stop text run rest) :
    scan allowed stop text = .ok (run, rest) := by
  induction h with
  | done => rfl
  | stop hstop =>
    rw [scan.eq_def]
    exact if_pos hstop
  | percent hstop ha hb _ ih =>
    rw [scan.eq_def]
    simp [hstop, ha, hb, ih, Except.map]
  | char hstop hpercent hallowed _ ih =>
    rw [scan.eq_def]
    simp [hstop, hpercent, hallowed, ih, Except.map]

/-- What is scanned is a run of allowed characters up to the first one that ends it. -/
lemma scan_eq_ok_iff :
    scan allowed stop text = .ok (run, rest) ↔ Scans allowed stop text run rest :=
  ⟨scans_of_scan, Scans.scan_eq⟩

lemma Scans.unique {run' rest' : List Char} (h : Scans allowed stop text run rest)
    (h' : Scans allowed stop text run' rest') : run = run' ∧ rest = rest' := by
  cases h.scan_eq.symm.trans h'.scan_eq
  exact ⟨rfl, rfl⟩

lemma Scans.append_eq (h : Scans allowed stop text run rest) : run ++ rest = text := by
  induction h with
  | done => rfl
  | stop => rfl
  | percent _ _ _ _ ih => simp [ih]
  | char _ _ _ _ ih => simp [ih]

/-- Whether a text cannot be more of a part that ends where `stop` says: it is empty, or its first
character ends the part. -/
def EndsAt (stop : Char → Bool) (text : List Char) : Prop := ∀ c ∈ text.head?, stop c

lemma EndsAt.mono {stop' : Char → Bool} (h : EndsAt stop s) (hstop : ∀ c, stop c → stop' c) :
    EndsAt stop' s :=
  fun c hc => hstop c (h c hc)

lemma EndsAt.append (h : EndsAt stop rest) (hs : rest = [] → EndsAt stop s) :
    EndsAt stop (rest ++ s) := by
  cases rest with
  | nil => exact hs rfl
  | cons c rest => exact fun c' hc' => h c' hc'

lemma Scans.endsAt (h : Scans allowed stop text run rest) : EndsAt stop rest := by
  induction h with
  | done => exact fun _ hc => by cases hc
  | stop hstop =>
    rintro _ ⟨⟩
    exact hstop
  | percent _ _ _ _ ih => exact ih
  | char _ _ _ _ ih => exact ih

/-- Nothing in a run ends it. -/
lemma Scans.not_stop_of_mem (h : Scans allowed stop text run rest)
    (hdigit : ∀ c, isHexDigit c → ¬ stop c) : ∀ c ∈ run, ¬ stop c := by
  induction h with
  | done => exact fun _ hc => absurd hc List.not_mem_nil
  | stop => exact fun _ hc => absurd hc List.not_mem_nil
  | percent hstop ha hb _ ih =>
    simp only [List.forall_mem_cons]
    exact ⟨hstop, hdigit _ ha, hdigit _ hb, ih⟩
  | char hstop _ _ _ ih => exact List.forall_mem_cons.mpr ⟨hstop, ih⟩

/-- A run stays the same in front of what ends it. -/
lemma Scans.extend (h : Scans allowed stop text run rest) (hs : EndsAt stop (rest ++ s)) :
    Scans allowed stop (text ++ s) run (rest ++ s) := by
  induction h with
  | done =>
    cases s with
    | nil => exact .done
    | cons c s => exact .stop (hs c rfl)
  | stop hstop => exact .stop hstop
  | percent hstop ha hb _ ih => exact .percent hstop ha hb (ih hs)
  | char hstop hpercent hallowed _ ih => exact .char hstop hpercent hallowed (ih hs)

lemma Scans.exists_of_percent {a b : Char} (h : Scans allowed stop ('%' :: a :: b :: text) run rest)
    (hstop : ¬ stop '%') :
    ∃ tail, run = '%' :: a :: b :: tail ∧ Scans allowed stop text tail rest := by
  cases h with
  | stop hstop' => exact absurd hstop' hstop
  | percent _ _ _ h => exact ⟨_, rfl, h⟩
  | char _ hpercent _ _ => exact absurd rfl hpercent

lemma Scans.exists_of_char {c : Char} (h : Scans allowed stop (c :: text) run rest)
    (hstop : ¬ stop c) (hpercent : c ≠ '%') :
    ∃ tail, run = c :: tail ∧ Scans allowed stop text tail rest := by
  cases h with
  | stop hstop' => exact absurd hstop' hstop
  | percent => exact absurd rfl hpercent
  | char _ _ _ h => exact ⟨_, rfl, h⟩

/-- A run up to the end of a text goes on in what follows the text. -/
lemma Scans.of_append {run' rest' : List Char} (h : Scans allowed stop text run [])
    (hs : Scans allowed stop (text ++ s) run' rest') :
    ∃ tail, run' = run ++ tail ∧ Scans allowed stop s tail rest' := by
  generalize hnil : ([] : List Char) = left at h
  induction h generalizing run' with
  | done => exact ⟨run', rfl, hs⟩
  | stop => cases hnil
  | percent hstop ha hb _ ih =>
    obtain ⟨_, rfl, hrest⟩ := hs.exists_of_percent hstop
    obtain ⟨tail, rfl, htail⟩ := ih hrest hnil
    exact ⟨tail, rfl, htail⟩
  | char hstop hpercent hallowed _ ih =>
    obtain ⟨_, rfl, hrest⟩ := hs.exists_of_char hstop hpercent
    obtain ⟨tail, rfl, htail⟩ := ih hrest hnil
    exact ⟨tail, rfl, htail⟩

/-- A run is split where a part of it ends that allows fewer characters. -/
lemma Scans.split {allowed' stop' : Char → Bool} (h : Scans allowed stop text run rest)
    (hstop : ∀ c, stop c → stop' c) (hallowed : ∀ c ∈ text, allowed c → ¬ stop' c → allowed' c) :
    ∃ first tail, run = first ++ tail ∧ Scans allowed' stop' text first (tail ++ rest) ∧
      Scans allowed stop (tail ++ rest) tail rest := by
  induction h with
  | done => exact ⟨[], [], rfl, .done, .done⟩
  | stop h => exact ⟨[], [], rfl, .stop (hstop _ h), .stop h⟩
  | @percent a b text run rest hpercent ha hb htext ih =>
    by_cases hstop' : stop' '%'
    · refine ⟨[], '%' :: a :: b :: run, rfl, ?_, ?_⟩
      · rw [← htext.append_eq]
        exact .stop hstop'
      · simpa [htext.append_eq] using Scans.percent hpercent ha hb htext
    · obtain ⟨first, tail, rfl, hfirst, htail⟩ := ih fun c hc =>
        hallowed c (List.mem_cons_of_mem _ (List.mem_cons_of_mem _ (List.mem_cons_of_mem _ hc)))
      exact ⟨'%' :: a :: b :: first, tail, rfl, .percent hstop' ha hb hfirst, htail⟩
  | @char c text run rest hstopc hpercent hc htext ih =>
    by_cases hstop' : stop' c
    · refine ⟨[], c :: run, rfl, ?_, ?_⟩
      · rw [← htext.append_eq]
        exact .stop hstop'
      · simpa [htext.append_eq] using Scans.char hstopc hpercent hc htext
    · obtain ⟨first, tail, rfl, hfirst, htail⟩ := ih fun c hc =>
        hallowed c (List.mem_cons_of_mem _ hc)
      exact ⟨c :: first, tail, rfl,
        .char hstop' hpercent (hallowed c List.mem_cons_self hc hstop') hfirst, htail⟩

end

end Iri

end Exemplar
