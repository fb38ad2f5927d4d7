import Exemplar.Iri.Resolution
import Exemplar.Proofs.Iri.Scanning

/-!
# Dot segments

A path without dot segments is written as it is read. In any case it does not get longer by being
written, and a path that starts with a slash behind an authority goes on to do so.
-/

namespace Exemplar

namespace Iri

/-- Whether one of the segments of a path is a single or a double dot. -/
def HasDotSegment (path : List Char) : Prop :=
  ['.'] ∈ splitAt '/' path ∨ ['.', '.'] ∈ splitAt '/' path

instance (path : List Char) : Decidable (HasDotSegment path) := instDecidableOr

section

variable {separator : Char} {segment tail : List Char}

/-! ### Segments -/

lemma splitAt_ne_nil (separator : Char) (text : List Char) : splitAt separator text ≠ [] := by
  cases text with
  | nil => simp [splitAt]
  | cons c text =>
    rw [splitAt]
    split
    · simp
    · split <;> simp

lemma splitAt_append (before tail : List Char) :
    splitAt separator (before ++ separator :: tail) =
      splitAt separator before ++ splitAt separator tail := by
  induction before with
  | nil => simp [splitAt]
  | cons c before ih =>
    rw [List.cons_append, splitAt, splitAt, ih]
    split
    · rfl
    · cases hbefore : splitAt separator before with
      | nil => exact absurd hbefore (splitAt_ne_nil _ _)
      | cons first others => rfl

lemma splitAt_eq_singleton (h : separator ∉ segment) : splitAt separator segment = [segment] := by
  induction segment with
  | nil => rfl
  | cons c segment ih =>
    rw [List.mem_cons, not_or] at h
    rw [splitAt, if_neg (Ne.symm h.1), ih h.2]

/-- What stands between a separator or the start and a separator or the end is a segment. -/
lemma mem_splitAt_append (h : separator ∉ segment) (htail : EndsAt (· == separator) tail) :
    segment ∈ splitAt separator (segment ++ tail) := by
  cases tail with
  | nil => simp [splitAt_eq_singleton h]
  | cons c tail =>
    obtain rfl : c = separator := by simpa using htail c rfl
    rw [splitAt_append, splitAt_eq_singleton h]
    exact List.mem_cons_self

lemma mem_splitAt_between (before : List Char) (h : separator ∉ segment)
    (htail : EndsAt (· == separator) tail) :
    segment ∈ splitAt separator (before ++ separator :: (segment ++ tail)) := by
  rw [splitAt_append]
  exact List.mem_append_right _ (mem_splitAt_append h htail)

end

section

variable {hasAuthority : Bool} {written text path rest run kept tail : List Char}

/-! ### Paths without dot segments -/

/-- A dot segment that is removed is one of the path that is written. -/
lemma hasDotSegment_of_removeDot? (h : removeDot? hasAuthority written = some kept)
    (htail : EndsAt (· == '/') tail) : HasDotSegment (written.reverse ++ tail) := by
  have hone : '/' ∉ ['.'] := by decide
  have htwo : '/' ∉ ['.', '.'] := by decide
  unfold removeDot? at h
  split at h
  · next before =>
    refine .inr ?_
    simpa using mem_splitAt_between before.reverse htwo htail
  · next before =>
    refine .inl ?_
    simpa using mem_splitAt_between before.reverse hone htail
  · exact .inl (mem_splitAt_append hone htail)
  · exact .inr (mem_splitAt_append htwo htail)
  · cases h

lemma removeDot?_eq_none (h : ¬ HasDotSegment (written.reverse ++ tail))
    (htail : EndsAt (· == '/') tail) : removeDot? hasAuthority written = none := by
  rw [Option.eq_none_iff_forall_not_mem]
  exact fun kept hkept => h (hasDotSegment_of_removeDot? hkept htail)

lemma checkStart_eq_ok (h : hasAuthority = false → ¬ ['/', '/'] <+: written.reverse) :
    checkStart hasAuthority written = .ok () := by
  unfold checkStart
  split
  · next heq =>
    cases hasAuthority with
    | true => rfl
    | false => exact absurd (by simp [heq]) (h rfl)
  · rfl

/-- A path without dot segments is written as it is read. -/
lemma writePath_of_scans (h : Scans isPathChar endsPath text run rest)
    (hdots : ¬ HasDotSegment (written.reverse ++ run))
    (hstart : hasAuthority = false → ¬ ['/', '/'] <+: written.reverse ++ run) :
    writePath hasAuthority written text = .ok (written.reverse ++ run, rest) := by
  induction h generalizing written with
  | done =>
    have hnone : removeDot? hasAuthority written = none :=
      removeDot?_eq_none hdots fun _ hc => by cases hc
    rw [List.append_nil] at hstart ⊢
    rw [writePath, hnone]
    exact bind_eq_ok.mpr ⟨(), checkStart_eq_ok hstart, rfl⟩
  | stop hstop =>
    have hnone : removeDot? hasAuthority written = none :=
      removeDot?_eq_none hdots fun _ hc => by cases hc
    rw [List.append_nil] at hstart ⊢
    rw [writePath.eq_def]
    dsimp only
    rw [if_pos hstop, hnone]
    exact bind_eq_ok.mpr ⟨(), checkStart_eq_ok hstart, rfl⟩
  | @percent a b text run rest hstop ha hb _ ih =>
    have hreverse : (b :: a :: '%' :: written).reverse ++ run =
        written.reverse ++ '%' :: a :: b :: run := by simp
    rw [← hreverse] at hdots hstart ⊢
    rw [← ih hdots hstart, writePath.eq_def]
    simp [hstop, ha, hb]
  | @char c text run rest hstop hpercent hallowed _ ih =>
    have hreverse : (c :: written).reverse ++ run = written.reverse ++ c :: run := by simp
    rw [← hreverse] at hdots hstart ⊢
    rw [← ih hdots hstart, writePath.eq_def]
    by_cases hslash : c = '/'
    · subst hslash
      have hnone : removeDot? hasAuthority written = none :=
        removeDot?_eq_none (hreverse ▸ hdots) fun c hc => by cases hc; rfl
      simp [hstop, hnone]
    · have hsegment : isSegmentChar c := by simpa [isPathChar, hslash] using hallowed
      simp [hstop, hslash, hpercent, hsegment]

/-! ### Paths with dot segments -/

/-- How a path is written, backwards, behind what is written already. -/
inductive Writes (hasAuthority : Bool) : List Char → List Char → List Char → List Char → Prop
  | finish {written rest : List Char} : EndsAt endsPath rest →
      Writes hasAuthority written rest
        ((removeDot? hasAuthority written).getD written).reverse rest
  | removed {written kept text path rest : List Char} :
      removeDot? hasAuthority written = some kept → Writes hasAuthority kept text path rest →
      Writes hasAuthority written ('/' :: text) path rest
  | char {c : Char} {written text path rest : List Char} :
      Writes hasAuthority (c :: written) text path rest →
      Writes hasAuthority written (c :: text) path rest

lemma length_removeDot?_le (h : removeDot? hasAuthority written = some kept) :
    kept.length ≤ written.length := by
  unfold removeDot? at h
  split at h
  · next before =>
    have hdrop := (List.dropWhile_sublist (· != '/') (l := before)).length_le
    split at h
    · cases h
      cases hasAuthority <;> simp
    · cases h
      simp only [List.length_cons]
      omega
  · cases h
    simp
  · cases h
    simp
  · cases h
    simp
  · cases h

lemma writes_of_writePath (h : writePath hasAuthority written text = .ok (path, rest)) :
    Writes hasAuthority written text path rest := by
  fun_induction writePath hasAuthority written text generalizing path rest with
  | case1 =>
    obtain ⟨-, -, h⟩ := bind_eq_ok.mp h
    cases h
    exact .finish fun _ hc => by cases hc
  | case2 written c text hstop =>
    obtain ⟨-, -, h⟩ := bind_eq_ok.mp h
    cases h
    exact .finish fun c hc => by cases hc; exact hstop
  | case3 written text kept hkept _ ih =>
    obtain ⟨-, -, h⟩ := bind_eq_ok.mp h
    exact .removed hkept (ih h)
  | case4 written text _ _ ih => exact .char (ih h)
  | case5 written a b text _ _ _ ih => exact .char (.char (.char (ih h)))
  | case6 => cases h
  | case7 => cases h
  | case8 written c text _ _ _ _ ih => exact .char (ih h)
  | case9 => cases h

lemma Writes.endsAt (h : Writes hasAuthority written text path rest) : EndsAt endsPath rest := by
  induction h with
  | finish hends => exact hends
  | removed _ _ ih => exact ih
  | char _ ih => exact ih

lemma Writes.length_le (h : Writes hasAuthority written text path rest) :
    path.length + rest.length ≤ written.length + text.length := by
  induction h with
  | @finish written rest =>
    rw [List.length_reverse]
    cases hkept : removeDot? hasAuthority written with
    | none => simp
    | some kept => simpa using length_removeDot?_le hkept
  | removed hkept _ ih =>
    have := length_removeDot?_le hkept
    simp only [List.length_cons]
    omega
  | char _ ih =>
    simp only [List.length_cons] at ih ⊢
    omega

lemma getLast?_of_suffix {text tail : List Char} (h : tail <:+ text) (hne : tail ≠ []) :
    tail.getLast? = text.getLast? := by
  obtain ⟨before, rfl⟩ := h
  rw [List.getLast?_append_of_ne_nil before hne]

lemma getLast?_removeDot? (h : removeDot? true written = some kept)
    (hslash : written.getLast? = some '/') : kept.getLast? = some '/' := by
  unfold removeDot? at h
  split at h
  · next before =>
    split at h
    · cases h
      rfl
    · next hne =>
      cases h
      have hsuffix : before.dropWhile (· != '/') <:+ '.' :: '.' :: '/' :: before :=
        (List.dropWhile_suffix _).trans ⟨['.', '.', '/'], rfl⟩
      rw [getLast?_of_suffix hsuffix hne, hslash]
  · next before =>
    cases h
    exact (getLast?_of_suffix (List.suffix_cons _ _) (List.cons_ne_nil _ _)).trans hslash
  · cases hslash
  · cases hslash
  · cases h

/-- Behind an authority, a path that starts with a slash goes on to do so. -/
lemma Writes.head?_eq (h : Writes true written text path rest)
    (hslash : written.getLast? = some '/') : path.head? = some '/' := by
  induction h with
  | @finish written rest =>
    rw [List.head?_reverse]
    cases hkept : removeDot? true written with
    | none => exact hslash
    | some kept => exact getLast?_removeDot? hkept hslash
  | removed hkept _ ih => exact ih (getLast?_removeDot? hkept hslash)
  | @char c written _ _ _ _ ih =>
    refine ih ?_
    cases written with
    | nil => cases hslash
    | cons c' written => simpa [List.getLast?_cons_cons] using hslash

end

end Iri

end Exemplar
