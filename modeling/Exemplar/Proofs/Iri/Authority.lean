import Exemplar.Iri.Host
import Exemplar.Proofs.Iri.Scanning
import Mathlib.Data.List.TakeWhile

/-!
# Reading an authority

What is read and what is left make up the text, and the authority is the same in a longer text if
what follows cannot belong to it.
-/

namespace Exemplar

namespace Iri

section

variable {text part rest s : List Char}

/-! ### Ports and hosts -/

lemma append_of_readPort (h : readPort text = .ok (part, rest)) : part ++ rest = text := by
  fun_induction readPort text generalizing part rest with
  | case1 =>
    cases h
    rfl
  | case2 =>
    cases h
    rfl
  | case3 c text _ _ ih =>
    obtain ⟨⟨digits, rest'⟩, hrest, heq⟩ := map_eq_ok.mp h
    cases heq
    simp [ih hrest]
  | case4 => cases h

lemma append_of_readPortPart (h : readPortPart text = .ok (part, rest)) : part ++ rest = text := by
  unfold readPortPart at h
  split at h
  · obtain ⟨⟨digits, rest'⟩, hrest, heq⟩ := map_eq_ok.mp h
    cases heq
    simp [append_of_readPort hrest]
  · cases h
    rfl

/-- What ends a host: the colon in front of a port, or the end of the authority. -/
def endsHost (c : Char) : Bool := c == ':' || endsSegment c

lemma readHost_address_eq_ok_iff {inner : List Char} :
    readHost ('[' :: inner) = .ok (part, rest) ↔ ∃ address after number,
      inner = address ++ ']' :: after ∧ ']' ∉ address ∧ checkAddress address = .ok () ∧
      EndsAt endsHost after ∧ readPortPart after = .ok (number, rest) ∧
      part = '[' :: address ++ ']' :: number := by
  constructor
  · intro h
    rw [readHost] at h
    split at h
    · cases h
    · next c after hafter =>
      obtain rfl : c = ']' := by simpa [hafter] using List.head?_dropWhile_not (· != ']') inner
      have hinner : inner = inner.takeWhile (· != ']') ++ ']' :: after := by
        rw [← hafter, List.takeWhile_append_dropWhile]
      have haddress : ']' ∉ inner.takeWhile (· != ']') := fun hmem => by
        simpa using List.mem_takeWhile_imp hmem
      obtain ⟨⟨⟩, hcheck, h⟩ := bind_eq_ok.mp h
      refine ⟨inner.takeWhile (· != ']'), after, ?_⟩
      cases after with
      | nil =>
        obtain ⟨⟨number, rest'⟩, hnumber, h⟩ := bind_eq_ok.mp h
        cases h
        exact ⟨number, hinner, haddress, hcheck, fun _ hc => (by cases hc), hnumber, rfl⟩
      | cons c after =>
        dsimp only at h
        split at h
        · next hends =>
          obtain ⟨⟨number, rest'⟩, hnumber, h⟩ := bind_eq_ok.mp h
          cases h
          refine ⟨number, hinner, haddress, hcheck, ?_, hnumber, rfl⟩
          rintro _ ⟨⟩
          exact hends
        · cases h
  · rintro ⟨address, after, number, rfl, haddress, hcheck, hafter, hnumber, rfl⟩
    have hbefore : ∀ c ∈ address, (c != ']') = true :=
      fun c hc => bne_iff_ne.mpr (ne_of_mem_of_not_mem hc haddress)
    have hdrop : (address ++ ']' :: after).dropWhile (· != ']') = ']' :: after := by
      rw [List.dropWhile_append_of_pos hbefore]
      rfl
    have htake : (address ++ ']' :: after).takeWhile (· != ']') = address := by
      rw [List.takeWhile_append_of_pos hbefore]
      simp
    rw [readHost, hdrop, htake]
    refine bind_eq_ok.mpr ⟨(), hcheck, ?_⟩
    cases after with
    | nil => exact bind_eq_ok.mpr ⟨_, hnumber, rfl⟩
    | cons c after =>
      have hc : (decide (c = ':') || endsSegment c) = true := hafter c rfl
      dsimp only
      rw [if_pos hc]
      exact bind_eq_ok.mpr ⟨_, hnumber, rfl⟩

lemma readHost_name_eq_ok_iff (htext : ∀ inner, text ≠ '[' :: inner) :
    readHost text = .ok (part, rest) ↔ ∃ host after number,
      Scans isUnreserved endsHost text host after ∧ readPortPart after = .ok (number, rest) ∧
      part = host ++ number := by
  have hread : readHost text = scan isUnreserved endsHost text >>= fun r =>
      readPortPart r.2 >>= fun r' => .ok (r.1 ++ r'.1, r'.2) := by
    rw [readHost]
    · rfl
    · exact htext
  rw [hread]
  constructor
  · intro h
    obtain ⟨⟨host, after⟩, hscan, h⟩ := bind_eq_ok.mp h
    obtain ⟨⟨number, rest'⟩, hnumber, h⟩ := bind_eq_ok.mp h
    cases h
    exact ⟨host, after, number, scan_eq_ok_iff.mp hscan, hnumber, rfl⟩
  · rintro ⟨host, after, number, hscan, hnumber, rfl⟩
    exact bind_eq_ok.mpr ⟨_, scan_eq_ok_iff.mpr hscan, bind_eq_ok.mpr ⟨_, hnumber, rfl⟩⟩

lemma append_of_readHost (h : readHost text = .ok (part, rest)) : part ++ rest = text := by
  by_cases haddress : ∃ inner, text = '[' :: inner
  · obtain ⟨inner, rfl⟩ := haddress
    obtain ⟨address, after, number, rfl, -, -, -, hnumber, rfl⟩ := readHost_address_eq_ok_iff.mp h
    simp [append_of_readPortPart hnumber]
  · obtain ⟨host, after, number, hhost, hnumber, rfl⟩ :=
      (readHost_name_eq_ok_iff (not_exists.mp haddress)).mp h
    rw [List.append_assoc, append_of_readPortPart hnumber, hhost.append_eq]

lemma append_of_readAuthority (h : readAuthority text = .ok (part, rest)) :
    part ++ rest = text := by
  obtain ⟨⟨user, after⟩, hscan, h⟩ := bind_eq_ok.mp h
  dsimp only at h
  split at h
  · obtain ⟨⟨host, rest'⟩, hhost, h⟩ := bind_eq_ok.mp h
    cases h
    rw [← (scan_eq_ok_iff.mp hscan).append_eq, ← append_of_readHost hhost]
    simp
  · exact append_of_readHost h

/-! ### Where an authority ends -/

lemma endsAt_of_readPort (h : readPort text = .ok (part, rest)) : EndsAt endsSegment rest := by
  fun_induction readPort text generalizing part rest with
  | case1 =>
    cases h
    exact fun _ hc => by cases hc
  | case2 c text hends =>
    cases h
    rintro _ ⟨⟩
    exact hends
  | case3 c text _ _ ih =>
    obtain ⟨⟨digits, rest'⟩, hrest, heq⟩ := map_eq_ok.mp h
    cases heq
    exact ih hrest
  | case4 => cases h

lemma endsAt_of_readPortPart (h : readPortPart text = .ok (part, rest))
    (htext : EndsAt endsHost text) : EndsAt endsSegment rest := by
  unfold readPortPart at h
  split at h
  · obtain ⟨⟨digits, rest'⟩, hrest, heq⟩ := map_eq_ok.mp h
    cases heq
    exact endsAt_of_readPort hrest
  · next hcolon =>
    cases h
    intro c hc
    have hends : c = ':' ∨ endsSegment c := by simpa [endsHost] using htext c hc
    refine hends.resolve_left ?_
    rintro rfl
    exact hcolon _ (List.eq_cons_of_mem_head? hc)

lemma endsAt_of_readHost (h : readHost text = .ok (part, rest)) : EndsAt endsSegment rest := by
  by_cases haddress : ∃ inner, text = '[' :: inner
  · obtain ⟨inner, rfl⟩ := haddress
    obtain ⟨address, after, number, -, -, -, hafter, hnumber, -⟩ :=
      readHost_address_eq_ok_iff.mp h
    exact endsAt_of_readPortPart hnumber hafter
  · obtain ⟨host, after, number, hhost, hnumber, -⟩ :=
      (readHost_name_eq_ok_iff (not_exists.mp haddress)).mp h
    exact endsAt_of_readPortPart hnumber hhost.endsAt

lemma endsAt_of_readAuthority (h : readAuthority text = .ok (part, rest)) :
    EndsAt endsSegment rest := by
  obtain ⟨⟨user, after⟩, -, h⟩ := bind_eq_ok.mp h
  dsimp only at h
  split at h
  · obtain ⟨⟨host, rest'⟩, hhost, h⟩ := bind_eq_ok.mp h
    cases h
    exact endsAt_of_readHost hhost
  · exact endsAt_of_readHost h

/-! ### Authorities in a longer text -/

lemma readPort_append (h : readPort text = .ok (part, rest))
    (hs : EndsAt endsSegment (rest ++ s)) : readPort (text ++ s) = .ok (part, rest ++ s) := by
  fun_induction readPort text generalizing part rest with
  | case1 =>
    cases h
    cases s with
    | nil => rfl
    | cons c s => rw [List.nil_append, readPort, if_pos (hs c rfl)]
  | case2 c text hends =>
    cases h
    rw [List.cons_append, readPort, if_pos hends]
  | case3 c text hends hdigit ih =>
    obtain ⟨⟨digits, rest'⟩, hrest, heq⟩ := map_eq_ok.mp h
    cases heq
    rw [List.cons_append, readPort, if_neg hends, if_pos hdigit, ih hrest hs]
    rfl
  | case4 => cases h

lemma readPortPart_append (h : readPortPart text = .ok (part, rest))
    (hs : EndsAt endsSegment (rest ++ s)) : readPortPart (text ++ s) = .ok (part, rest ++ s) := by
  unfold readPortPart at h
  split at h
  · obtain ⟨⟨digits, rest'⟩, hrest, heq⟩ := map_eq_ok.mp h
    cases heq
    rw [List.cons_append, readPortPart, readPort_append hrest hs]
    rfl
  · cases h
    unfold readPortPart
    split
    · next heq =>
      rw [heq] at hs
      exact absurd (hs ':' rfl) (by decide)
    · rfl

/-- A port that is read from nothing leaves nothing. -/
lemma endsAt_of_port {after : List Char} (h : readPortPart after = .ok (part, rest))
    (hs : EndsAt endsSegment (rest ++ s)) (hafter : after = []) : EndsAt endsSegment s := by
  have hempty := append_of_readPortPart h
  rw [hafter, List.append_eq_nil_iff] at hempty
  rwa [hempty.2] at hs

lemma readHost_append (h : readHost text = .ok (part, rest))
    (hs : EndsAt endsSegment (rest ++ s)) : readHost (text ++ s) = .ok (part, rest ++ s) := by
  by_cases haddress : ∃ inner, text = '[' :: inner
  · obtain ⟨inner, rfl⟩ := haddress
    obtain ⟨address, after, number, rfl, haddress, hcheck, hafter, hnumber, rfl⟩ :=
      readHost_address_eq_ok_iff.mp h
    refine readHost_address_eq_ok_iff.mpr ⟨address, after ++ s, number, by simp, haddress, hcheck,
      hafter.append fun hnil => ?_, readPortPart_append hnumber hs, rfl⟩
    exact (endsAt_of_port hnumber hs hnil).mono fun c hc => by simp [endsHost, hc]
  · obtain ⟨host, after, number, hhost, hnumber, rfl⟩ :=
      (readHost_name_eq_ok_iff (not_exists.mp haddress)).mp h
    refine (readHost_name_eq_ok_iff fun inner heq => ?_).mpr ⟨host, after ++ s, number,
      hhost.extend (hhost.endsAt.append fun hnil => ?_), readPortPart_append hnumber hs, rfl⟩
    · cases text with
      | nil =>
        have hempty := append_of_readHost h
        rw [List.append_eq_nil_iff] at hempty
        rw [hempty.2, heq] at hs
        exact absurd (hs '[' rfl) (by decide)
      | cons c text =>
        rw [List.cons_append] at heq
        cases heq
        exact haddress ⟨text, rfl⟩
    · exact (endsAt_of_port hnumber hs hnil).mono fun c hc => by simp [endsHost, hc]

/-- What ends the user info of an authority. -/
def endsUser (c : Char) : Bool := c == '@' || c == '[' || endsSegment c

lemma endsUser_of_endsSegment {c : Char} (h : endsSegment c) : endsUser c := by simp [endsUser, h]

lemma not_endsUser_of_isHexDigit (c : Char) (h : isHexDigit c) : ¬ endsUser c := by
  intro hends
  simp only [endsUser, endsSegment, endsPath, Bool.or_eq_true, beq_iff_eq] at hends
  rcases hends with (rfl | rfl) | rfl | rfl | rfl <;> exact absurd h (by decide)

/-- If no user info ends in a text, then the authority in it goes up to its end. -/
lemma rest_eq_nil_of_readHost {user : List Char} (h : readHost text = .ok (part, rest))
    (huser : Scans isUserChar endsUser text user []) : rest = [] := by
  cases rest with
  | nil => rfl
  | cons c rest =>
    have hmem : c ∈ user := by
      rw [← List.append_nil user, huser.append_eq, ← append_of_readHost h]
      exact List.mem_append_right _ List.mem_cons_self
    have hends := endsUser_of_endsSegment (endsAt_of_readHost h c rfl)
    exact absurd hends (huser.not_stop_of_mem not_endsUser_of_isHexDigit c hmem)

/-- An authority stays the same in front of what ends it. -/
lemma readAuthority_append (h : readAuthority text = .ok (part, rest))
    (hs : EndsAt endsSegment (rest ++ s)) : readAuthority (text ++ s) = .ok (part, rest ++ s) := by
  obtain ⟨⟨user, after⟩, hscan, h⟩ := bind_eq_ok.mp h
  dsimp only at h
  have huser : Scans isUserChar endsUser text user after := scan_eq_ok_iff.mp hscan
  have hextend : EndsAt endsUser (after ++ s) →
      scan isUserChar endsUser (text ++ s) = .ok (user, after ++ s) :=
    fun hafter => scan_eq_ok_iff.mpr (huser.extend hafter)
  split at h
  · next hostText =>
    obtain ⟨⟨host, rest'⟩, hhost, h⟩ := bind_eq_ok.mp h
    cases h
    refine bind_eq_ok.mpr ⟨_, hextend (huser.endsAt.append fun hnil => by cases hnil), ?_⟩
    exact bind_eq_ok.mpr ⟨_, readHost_append hhost hs, rfl⟩
  · next hat =>
    have hends : after = [] → EndsAt endsSegment s := fun hnil => by
      subst hnil
      rwa [rest_eq_nil_of_readHost h huser] at hs
    have hafter : EndsAt endsUser (after ++ s) :=
      huser.endsAt.append fun hnil => (hends hnil).mono fun c => endsUser_of_endsSegment
    refine bind_eq_ok.mpr ⟨_, hextend hafter, ?_⟩
    dsimp only
    split
    · next hostText heq =>
      cases after with
      | nil =>
        rw [List.nil_append] at heq
        rw [heq] at hends
        exact absurd (hends rfl '@' rfl) (by decide)
      | cons c after =>
        rw [List.cons_append] at heq
        cases heq
        exact absurd rfl (hat after)
    · exact readHost_append h hs

end

end Iri

end Exemplar
