import Exemplar.Proofs.Iri.Authority
import Exemplar.Iri.Resolution

/-!
# Reading the parts of an IRI

The parts of an IRI make up its text. In a longer text the authority and what precedes it are the
same if what follows cannot belong to them.
-/

namespace Exemplar

namespace IriParts

/-- What precedes the path. -/
def origin (p : IriParts) : List Char :=
  (match p.scheme with | none => [] | some scheme => scheme ++ [':']) ++
    delimited ['/', '/'] p.authority

/-- What follows the path. -/
def suffix (p : IriParts) : List Char := delimited ['?'] p.query ++ delimited ['#'] p.fragment

lemma chars_eq (p : IriParts) : p.chars = p.origin ++ (p.path ++ p.suffix) := by
  obtain ⟨scheme, _, _, _, _⟩ := p
  cases scheme <;> simp [chars, origin, suffix]

end IriParts

namespace Iri

open IriParts (delimited)

section

variable {text s run rest : List Char} {query fragment scheme authority : Option (List Char)}
  {p : IriParts}

/-! ### Query and fragment -/

lemma Scans.rest_eq_nil {allowed : Char → Bool}
    (h : Scans allowed (fun _ => false) text run rest) : rest = [] := by
  cases rest with
  | nil => rfl
  | cons c rest => cases h.endsAt c rfl

lemma readFragment_eq_ok_iff :
    readFragment ('#' :: text) = .ok fragment ↔
      fragment = some text ∧ Scans isFragmentChar (fun _ => false) text text [] := by
  rw [readFragment, map_eq_ok]
  constructor
  · rintro ⟨⟨run, rest⟩, hscan, rfl⟩
    have hscan := scan_eq_ok_iff.mp hscan
    have hrest := hscan.rest_eq_nil
    have hrun := hscan.append_eq
    subst hrest
    rw [List.append_nil] at hrun
    subst hrun
    exact ⟨rfl, hscan⟩
  · rintro ⟨rfl, hscan⟩
    exact ⟨_, scan_eq_ok_iff.mpr hscan, rfl⟩

lemma delimited_of_readFragment (h : readFragment text = .ok fragment)
    (htext : EndsAt (· == '#') text) : delimited ['#'] fragment = text := by
  cases text with
  | nil =>
    cases h
    rfl
  | cons c text =>
    obtain rfl : c = '#' := by simpa using htext c rfl
    obtain ⟨rfl, -⟩ := readFragment_eq_ok_iff.mp h
    rfl

lemma readSuffix_query_eq_ok_iff :
    readSuffix ('?' :: text) = .ok (query, fragment) ↔ ∃ run rest, query = some run ∧
      Scans isQueryChar (· == '#') text run rest ∧ readFragment rest = .ok fragment := by
  rw [readSuffix]
  constructor
  · intro h
    obtain ⟨⟨run, rest⟩, hscan, h⟩ := bind_eq_ok.mp h
    obtain ⟨fragment', hfragment, h⟩ := bind_eq_ok.mp h
    cases h
    exact ⟨run, rest, rfl, scan_eq_ok_iff.mp hscan, hfragment⟩
  · rintro ⟨run, rest, rfl, hscan, hfragment⟩
    exact bind_eq_ok.mpr ⟨_, scan_eq_ok_iff.mpr hscan, bind_eq_ok.mpr ⟨_, hfragment, rfl⟩⟩

lemma readSuffix_fragment_eq_ok_iff (htext : ∀ after, text ≠ '?' :: after) :
    readSuffix text = .ok (query, fragment) ↔
      query = none ∧ readFragment text = .ok fragment := by
  have hread : readSuffix text = readFragment text >>= fun fragment => .ok (none, fragment) := by
    rw [readSuffix]
    · rfl
    · exact htext
  rw [hread]
  constructor
  · intro h
    obtain ⟨fragment', hfragment, h⟩ := bind_eq_ok.mp h
    cases h
    exact ⟨rfl, hfragment⟩
  · rintro ⟨rfl, hfragment⟩
    exact bind_eq_ok.mpr ⟨_, hfragment, rfl⟩

/-- Behind a path there is a query or a fragment. -/
lemma endsAt_fragment (htext : EndsAt endsPath text) (hquery : ∀ after, text ≠ '?' :: after) :
    EndsAt (· == '#') text := by
  intro c hc
  have hends : c = '?' ∨ c = '#' := by simpa [endsPath] using htext c hc
  refine beq_iff_eq.mpr (hends.resolve_left ?_)
  rintro rfl
  exact hquery _ (List.eq_cons_of_mem_head? hc)

lemma delimited_of_readSuffix (h : readSuffix text = .ok (query, fragment))
    (htext : EndsAt endsPath text) : delimited ['?'] query ++ delimited ['#'] fragment = text := by
  by_cases hquery : ∃ after, text = '?' :: after
  · obtain ⟨after, rfl⟩ := hquery
    obtain ⟨run, rest, rfl, hscan, hfragment⟩ := readSuffix_query_eq_ok_iff.mp h
    rw [delimited_of_readFragment hfragment hscan.endsAt, delimited, List.append_assoc,
      hscan.append_eq]
    rfl
  · have hnone := not_exists.mp hquery
    obtain ⟨rfl, hfragment⟩ := (readSuffix_fragment_eq_ok_iff hnone).mp h
    exact delimited_of_readFragment hfragment (endsAt_fragment htext hnone)

/-! ### Path -/

/-- What is read after an authority: the path up to a query or a fragment, and these. -/
lemma readHier_eq_ok_iff : readHier scheme authority text = .ok p ↔
    p.scheme = scheme ∧ p.authority = authority ∧ Scans isPathChar endsPath text p.path p.suffix ∧
      readSuffix p.suffix = .ok (p.query, p.fragment) := by
  constructor
  · intro h
    obtain ⟨⟨path, rest⟩, hscan, h⟩ := bind_eq_ok.mp h
    obtain ⟨⟨query, fragment⟩, hsuffix, h⟩ := bind_eq_ok.mp h
    cases h
    have hscan := scan_eq_ok_iff.mp hscan
    have hrest : IriParts.suffix ⟨scheme, authority, path, query, fragment⟩ = rest :=
      delimited_of_readSuffix hsuffix hscan.endsAt
    rw [hrest]
    exact ⟨rfl, rfl, hscan, hsuffix⟩
  · rintro ⟨rfl, rfl, hscan, hsuffix⟩
    exact bind_eq_ok.mpr ⟨_, scan_eq_ok_iff.mpr hscan, bind_eq_ok.mpr ⟨_, hsuffix, rfl⟩⟩

/-! ### Authority -/

/-- Whether a text starts with an authority. -/
def StartsAuthority (text : List Char) : Prop := ['/', '/'] <+: text

lemma StartsAuthority.exists_eq (h : StartsAuthority text) : ∃ rest, text = '/' :: '/' :: rest := by
  obtain ⟨rest, rfl⟩ := h
  exact ⟨rest, rfl⟩

lemma not_startsAuthority_append (h : ¬ StartsAuthority text) (hs : ∀ c ∈ s.head?, c ≠ '/') :
    ¬ StartsAuthority (text ++ s) := by
  intro hstart
  obtain ⟨rest, heq⟩ := hstart.exists_eq
  rcases text with _ | ⟨c, _ | ⟨d, text⟩⟩
  · obtain rfl : s = '/' :: '/' :: rest := heq
    exact hs '/' rfl rfl
  · obtain rfl : s = '/' :: rest := (List.cons.inj heq).2
    exact hs '/' rfl rfl
  · cases heq
    exact h ⟨text, rfl⟩

lemma readAuthorityPart_eq_ok_iff : readAuthorityPart scheme text = .ok p ↔
    ∃ part rest, readAuthority text = .ok (part, rest) ∧
      readHier scheme (some part) rest = .ok p := by
  constructor
  · intro h
    obtain ⟨⟨part, rest⟩, hpart, h⟩ := bind_eq_ok.mp h
    exact ⟨part, rest, hpart, h⟩
  · rintro ⟨part, rest, hpart, h⟩
    exact bind_eq_ok.mpr ⟨_, hpart, h⟩

/-- The parts that are read from a text with an authority make up the text. -/
lemma delimited_of_readAuthorityPart (h : readAuthorityPart scheme text = .ok p) :
    p.scheme = scheme ∧ p.authority.isSome ∧
      delimited ['/', '/'] p.authority ++ (p.path ++ p.suffix) = '/' :: '/' :: text := by
  obtain ⟨part, rest, hpart, h⟩ := readAuthorityPart_eq_ok_iff.mp h
  obtain ⟨hscheme, hauthority, hscan, -⟩ := readHier_eq_ok_iff.mp h
  refine ⟨hscheme, by rw [hauthority]; rfl, ?_⟩
  rw [hauthority, hscan.append_eq, ← append_of_readAuthority hpart]
  rfl

variable {name t : List Char} {base : IriParts}

lemma readAfterScheme_of_not_startsAuthority (h : ¬ StartsAuthority t) :
    readAfterScheme name t = readHier (some name) none t := by
  rw [readAfterScheme]
  rintro rest rfl
  exact h ⟨rest, rfl⟩

lemma delimited_of_readAfterScheme (h : readAfterScheme name t = .ok p) :
    p.scheme = some name ∧ delimited ['/', '/'] p.authority ++ (p.path ++ p.suffix) = t ∧
      (p.authority = none → ¬ StartsAuthority t) := by
  by_cases hstart : StartsAuthority t
  · obtain ⟨rest, rfl⟩ := hstart.exists_eq
    obtain ⟨hscheme, hsome, htext⟩ := delimited_of_readAuthorityPart h
    refine ⟨hscheme, htext, fun hnone => ?_⟩
    rw [hnone] at hsome
    cases hsome
  · rw [readAfterScheme_of_not_startsAuthority hstart] at h
    obtain ⟨hscheme, hauthority, hscan, -⟩ := readHier_eq_ok_iff.mp h
    refine ⟨hscheme, ?_, fun _ => hstart⟩
    rw [hauthority, hscan.append_eq]
    rfl

/-- Where an authority ends, a path, a query or a fragment starts. -/
lemma endsAt_of_readAfterScheme (h : readAfterScheme name t = .ok p) (hsome : p.authority.isSome) :
    EndsAt endsSegment (p.path ++ p.suffix) := by
  by_cases hstart : StartsAuthority t
  · obtain ⟨text, rfl⟩ := hstart.exists_eq
    obtain ⟨part, rest, hpart, h⟩ := readAuthorityPart_eq_ok_iff.mp h
    rw [(readHier_eq_ok_iff.mp h).2.2.1.append_eq]
    exact endsAt_of_readAuthority hpart
  · rw [readAfterScheme_of_not_startsAuthority hstart] at h
    rw [(readHier_eq_ok_iff.mp h).2.1] at hsome
    cases hsome

/-- What follows a text is read behind its authority, if it is no part of that. -/
lemma readHier_of_readAfterScheme_append (hbase : readAfterScheme name t = .ok base)
    (hsome : base.authority.isSome → base.path ++ base.suffix = [] → EndsAt endsSegment s)
    (hnone : base.authority = none → ¬ StartsAuthority (t ++ s))
    (h : readAfterScheme name (t ++ s) = .ok p) :
    readHier (some name) base.authority (base.path ++ base.suffix ++ s) = .ok p := by
  by_cases hstart : StartsAuthority t
  · have hends : base.authority.isSome → EndsAt endsSegment (base.path ++ base.suffix ++ s) :=
      fun h => (endsAt_of_readAfterScheme hbase h).append (hsome h)
    obtain ⟨text, rfl⟩ := hstart.exists_eq
    obtain ⟨part, rest, hpart, hhier⟩ := readAuthorityPart_eq_ok_iff.mp hbase
    obtain ⟨part', rest', hpart', hhier'⟩ := readAuthorityPart_eq_ok_iff.mp h
    obtain ⟨-, hauthority, hscan, -⟩ := readHier_eq_ok_iff.mp hhier
    rw [hauthority, hscan.append_eq] at hends ⊢
    cases (readAuthority_append hpart (hends rfl)).symm.trans hpart'
    exact hhier'
  · rw [readAfterScheme_of_not_startsAuthority hstart] at hbase
    obtain ⟨-, hauthority, hscan, -⟩ := readHier_eq_ok_iff.mp hbase
    rw [readAfterScheme_of_not_startsAuthority (hnone hauthority)] at h
    rwa [hauthority, hscan.append_eq]

lemma readHier_of_readAfterScheme (h : readAfterScheme name t = .ok p) :
    readHier (some name) p.authority (p.path ++ p.suffix) = .ok p := by
  have hself := readHier_of_readAfterScheme_append (s := []) h (fun _ _ _ hc => by cases hc)
    (fun hnone => by simpa using (delimited_of_readAfterScheme h).2.2 hnone) (by simpa using h)
  simpa using hself

/-- Without an authority a path does not start with two slashes. -/
lemma not_startsAuthority_path (h : readAfterScheme name t = .ok p)
    (hnone : p.authority.isSome = false) : ¬ StartsAuthority p.path := by
  obtain ⟨-, htext, hstart⟩ := delimited_of_readAfterScheme h
  rw [Option.isSome_eq_false_iff, Option.isNone_iff_eq_none] at hnone
  rw [hnone] at htext
  intro hpath
  refine hstart hnone (hpath.trans ?_)
  rw [← htext]
  exact List.prefix_append _ _

/-! ### Scheme -/

lemma isSchemeChar_of_isLetter {c : Char} (h : isLetter c) : isSchemeChar c := by
  simp [isSchemeChar, h]

/-- A scheme starts with a letter and goes up to the first colon. -/
lemma readScheme?_eq_some_iff : readScheme? text = some (name, rest) ↔
    text = name ++ ':' :: rest ∧ (∀ c ∈ name, isSchemeChar c) ∧ ∃ c ∈ name.head?, isLetter c := by
  constructor
  · intro h
    unfold readScheme? at h
    split at h
    · next c tail =>
      split at h
      · next after hafter =>
        split at h
        · next hletter =>
          cases h
          refine ⟨?_, fun c hc => List.mem_takeWhile_imp hc, c, ?_, hletter⟩
          · rw [← hafter, List.takeWhile_append_dropWhile]
          · rw [List.takeWhile_cons_of_pos (isSchemeChar_of_isLetter hletter)]
            rfl
        · cases h
      · cases h
    · cases h
  · rintro ⟨rfl, hname, c, hc, hletter⟩
    have hcolon : ¬ isSchemeChar ':' := by decide
    obtain ⟨tail, rfl⟩ : ∃ tail, name = c :: tail := ⟨_, List.eq_cons_of_mem_head? hc⟩
    have hdrop : (c :: tail ++ ':' :: rest).dropWhile isSchemeChar = ':' :: rest := by
      rw [List.dropWhile_append_of_pos hname, List.dropWhile_cons_of_neg hcolon]
    have htake : (c :: tail ++ ':' :: rest).takeWhile isSchemeChar = c :: tail := by
      rw [List.takeWhile_append_of_pos hname, List.takeWhile_cons_of_neg hcolon, List.append_nil]
    unfold readScheme?
    rw [hdrop, htake]
    exact if_pos hletter

lemma readScheme?_append (h : readScheme? text = some (name, rest)) :
    readScheme? (text ++ s) = some (name, rest ++ s) := by
  obtain ⟨rfl, hname, hletter⟩ := readScheme?_eq_some_iff.mp h
  exact readScheme?_eq_some_iff.mpr ⟨by simp, hname, hletter⟩

/-- A relative reference has no scheme. -/
lemma scheme_of_readRelative (h : readRelative text = .ok p) : p.scheme = none := by
  unfold readRelative at h
  split at h
  · exact (delimited_of_readAuthorityPart h).1
  · obtain ⟨_, -, h⟩ := bind_eq_ok.mp h
    obtain ⟨parts, hparts, h⟩ := bind_eq_ok.mp h
    cases h
    exact (readHier_eq_ok_iff.mp hparts).1

/-- An IRI is read behind its scheme. -/
lemma exists_of_readParts {text : String} (h : readParts text = .ok p) :
    ∃ name rest, readScheme? text.toList = some (name, rest) ∧
      readAfterScheme name rest = .ok p := by
  obtain ⟨parts, hread, h⟩ := bind_eq_ok.mp h
  split at h
  · next hscheme =>
    cases h
    unfold readReference at hread
    split at hread
    · cases hread
    · split at hread
      · next name rest heq => exact ⟨name, rest, heq, hread⟩
      · rw [scheme_of_readRelative hread] at hscheme
        cases hscheme
  · cases h

/-- An IRI stays as it is written. -/
lemma chars_of_readParts {text : String} (h : readParts text = .ok p) : p.chars = text.toList := by
  obtain ⟨name, rest, hname, h⟩ := exists_of_readParts h
  obtain ⟨htext, -, -⟩ := readScheme?_eq_some_iff.mp hname
  obtain ⟨hscheme, hrest, -⟩ := delimited_of_readAfterScheme h
  rw [IriParts.chars_eq, IriParts.origin, hscheme, List.append_assoc, hrest, htext]
  simp

lemma parse?_eq_some {text : String} {iri : Iri} (h : parse? text = some iri) :
    iri = ⟨text⟩ ∧ (readScheme? text.toList).isSome := by
  unfold parse? parse at h
  cases hparts : readParts text with
  | error e => simp [hparts, Except.map, Except.toOption] at h
  | ok parts =>
    rw [hparts] at h
    cases h
    obtain ⟨name, rest, hscheme, -⟩ := exists_of_readParts hparts
    exact ⟨rfl, Option.isSome_of_eq_some hscheme⟩

end

end Iri

end Exemplar
