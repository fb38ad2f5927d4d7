import Exemplar.Proofs.Iri.DotSegments
import Exemplar.Proofs.Iri.Parts

/-!
# Suffixes as references

What an IRI has behind a base is a reference to it only if the base ends where the reference takes
over: a fragment may follow any base, a query one without a query, a rooted path one without a path,
an authority a bare scheme, and any other path a base that ends with a slash or is a bare scheme.
-/

namespace Exemplar

/-- Whether a reference, as it is written behind a base, takes over where the base ends. -/
def IriParts.TakenOverBy (base : IriParts) (reference : List Char) : Prop :=
  match reference with
  | '#' :: _ => True
  | '?' :: _ => base.suffix = []
  | '/' :: '/' :: _ => base.authority = none ∧ base.path = [] ∧ base.suffix = []
  | '/' :: _ => base.path = [] ∧ base.suffix = []
  | _ => (base.path.getLast? = some '/' ∨ base.path = [] ∧ base.authority = none) ∧ base.suffix = []

namespace Iri

section

variable {s rest written name t : List Char} {base p q : IriParts}

/-! ### Resolution of a suffix -/

lemma resolvePath_eq_ok_iff : resolvePath base written rest = .ok q ↔
    q.scheme = base.scheme ∧ q.authority = base.authority ∧
      writePath base.authority.isSome written rest = .ok (q.path, q.suffix) ∧
      readSuffix q.suffix = .ok (q.query, q.fragment) := by
  constructor
  · intro h
    obtain ⟨⟨path, left⟩, hpath, h⟩ := bind_eq_ok.mp h
    obtain ⟨⟨query, fragment⟩, hsuffix, h⟩ := bind_eq_ok.mp h
    cases h
    have hleft : IriParts.suffix ⟨base.scheme, base.authority, path, query, fragment⟩ = left :=
      delimited_of_readSuffix hsuffix (writes_of_writePath hpath).endsAt
    rw [hleft]
    exact ⟨rfl, rfl, hpath, hsuffix⟩
  · rintro ⟨hscheme, hauthority, hpath, hsuffix⟩
    refine bind_eq_ok.mpr ⟨_, hpath, bind_eq_ok.mpr ⟨_, hsuffix, ?_⟩⟩
    rw [← hscheme, ← hauthority]
    rfl

/-- A path without dot segments is resolved to itself, wherever the base leaves off in it. -/
lemma resolvePath_of_scans {text tail : List Char} (h : readAfterScheme name text = .ok p)
    (hscheme : p.scheme = base.scheme) (hauthority : p.authority = base.authority)
    (hread : readSuffix p.suffix = .ok (p.query, p.fragment)) (hdots : ¬ HasDotSegment p.path)
    (hscan : Scans isPathChar endsPath rest tail p.suffix)
    (hpath : p.path = written.reverse ++ tail) :
    resolvePath base written rest = .ok p := by
  refine resolvePath_eq_ok_iff.mpr ⟨hscheme, hauthority, ?_, hread⟩
  rw [hpath]
  refine writePath_of_scans hscan (hpath ▸ hdots) fun hnone => ?_
  rw [← hpath]
  exact not_startsAuthority_path h (hauthority ▸ hnone)

/-- A fragment cannot follow another one. -/
lemma eq_nil_of_readFragment_append {fragment fragment' : Option (List Char)} {text f : List Char}
    (h : readFragment text = .ok fragment) (htext : EndsAt (· == '#') text)
    (h' : readFragment (text ++ '#' :: f) = .ok fragment') : text = [] := by
  cases text with
  | nil => rfl
  | cons c text =>
    obtain rfl : c = '#' := by simpa using htext c rfl
    obtain ⟨-, hscan⟩ := readFragment_eq_ok_iff.mp h
    obtain ⟨-, hscan'⟩ := readFragment_eq_ok_iff.mp h'
    obtain ⟨tail, -, htail⟩ := hscan.of_append hscan'
    have hallowed : ¬ isFragmentChar '#' := by decide
    cases htail with
    | char _ _ h _ => exact absurd h hallowed

lemma readSuffix_append_fragment {query query' fragment fragment' : Option (List Char)}
    {text f : List Char} (h : readSuffix text = .ok (query, fragment))
    (htext : EndsAt endsPath text)
    (h' : readSuffix (text ++ '#' :: f) = .ok (query', fragment')) :
    query' = query ∧ readFragment ('#' :: f) = .ok fragment' := by
  by_cases hquery : ∃ after, text = '?' :: after
  · obtain ⟨after, rfl⟩ := hquery
    obtain ⟨run, rest, rfl, hscan, hfragment⟩ := readSuffix_query_eq_ok_iff.mp h
    obtain ⟨run', rest', rfl, hscan', hfragment'⟩ := readSuffix_query_eq_ok_iff.mp h'
    obtain ⟨rfl, rfl⟩ := hscan'.unique
      (hscan.extend (hscan.endsAt.append fun _ c hc => by cases hc; rfl))
    obtain rfl := eq_nil_of_readFragment_append hfragment hscan.endsAt hfragment'
    exact ⟨rfl, hfragment'⟩
  · have hnone := not_exists.mp hquery
    have hnone' : ∀ after, text ++ '#' :: f ≠ '?' :: after := fun after heq => by
      cases text with
      | nil => cases heq
      | cons c text =>
        cases heq
        exact hnone text rfl
    obtain ⟨rfl, hfragment⟩ := (readSuffix_fragment_eq_ok_iff hnone).mp h
    obtain ⟨rfl, hfragment'⟩ := (readSuffix_fragment_eq_ok_iff hnone').mp h'
    obtain rfl := eq_nil_of_readFragment_append hfragment
      (endsAt_fragment htext hnone) hfragment'
    exact ⟨rfl, hfragment'⟩

lemma isFirstSegmentChar_of_isPathChar {c : Char} (h : isPathChar c) (hends : ¬ endsSegment c)
    (hcolon : c ≠ ':') : isFirstSegmentChar c := by
  have hslash : c ≠ '/' := by
    rintro rfl
    exact hends rfl
  simpa [isPathChar, isSegmentChar, isFirstSegmentChar, hcolon, hslash] using h

lemma basePath_eq (hpath : base.path.getLast? = some '/' ∨ base.path = [] ∧ base.authority = none) :
    basePath base = base.path.reverse := by
  unfold basePath
  rcases hpath with hslash | ⟨hnil, hnone⟩
  · rw [← List.head?_reverse] at hslash
    rw [List.eq_cons_of_mem_head? hslash]
    rfl
  · rw [hnil, hnone]
    rfl

lemma resolveRelative_of_not_endsSegment (hs : s ≠ []) (hends : ∀ c ∈ s.head?, ¬ endsSegment c) :
    resolveRelative base s = scan isFirstSegmentChar endsSegment s >>= fun r =>
      resolvePath base (r.1.reverse ++ basePath base) r.2 := by
  have hhead : ∀ c rest, endsSegment c → s ≠ c :: rest := by
    rintro c rest hc rfl
    exact hends c rfl hc
  rw [resolveRelative]
  · exact hs
  · exact fun rest => hhead '/' ('/' :: rest) rfl
  · exact fun rest => hhead '/' rest rfl
  · exact fun rest => hhead '?' rest rfl
  · exact fun rest => hhead '#' rest rfl

lemma resolveRelative_of_not_startsAuthority {f : List Char} (hf : ¬ StartsAuthority ('/' :: f)) :
    resolveRelative base ('/' :: f) = resolvePath base ['/'] f := by
  rw [resolveRelative]
  rintro rest rfl
  exact hf ⟨rest, rfl⟩

lemma not_startsAuthority_of_ne {f : List Char} (hf : ∀ rest, f ≠ '/' :: rest) :
    ¬ StartsAuthority ('/' :: f) := by
  intro hstart
  obtain ⟨rest, hrest⟩ := hstart.exists_eq
  exact hf rest (List.cons.inj hrest).2

lemma not_endsSegment_of_ne (hfragment : ∀ f, s ≠ '#' :: f) (hquery : ∀ f, s ≠ '?' :: f)
    (hroot : ∀ f, s ≠ '/' :: f) : ∀ c ∈ s.head?, ¬ endsSegment c := by
  intro c hc hends
  have hs := List.eq_cons_of_mem_head? hc
  have hcases : c = '/' ∨ c = '?' ∨ c = '#' := by simpa [endsSegment, endsPath] using hends
  rcases hcases with rfl | rfl | rfl
  · exact hroot _ hs
  · exact hquery _ hs
  · exact hfragment _ hs

/-- A base without an authority and a path is a bare scheme. -/
lemma eq_nil_of_scheme (hbase : readAfterScheme name t = .ok base)
    (hauthority : base.authority = none) (hpath : base.path = []) (hsuffix : base.suffix = []) :
    t = [] := by
  have htext := (delimited_of_readAfterScheme hbase).2.1
  rw [hauthority, hpath, hsuffix] at htext
  exact htext.symm

/-- No authority starts where a base without one is continued otherwise than by a slash. -/
lemma not_startsAuthority_of_readAfterScheme (hbase : readAfterScheme name t = .ok base)
    (hs : ∀ c ∈ s.head?, c ≠ '/') (hnone : base.authority = none) : ¬ StartsAuthority (t ++ s) :=
  not_startsAuthority_append ((delimited_of_readAfterScheme hbase).2.2 hnone) hs

section

variable (hbase : readAfterScheme name t = .ok base) (h : readAfterScheme name (t ++ s) = .ok p)

include hbase h

/-- What is read from a base that is continued, if the authority is not. -/
lemma parts_append
    (hsome : base.authority.isSome → base.path ++ base.suffix = [] → EndsAt endsSegment s)
    (hnone : base.authority = none → ¬ StartsAuthority (t ++ s)) :
    p.scheme = base.scheme ∧ p.authority = base.authority ∧
      Scans isPathChar endsPath (base.path ++ base.suffix ++ s) p.path p.suffix ∧
      readSuffix p.suffix = .ok (p.query, p.fragment) := by
  obtain ⟨hscheme, hauthority, hscan, hsuffix⟩ :=
    readHier_eq_ok_iff.mp (readHier_of_readAfterScheme_append hbase hsome hnone h)
  exact ⟨hscheme.trans (delimited_of_readAfterScheme hbase).1.symm, hauthority, hscan, hsuffix⟩

/-- Behind what ends a path, the path is that of the base. -/
lemma parts_append_of_endsPath {c : Char} {f : List Char} (hs : s = c :: f) (hc : endsPath c) :
    p.scheme = base.scheme ∧ p.authority = base.authority ∧ p.path = base.path ∧
      p.suffix = base.suffix ++ s ∧ readSuffix p.suffix = .ok (p.query, p.fragment) := by
  have hends : EndsAt endsPath s := fun c' hc' => by
    rw [hs] at hc'
    cases hc'
    exact hc
  have hslash : ∀ c' ∈ s.head?, c' ≠ '/' := fun c' hc' heq => by
    rw [heq] at hc'
    exact absurd (hends '/' hc') (by decide)
  obtain ⟨hscheme, hauthority, hscan, hsuffix⟩ := parts_append hbase h
    (fun _ _ => hends.mono fun c hc => by simp [endsSegment, hc])
    (not_startsAuthority_of_readAfterScheme hbase hslash)
  obtain ⟨-, -, hscan', -⟩ := readHier_eq_ok_iff.mp (readHier_of_readAfterScheme hbase)
  obtain ⟨hpath, hrest⟩ := hscan.unique (hscan'.extend (hscan'.endsAt.append fun _ => hends))
  exact ⟨hscheme, hauthority, hpath, hrest, hsuffix⟩

/-- A fragment may follow any base. -/
lemma resolveRelative_fragment {f : List Char} (hs : s = '#' :: f) :
    resolveRelative base s = .ok p := by
  obtain ⟨hscheme, hauthority, hpath, hrest, hsuffix⟩ := parts_append_of_endsPath hbase h hs rfl
  obtain ⟨-, -, hscan, hsuffix'⟩ := readHier_eq_ok_iff.mp (readHier_of_readAfterScheme hbase)
  rw [hrest, hs] at hsuffix
  obtain ⟨hquery, hfragment⟩ := readSuffix_append_fragment hsuffix' hscan.endsAt hsuffix
  rw [hs, resolveRelative]
  refine bind_eq_ok.mpr ⟨_, hfragment, ?_⟩
  rw [← hscheme, ← hauthority, ← hpath, ← hquery]
  rfl

/-- A query may follow a base without a query. -/
lemma resolveRelative_query {f : List Char} (hs : s = '?' :: f) (hsuffix : base.suffix = []) :
    resolveRelative base s = .ok p := by
  obtain ⟨hscheme, hauthority, hpath, hrest, hread⟩ := parts_append_of_endsPath hbase h hs rfl
  rw [hrest, hsuffix, List.nil_append, hs] at hread
  rw [hs, resolveRelative]
  refine bind_eq_ok.mpr ⟨_, hread, ?_⟩
  rw [← hscheme, ← hauthority, ← hpath]
  rfl

/-- An authority may follow a scheme. -/
lemma resolveRelative_authority {f : List Char} (hs : s = '/' :: '/' :: f)
    (hauthority : base.authority = none) (hpath : base.path = []) (hsuffix : base.suffix = []) :
    resolveRelative base s = .ok p := by
  rw [eq_nil_of_scheme hbase hauthority hpath hsuffix, List.nil_append, hs] at h
  rw [hs, resolveRelative, (delimited_of_readAfterScheme hbase).1]
  exact h

/-- A path from the root may follow an authority. -/
lemma resolveRelative_root {f : List Char} (hs : s = '/' :: f) (hf : ¬ StartsAuthority s)
    (hdots : ¬ HasDotSegment p.path) (hpath : base.path = []) (hsuffix : base.suffix = []) :
    resolveRelative base s = .ok p := by
  obtain ⟨hscheme, hauthority, hscan, hread⟩ := parts_append hbase h
    (fun _ _ c hc => by rw [hs] at hc; cases hc; rfl)
    (fun hnone => by rwa [eq_nil_of_scheme hbase hnone hpath hsuffix])
  rw [hpath, hsuffix, List.nil_append, List.nil_append, hs] at hscan
  obtain ⟨tail, htail, hscan⟩ := hscan.exists_of_char (by decide) (by decide)
  rw [hs, resolveRelative_of_not_startsAuthority (hs ▸ hf)]
  exact resolvePath_of_scans h hscheme hauthority hread hdots hscan htail

/-- Another path may follow a slash or a scheme. Its first segment has no colon, which would make it
a scheme. -/
lemma resolveRelative_path (hs : s ≠ []) (hcolon : ':' ∉ s) (hends : ∀ c ∈ s.head?, ¬ endsSegment c)
    (hdots : ¬ HasDotSegment p.path) (hsuffix : base.suffix = [])
    (hpath : base.path.getLast? = some '/' ∨ base.path = [] ∧ base.authority = none) :
    resolveRelative base s = .ok p := by
  obtain ⟨hscheme, hauthority, hscan, hread⟩ := parts_append hbase h
    (fun hsome hnil => by
      rcases hpath with hslash | ⟨-, hnone⟩
      · rw [(List.append_eq_nil_iff.mp hnil).1] at hslash
        cases hslash
      · rw [hnone] at hsome
        cases hsome)
    (not_startsAuthority_of_readAfterScheme hbase fun c hc heq => hends c hc (heq ▸ rfl))
  obtain ⟨-, -, hscan', -⟩ := readHier_eq_ok_iff.mp (readHier_of_readAfterScheme hbase)
  rw [hsuffix, List.append_nil] at hscan hscan'
  obtain ⟨run, hrun, hscan⟩ := hscan'.of_append hscan
  have hfirst : ∀ c ∈ s, isPathChar c → ¬ endsSegment c → isFirstSegmentChar c :=
    fun c hc hallowed hends => isFirstSegmentChar_of_isPathChar hallowed hends
      fun heq => hcolon (heq ▸ hc)
  obtain ⟨segment, tail, rfl, hsegment, htail⟩ :=
    hscan.split (fun c hc => by simp [endsSegment, hc]) hfirst
  have hwritten : p.path = (segment.reverse ++ basePath base).reverse ++ tail := by
    rw [hrun, basePath_eq hpath]
    simp
  rw [resolveRelative_of_not_endsSegment hs hends]
  exact bind_eq_ok.mpr ⟨_, scan_eq_ok_iff.mpr hsegment,
    resolvePath_of_scans h hscheme hauthority hread hdots htail hwritten⟩

/-- What takes over from a base resolves to what is read of both. -/
lemma resolveRelative_of_takenOverBy (hs : s ≠ []) (hcolon : ':' ∉ s)
    (hdots : ¬ HasDotSegment p.path) (htaken : base.TakenOverBy s) :
    resolveRelative base s = .ok p := by
  unfold IriParts.TakenOverBy at htaken
  split at htaken
  · exact resolveRelative_fragment hbase h rfl
  · exact resolveRelative_query hbase h rfl htaken
  · obtain ⟨hauthority, hpath, hsuffix⟩ := htaken
    exact resolveRelative_authority hbase h rfl hauthority hpath hsuffix
  · next f hf =>
    exact resolveRelative_root hbase h rfl (not_startsAuthority_of_ne hf) hdots htaken.1 htaken.2
  · next hfragment hquery _ hroot =>
    exact resolveRelative_path hbase h hs hcolon
      (not_endsSegment_of_ne hfragment hquery hroot) hdots htaken.2 htaken.1

end

/-! ### Suffixes that are read back -/

lemma endsAt_suffix (p : IriParts) : EndsAt endsPath p.suffix := by
  obtain ⟨_, _, _, query, fragment⟩ := p
  intro c hc
  cases query with
  | some query =>
    cases hc
    rfl
  | none =>
    cases fragment with
    | some fragment =>
      cases hc
      rfl
    | none => cases hc

/-- What is written behind the authority of the base is all that changes. -/
lemma append_of_chars_eq (hscheme : q.scheme = base.scheme)
    (hauthority : q.authority = base.authority) (hchars : q.chars = base.chars ++ s) :
    q.path ++ q.suffix = base.path ++ base.suffix ++ s := by
  have horigin : q.origin = base.origin := by
    rw [IriParts.origin, IriParts.origin, hscheme, hauthority]
  rw [IriParts.chars_eq, IriParts.chars_eq, horigin, List.append_assoc] at hchars
  exact List.append_cancel_left hchars

lemma eq_nil_of_resolveRelative_query {f : List Char}
    (h : resolveRelative base ('?' :: f) = .ok q) (hchars : q.chars = base.chars ++ '?' :: f) :
    base.suffix = [] := by
  obtain ⟨⟨query, fragment⟩, hsuffix, h⟩ := bind_eq_ok.mp h
  have hends : EndsAt endsPath ('?' :: f) := by
    rintro _ ⟨⟩
    rfl
  have hq : q.scheme = base.scheme ∧ q.authority = base.authority ∧ q.path = base.path ∧
      q.suffix = '?' :: f := by
    cases h
    exact ⟨rfl, rfl, rfl, delimited_of_readSuffix hsuffix hends⟩
  obtain ⟨hscheme, hauthority, hpath, htext⟩ := hq
  have happend := append_of_chars_eq hscheme hauthority hchars
  rw [hpath, htext] at happend
  simpa using happend

lemma eq_nil_of_resolveRelative_authority {f : List Char}
    (h : resolveRelative base ('/' :: '/' :: f) = .ok q)
    (hchars : q.chars = base.chars ++ '/' :: '/' :: f) :
    base.authority = none ∧ base.path = [] ∧ base.suffix = [] := by
  obtain ⟨hscheme, -, htext⟩ := delimited_of_readAuthorityPart h
  rw [IriParts.chars_eq, IriParts.chars_eq, IriParts.origin, IriParts.origin, hscheme,
    List.append_assoc, htext, List.append_assoc, List.append_assoc] at hchars
  have hself := List.append_cancel_left hchars
  rw [← List.append_assoc, List.self_eq_append_left] at hself
  have hnil : IriParts.delimited ['/', '/'] base.authority = [] ∧
      base.path = [] ∧ base.suffix = [] := by simpa using hself
  refine ⟨?_, hnil.2⟩
  cases hauthority : base.authority with
  | none => rfl
  | some authority => simp [hauthority, IriParts.delimited] at hnil

/-- What is written of a path is no longer than what is read of it. -/
lemma length_le_of_resolvePath (h : resolvePath base written rest = .ok q)
    (hchars : q.chars = base.chars ++ s) :
    base.path.length + base.suffix.length + s.length ≤ written.length + rest.length := by
  obtain ⟨hscheme, hauthority, hpath, -⟩ := resolvePath_eq_ok_iff.mp h
  have hlength := congrArg List.length (append_of_chars_eq hscheme hauthority hchars)
  have hle := (writes_of_writePath hpath).length_le
  simp only [List.length_append] at hlength
  omega

lemma eq_nil_of_resolveRelative_root {f : List Char} (hf : ¬ StartsAuthority ('/' :: f))
    (h : resolveRelative base ('/' :: f) = .ok q) (hchars : q.chars = base.chars ++ '/' :: f) :
    base.path = [] ∧ base.suffix = [] := by
  rw [resolveRelative_of_not_startsAuthority hf] at h
  have hlength := length_le_of_resolvePath h hchars
  simp only [List.length_cons, List.length_nil] at hlength
  exact ⟨List.eq_nil_of_length_eq_zero (by omega), List.eq_nil_of_length_eq_zero (by omega)⟩

/-- Behind an authority, what is resolved gets a path from the root. -/
lemma head?_of_resolvePath {segment : List Char} (hsome : base.authority.isSome)
    (hslash : '/' ∉ base.path) (h : resolvePath base (segment ++ ['/']) rest = .ok q)
    (hchars : q.chars = base.chars ++ s) : s.head? = some '/' := by
  obtain ⟨hscheme, hauthority, hpath, -⟩ := resolvePath_eq_ok_iff.mp h
  rw [hsome] at hpath
  -- no dot segment takes the first slash away, and the base has none behind its authority
  have hhead := (writes_of_writePath hpath).head?_eq (by simp)
  have happend := append_of_chars_eq hscheme hauthority hchars
  have hhead' : (base.path ++ (base.suffix ++ s)).head? = some '/' := by
    rw [← List.append_assoc, ← happend, List.head?_append, hhead]
    rfl
  have hpath : base.path = [] := by
    cases hpath : base.path with
    | nil => rfl
    | cons c path =>
      rw [hpath] at hhead' hslash
      cases hhead'
      exact absurd List.mem_cons_self hslash
  have hsuffix : base.suffix = [] := by
    cases hsuffix : base.suffix with
    | nil => rfl
    | cons c suffix =>
      rw [hpath, hsuffix] at hhead'
      cases hhead'
      exact absurd (endsAt_suffix base '/' (by rw [hsuffix]; rfl)) (by decide)
  rwa [hpath, hsuffix] at hhead'

lemma basePath_of_not_mem (hslash : '/' ∉ base.path) :
    basePath base = if base.authority.isSome then ['/'] else [] := by
  have hdrop : base.path.reverse.dropWhile (· != '/') = [] := by
    rw [List.dropWhile_eq_nil_iff]
    exact fun c hc => bne_iff_ne.mpr (ne_of_mem_of_not_mem (List.mem_reverse.mp hc) hslash)
  rw [basePath, hdrop]

lemma exists_basePath_of_mem (hslash : '/' ∈ base.path) : ∃ directory name,
    base.path = directory ++ '/' :: name ∧ basePath base = '/' :: directory.reverse := by
  obtain ⟨name, directory, hpath, hname⟩ := List.eq_append_cons_of_mem (List.mem_reverse.mpr hslash)
  have hbefore : ∀ c ∈ name, (c != '/') = true :=
    fun c hc => bne_iff_ne.mpr (ne_of_mem_of_not_mem hc hname)
  have hdrop : base.path.reverse.dropWhile (· != '/') = '/' :: directory := by
    rw [hpath, List.dropWhile_append_of_pos hbefore]
    rfl
  refine ⟨directory.reverse, name.reverse, ?_, ?_⟩
  · simpa using congrArg List.reverse hpath
  · rw [basePath, hdrop, List.reverse_reverse]

lemma getLast?_of_resolveRelative (hs : s ≠ []) (hends : ∀ c ∈ s.head?, ¬ endsSegment c)
    (h : resolveRelative base s = .ok q) (hchars : q.chars = base.chars ++ s) :
    (base.path.getLast? = some '/' ∨ base.path = [] ∧ base.authority = none) ∧
      base.suffix = [] := by
  rw [resolveRelative_of_not_endsSegment hs hends] at h
  obtain ⟨⟨segment, rest⟩, hscan, h⟩ := bind_eq_ok.mp h
  have hlength := length_le_of_resolvePath h hchars
  rw [← (scan_eq_ok_iff.mp hscan).append_eq] at hlength
  simp only [List.length_append, List.length_reverse] at hlength
  -- what the base has behind its last slash is lost, so that the result is too short
  by_cases hslash : '/' ∈ base.path
  · obtain ⟨directory, name, hpath, hbase⟩ := exists_basePath_of_mem hslash
    rw [hbase, hpath] at hlength
    simp only [List.length_append, List.length_cons, List.length_reverse] at hlength
    have hname : name = [] := List.eq_nil_of_length_eq_zero (by omega)
    refine ⟨.inl ?_, List.eq_nil_of_length_eq_zero (by omega)⟩
    rw [hpath, hname, List.getLast?_concat]
  · have hbase := basePath_of_not_mem hslash
    cases hauthority : base.authority with
    | none =>
      rw [hauthority] at hbase
      simp only [hbase, Option.isSome_none, Bool.false_eq_true, if_false, List.length_nil]
        at hlength
      exact ⟨.inr ⟨List.eq_nil_of_length_eq_zero (by omega), rfl⟩,
        List.eq_nil_of_length_eq_zero (by omega)⟩
    | some authority =>
      rw [hbase, hauthority] at h
      have hhead := head?_of_resolvePath (by rw [hauthority]; rfl) hslash h hchars
      exact absurd rfl (hends '/' hhead)

/-- A reference that is read back as what stands behind the base takes over from it. -/
lemma takenOverBy_of_resolveRelative (hs : s ≠ []) (h : resolveRelative base s = .ok q)
    (hchars : q.chars = base.chars ++ s) : base.TakenOverBy s := by
  unfold IriParts.TakenOverBy
  split
  · trivial
  · exact eq_nil_of_resolveRelative_query h hchars
  · exact eq_nil_of_resolveRelative_authority h hchars
  · next f hf => exact eq_nil_of_resolveRelative_root (not_startsAuthority_of_ne hf) h hchars
  · next hfragment hquery _ hroot =>
    exact getLast?_of_resolveRelative hs (not_endsSegment_of_ne hfragment hquery hroot) h hchars

lemma readReference_of_not_mem {relative : List Char → Except IriError IriParts}
    (hcolon : ':' ∉ s) : readReference relative s = relative s := by
  have hscheme : readScheme? s = none := by
    rw [Option.eq_none_iff_forall_not_mem]
    rintro ⟨name, rest⟩ hname
    rw [(readScheme?_eq_some_iff.mp hname).1] at hcolon
    exact hcolon (List.mem_append_right _ List.mem_cons_self)
  unfold readReference
  split
  · exact absurd List.mem_cons_self hcolon
  · rw [hscheme]

lemma resolve_relative_eq_ok_iff {b i : Iri} {reference : String}
    (hb : readParts b.text = .ok base) (hcolon : ':' ∉ reference.toList) :
    b.resolve reference = .ok i ↔
      ∃ q, resolveRelative base reference.toList = .ok q ∧ q.chars = i.text.toList := by
  unfold resolve
  rw [hb, bind_eq_ok]
  constructor
  · rintro ⟨_, ⟨⟩, h⟩
    obtain ⟨q, hq, h⟩ := bind_eq_ok.mp h
    rw [readReference_of_not_mem hcolon] at hq
    cases h
    exact ⟨q, hq, by rw [String.toList_ofList]⟩
  · rintro ⟨q, hq, hchars⟩
    refine ⟨base, rfl, bind_eq_ok.mpr ⟨q, ?_, ?_⟩⟩
    · rw [readReference_of_not_mem hcolon, hq]
    · rw [hchars, String.ofList_toList]
      rfl

/-- What an IRI without dot segments has behind a base resolves to the IRI if and only if it takes
over where the base ends. -/
lemma resolve_eq_ok_iff {b i : Iri} {suffix : String} (hb : readParts b.text = .ok base)
    (hi : readParts i.text = .ok p) (hdots : ¬ HasDotSegment p.path)
    (htext : i.text = b.text ++ suffix) (hne : suffix ≠ "") (hcolon : ':' ∉ suffix.toList) :
    b.resolve suffix = .ok i ↔ base.TakenOverBy suffix.toList := by
  have hs : suffix.toList ≠ [] := fun hnil => hne (String.toList_eq_nil_iff.mp hnil)
  have hchars : i.text.toList = base.chars ++ suffix.toList := by
    rw [htext, String.toList_append, chars_of_readParts hb]
  rw [resolve_relative_eq_ok_iff hb hcolon]
  constructor
  · rintro ⟨q, hq, htext⟩
    exact takenOverBy_of_resolveRelative hs hq (htext.trans hchars)
  · intro htaken
    obtain ⟨name, rest, hname, hbase⟩ := exists_of_readParts hb
    obtain ⟨name', rest', hname', hparts⟩ := exists_of_readParts hi
    have happend := readScheme?_append (s := suffix.toList) hname
    rw [htext, String.toList_append] at hname'
    cases happend.symm.trans hname'
    exact ⟨p, resolveRelative_of_takenOverBy hbase hparts hs hcolon hdots htaken,
      chars_of_readParts hi⟩

end

end Iri

end Exemplar
