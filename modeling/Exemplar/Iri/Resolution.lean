import Exemplar.Iri.Host

/-!
# Reading and resolving IRIs

An IRI that stands alone is kept as it is written. A relative reference is resolved against the
parts of a base IRI; dot segments of its path are removed while the path is written.
-/

namespace Exemplar

/-- The parts of an IRI. Their delimiters are not part of them. -/
structure IriParts where
  /-- Without a scheme, a reference is relative. -/
  scheme : Option (List Char)
  authority : Option (List Char)
  path : List Char
  query : Option (List Char)
  fragment : Option (List Char)
  deriving DecidableEq

namespace IriParts

/-- A part with the delimiter in front of it, or nothing. -/
def delimited (delimiter : List Char) : Option (List Char) → List Char
  | none => []
  | some part => delimiter ++ part

/-- The text of an IRI. -/
def chars (p : IriParts) : List Char :=
  (match p.scheme with | none => [] | some scheme => scheme ++ [':']) ++
    delimited ['/', '/'] p.authority ++ p.path ++ delimited ['?'] p.query ++
    delimited ['#'] p.fragment

end IriParts

namespace Iri

/-! ### Scheme, query and fragment -/

/-- Splits a scheme and its colon off, if the text has one. -/
def readScheme? (text : List Char) : Option (List Char × List Char) :=
  match text with
  | c :: _ =>
    match text.dropWhile isSchemeChar with
    | ':' :: rest => if isLetter c then some (text.takeWhile isSchemeChar, rest) else none
    | _ => none
  | [] => none

/-- Reads an optional fragment up to the end. -/
def readFragment : List Char → Except IriError (Option (List Char))
  | '#' :: rest => (scan isFragmentChar (fun _ => false) rest).map fun (run, _) => some run
  | _ => .ok none

/-- Reads what follows a path: an optional query and an optional fragment. -/
def readSuffix : List Char → Except IriError (Option (List Char) × Option (List Char))
  | '?' :: rest => do
    let (query, rest) ← scan isQueryChar (· == '#') rest
    return (some query, ← readFragment rest)
  | rest => do return (none, ← readFragment rest)

/-- Reads a path that keeps its dot segments, and what follows it. -/
def readHier (scheme : Option (List Char)) (authority : Option (List Char)) (text : List Char) :
    Except IriError IriParts := do
  let (path, rest) ← scan isPathChar endsPath text
  let (query, fragment) ← readSuffix rest
  return ⟨scheme, authority, path, query, fragment⟩

/-- Reads an authority, and the path and suffix after it. -/
def readAuthorityPart (scheme : Option (List Char)) (text : List Char) :
    Except IriError IriParts := do
  let (authority, rest) ← readAuthority text
  readHier scheme (some authority) rest

/-- Reads what follows the scheme of an absolute IRI. -/
def readAfterScheme (scheme : List Char) : List Char → Except IriError IriParts
  | '/' :: '/' :: rest => readAuthorityPart (some scheme) rest
  | rest => readHier (some scheme) none rest

/-! ### Dot segments -/

/-- Applies a dot segment at the end of a path, which is written backwards. Without a dot segment
there is no result. -/
def removeDot? (hasAuthority : Bool) : List Char → Option (List Char)
  | '.' :: '.' :: '/' :: written =>
    -- the segment in front goes as well, if there is one
    match written.dropWhile (· != '/') with
    | [] => some (if hasAuthority then ['/'] else [])
    | kept => some kept
  | '.' :: '/' :: written => some ('/' :: written)
  | ['.'] => some []
  | ['.', '.'] => some []
  | _ => none

/-- Refuses a path, written backwards, that starts with two slashes where there is no authority. -/
def checkStart (hasAuthority : Bool) (written : List Char) : Except IriError Unit :=
  match written.reverse with
  | '/' :: '/' :: _ => if hasAuthority then .ok () else .error .doubleSlash
  | _ => .ok ()

/-- Writes a path, backwards, behind what is written already, and removes its dot segments. -/
def writePath (hasAuthority : Bool) (written : List Char) :
    List Char → Except IriError (List Char × List Char)
  | [] => do
    let written := (removeDot? hasAuthority written).getD written
    checkStart hasAuthority written
    return (written.reverse, [])
  | c :: rest =>
    if endsPath c then do
      let written := (removeDot? hasAuthority written).getD written
      checkStart hasAuthority written
      return (written.reverse, c :: rest)
    else if c = '/' then
      match removeDot? hasAuthority written with
      | some kept => do -- the slash goes with the dot segment
        checkStart hasAuthority kept
        writePath hasAuthority kept rest
      | none => writePath hasAuthority ('/' :: written) rest
    else if c = '%' then
      match rest with
      | a :: b :: rest =>
        if isHexDigit a && isHexDigit b then
          writePath hasAuthority (b :: a :: '%' :: written) rest
        else .error (.percent [a, b])
      | rest => .error (.percent rest)
    else if isSegmentChar c then writePath hasAuthority (c :: written) rest
    else .error (.codePoint c)

/-! ### References -/

/-- The path of the base up to and including its last slash, written backwards. -/
def basePath (base : IriParts) : List Char :=
  match base.path.reverse.dropWhile (· != '/') with
  | [] => if base.authority.isSome then ['/'] else []
  | written => written

/-- Writes a path behind the scheme and authority of the base, and reads what follows it. -/
def resolvePath (base : IriParts) (written text : List Char) : Except IriError IriParts := do
  let (path, rest) ← writePath base.authority.isSome written text
  let (query, fragment) ← readSuffix rest
  return ⟨base.scheme, base.authority, path, query, fragment⟩

/-- Resolves a reference without a scheme against the parts of a base. -/
def resolveRelative (base : IriParts) : List Char → Except IriError IriParts
  | [] => .ok { base with fragment := none }
  | '/' :: '/' :: rest => readAuthorityPart base.scheme rest
  | '/' :: rest => resolvePath base ['/'] rest
  | '?' :: rest => do
    let (query, fragment) ← readSuffix ('?' :: rest)
    return { base with query, fragment }
  | '#' :: rest => do return { base with fragment := ← readFragment ('#' :: rest) }
  | text => do
    let (segment, rest) ← scan isFirstSegmentChar endsSegment text
    resolvePath base (segment.reverse ++ basePath base) rest

/-- Reads a reference without a scheme as it is written, with its dot segments. -/
def readRelative : List Char → Except IriError IriParts
  | '/' :: '/' :: rest => readAuthorityPart none rest
  | text => do
    let (segment, rest) ← scan isFirstSegmentChar endsSegment text
    let parts ← readHier none none rest
    return { parts with path := segment ++ parts.path }

/-- Reads a reference; one without a scheme is left to `relative`. -/
def readReference (relative : List Char → Except IriError IriParts) (text : List Char) :
    Except IriError IriParts :=
  match text with
  | ':' :: _ => .error .noScheme -- an empty scheme is no relative reference either
  | text =>
    match readScheme? text with
    | some (scheme, rest) => readAfterScheme scheme rest
    | none => relative text

/-- Reads a text that has to be an IRI with a scheme. Without one, a fault in what there is comes
first. -/
def readParts (text : String) : Except IriError IriParts := do
  let parts ← readReference readRelative text.toList
  if parts.scheme.isSome then return parts else .error .noScheme

/-- The IRI that a text is, if it has a scheme. -/
def parse (text : String) : Except IriError Iri := (readParts text).map fun _ => ⟨text⟩

def parse? (text : String) : Option Iri := (parse text).toOption

/-- Resolves a reference against a base IRI. -/
def resolve (base : Iri) (reference : String) : Except IriError Iri := do
  let parts ← readReference (resolveRelative (← readParts base.text)) reference.toList
  return ⟨String.ofList parts.chars⟩

end Iri

end Exemplar
