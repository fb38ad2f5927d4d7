/-!
# IRIs

IRIs as text, the causes for which a text is refused, and the characters that each part allows.
-/

namespace Exemplar

/-- An IRI as it is written. -/
structure Iri where
  text : String
  deriving DecidableEq, Inhabited

/-- Why a text is not an IRI. -/
inductive IriError
  /-- An absolute IRI starts with a scheme. -/
  | noScheme
  /-- A character is not allowed where it stands. -/
  | codePoint (c : Char)
  /-- A percent sign is not followed by two hexadecimal digits. -/
  | percent (following : List Char)
  /-- The address between the brackets of the host is malformed. -/
  | hostAddress
  /-- A character is not allowed in or after the brackets of the host. -/
  | hostCharacter (c : Char)
  /-- Only digits may follow the colon behind a host. -/
  | portCharacter (c : Char)
  /-- Without an authority, a path that starts with two slashes would be read as one. -/
  | doubleSlash
  deriving DecidableEq

namespace IriError

def message : IriError → String
  | noScheme => "No scheme found in an absolute IRI"
  | codePoint c => s!"Invalid IRI code point '{c}'"
  | percent following => s!"Invalid IRI percent encoding '%{String.ofList following}'"
  | hostAddress => "Invalid host IP (invalid IPv6 address syntax)"
  | hostCharacter c => s!"Invalid character '{c}' in host"
  | portCharacter c => s!"Invalid character '{c}'"
  | doubleSlash => "An IRI path is not allowed to start with //"

end IriError

namespace Iri

/-- Whether a code point lies between two others, both included. -/
def between (low high : Nat) (c : Char) : Bool := low ≤ c.toNat && c.toNat ≤ high

/-- ASCII letters. -/
def isLetter (c : Char) : Bool := between 0x41 0x5a c || between 0x61 0x7a c

/-- Hexadecimal digits of either case. -/
def isHexDigit (c : Char) : Bool := c.isDigit || between 0x41 0x46 c || between 0x61 0x66 c

/-- ASCII characters that every part of an IRI after the scheme allows. -/
def isAsciiUnreserved (c : Char) : Bool :=
  isLetter c || c.isDigit || "!$&'()*+,-.;=_~".toList.contains c

/-- Characters beyond ASCII that every part of an IRI after the scheme allows. -/
def isUniversal (c : Char) : Bool :=
  between 0xa0 0xd7ff c || between 0xf900 0xfdcf c || between 0xfdf0 0xffef c ||
    (between 0x10000 0xdffff c && c.toNat % 0x10000 ≤ 0xfffd) || between 0xe1000 0xefffd c

/-- Characters that every part of an IRI after the scheme allows. -/
def isUnreserved (c : Char) : Bool := isAsciiUnreserved c || isUniversal c

/-- Characters of a scheme after its first letter. -/
def isSchemeChar (c : Char) : Bool :=
  isLetter c || c.isDigit || c == '+' || c == '-' || c == '.'

def isUserChar (c : Char) : Bool := isUnreserved c || c == ':'

-- a colon in the first segment of a relative path would make that segment a scheme
def isFirstSegmentChar (c : Char) : Bool := isUnreserved c || c == '@'

def isSegmentChar (c : Char) : Bool := isUnreserved c || c == ':' || c == '@'
def isPathChar (c : Char) : Bool := isSegmentChar c || c == '/'
def isFragmentChar (c : Char) : Bool := isPathChar c || c == '?'

/-- Characters for private use, which only a query allows. -/
def isPrivate (c : Char) : Bool :=
  between 0xe000 0xf8ff c || between 0xf0000 0xffffd c || between 0x100000 0x10fffd c

def isQueryChar (c : Char) : Bool := isFragmentChar c || isPrivate c

def endsPath (c : Char) : Bool := c == '?' || c == '#'
def endsSegment (c : Char) : Bool := c == '/' || endsPath c

/-- Splits off the longest run up to a character that satisfies `stop`. All characters of the run
are allowed or percent-encoded. -/
def scan (allowed stop : Char → Bool) : List Char → Except IriError (List Char × List Char)
  | [] => .ok ([], [])
  | c :: rest =>
    if stop c then .ok ([], c :: rest)
    else if c = '%' then
      match rest with
      | a :: b :: rest =>
        if isHexDigit a && isHexDigit b then
          (scan allowed stop rest).map fun (run, rest) => ('%' :: a :: b :: run, rest)
        else .error (.percent [a, b])
      | rest => .error (.percent rest)
    else if allowed c then (scan allowed stop rest).map fun (run, rest) => (c :: run, rest)
    else .error (.codePoint c)

end Iri

end Exemplar
