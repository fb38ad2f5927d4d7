import Exemplar.Iri.Basic

/-!
# Authorities

The part of an IRI between `//` and its path: an optional user info, a host, and an optional number
behind a colon.
Hosts in brackets are addresses of version six or of a later version.
-/

namespace Exemplar.Iri

/-! ### Addresses -/

/-- Splits a text at every `separator`. -/
def splitAt (separator : Char) : List Char → List (List Char)
  | [] => [[]]
  | c :: rest =>
    if c = separator then [] :: splitAt separator rest
    else match splitAt separator rest with
      | first :: others => (c :: first) :: others
      | [] => [[c]]

/-- One to four hexadecimal digits. -/
def isGroup (text : List Char) : Bool :=
  !text.isEmpty && text.length ≤ 4 && text.all isHexDigit

/-- A number up to 255 without leading zeros. -/
def isOctet (text : List Char) : Bool :=
  !text.isEmpty && text.length ≤ 3 && text.all Char.isDigit &&
    (text.length == 1 || text.head? != some '0') && Nat.ofDigitChars 10 text 0 ≤ 255

/-- Four octets with points between them. -/
def isDottedAddress (text : List Char) : Bool :=
  let octets := splitAt '.' text
  octets.length == 4 && octets.all isOctet

/-- The number of 16-bit groups in a list of groups, of which the last may be a dotted address. -/
def groupCount? : List (List Char) → Option Nat
  | [] => some 0
  | [last] => if isGroup last then some 1 else if isDottedAddress last then some 2 else none
  | group :: rest => if isGroup group then (groupCount? rest).map (· + 1) else none

/-- The groups of a text between colons; the empty text has none. -/
def groups (text : List Char) : List (List Char) :=
  if text.isEmpty then [] else splitAt ':' text

/-- Splits a text at the first pair of colons. -/
def splitCompressed? : List Char → Option (List Char × List Char)
  | ':' :: ':' :: rest => some ([], rest)
  | c :: rest => (splitCompressed? rest).map fun (head, tail) => (c :: head, tail)
  | [] => none

/-- An address of eight groups, of which a pair of colons may stand for one or more. -/
def isSixAddress (text : List Char) : Bool :=
  match splitCompressed? text with
  | none => groupCount? (groups text) == some 8
  | some (head, tail) =>
    (groups head).all isGroup &&
      (groupCount? (groups tail)).any fun count => (groups head).length + count ≤ 7

/-- Checks the part of a later address after its version: one or more characters. -/
def checkLaterAddress : List Char → Except IriError Unit
  | [] => .error (.hostCharacter ']')
  | text =>
    match text.find? fun c => !(isAsciiUnreserved c || c == ':') with
    | some c => .error (.hostCharacter c)
    | none => .ok ()

/-- Checks the version of a later address, hexadecimal digits up to a point, and what follows. -/
def checkVersion (version : List Char) : List Char → Except IriError Unit
  | [] => .error (.hostCharacter ']')
  | c :: rest =>
    if c = '.' then
      if version.isEmpty then .error (.hostCharacter (rest.head?.getD ']'))
      else checkLaterAddress rest
    else if isHexDigit c then checkVersion (c :: version) rest
    else .error (.hostCharacter c)

/-- Checks the text between the brackets of a host. -/
def checkAddress : List Char → Except IriError Unit
  | 'v' :: rest => checkVersion [] rest
  | 'V' :: rest => checkVersion [] rest
  | text => if isSixAddress text then .ok () else .error .hostAddress

/-! ### Authority -/

/-- Splits the digits behind the colon off. -/
def readPort : List Char → Except IriError (List Char × List Char)
  | [] => .ok ([], [])
  | c :: rest =>
    if endsSegment c then .ok ([], c :: rest)
    else if c.isDigit then (readPort rest).map fun (digits, rest) => (c :: digits, rest)
    else .error (.portCharacter c)

/-- Splits a colon and the digits behind it off, if there are any. -/
def readPortPart : List Char → Except IriError (List Char × List Char)
  | ':' :: rest => (readPort rest).map fun (digits, rest) => (':' :: digits, rest)
  | text => .ok ([], text)

/-- Splits a host and what may follow it behind a colon off. -/
def readHost (text : List Char) : Except IriError (List Char × List Char) :=
  match text with
  | '[' :: inner =>
    match inner.dropWhile (· != ']') with
    | [] => .error (.hostCharacter '[')
    | _ :: after => do
      let address := inner.takeWhile (· != ']')
      checkAddress address
      match after with
      | c :: _ => if c = ':' || endsSegment c then pure () else .error (.hostCharacter c)
      | [] => pure ()
      let (number, rest) ← readPortPart after
      return ('[' :: address ++ ']' :: number, rest)
  | text => do
    let (host, after) ← scan isUnreserved (fun c => c == ':' || endsSegment c) text
    let (number, rest) ← readPortPart after
    return (host ++ number, rest)

/-- Splits an authority off. A user info, up to `@`, precedes the host. -/
def readAuthority (text : List Char) : Except IriError (List Char × List Char) := do
  let (user, after) ← scan isUserChar (fun c => c == '@' || c == '[' || endsSegment c) text
  match after with
  | '@' :: hostText => do
    let (host, rest) ← readHost hostText
    return (user ++ '@' :: host, rest)
  | _ => readHost text

end Exemplar.Iri
