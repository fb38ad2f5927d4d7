import Exemplar.Iri.Resolution
import Exemplar.Json.Reader
import Exemplar.Rdf.LanguageTag
import Exemplar.Rdf.Term

/-!
# Reading N-Triples and N-Quads

A document has at most one statement per line. A statement of N-Quads may name the graph it
belongs to. Blank nodes belong to the document that mentions them.
-/

namespace Exemplar

/-- A triple with the name of its graph, if it is not in the default graph. -/
structure Quad where
  triple : Triple
  graph : Option Node

namespace NQuads

/-- What a reading step yields: what was read and the rest of the line. -/
abbrev Step (α : Type) := List Char → Option (α × List Char)

def isBlank (c : Char) : Bool := c == ' ' || c == '\t'

def skipBlanks (text : List Char) : List Char := text.dropWhile isBlank

/-! ### Escapes -/

/-- The character whose code point the digits denote. -/
def codePoint? (digits : List Char) : Option Char :=
  (Json.hexNumber? digits).bind fun n => if n.isValidChar then some (Char.ofNat n) else none

/-- Reads what follows a backslash in front of `u` or `U`. -/
def readCodePoint : Step Char
  | 'u' :: a :: b :: c :: d :: rest => (codePoint? [a, b, c, d]).map (·, rest)
  | 'U' :: a :: b :: c :: d :: e :: f :: g :: h :: rest =>
    (codePoint? [a, b, c, d, e, f, g, h]).map (·, rest)
  | _ => none

/-- The character that a letter after a backslash stands for in a string. -/
def stringEscape? : Char → Option Char
  | 't' => some '\t'
  | 'b' => some '\x08'
  | 'n' => some '\n'
  | 'r' => some '\r'
  | 'f' => some '\x0c'
  | '"' => some '"'
  | '\x27' => some '\x27'
  | '\\' => some '\\'
  | _ => none

/-- Reads up to the character `close`. Characters in `refused` have to be escaped; `escape?` gives
the escapes other than code points. -/
def readUntil (close : Char) (refused : Char → Bool) (escape? : Char → Option Char) :
    Nat → Step (List Char)
  | 0, _ => none
  | fuel + 1, text =>
    match text with
    | [] => none
    | '\\' :: rest => do
      let (c, rest) ←
        match rest with
        | c :: after => ((escape? c).map (·, after)).or (readCodePoint rest)
        | [] => none
      let (cs, rest) ← readUntil close refused escape? fuel rest
      return (c :: cs, rest)
    | c :: rest =>
      if c = close then some ([], rest)
      else if refused c then none
      else do
        let (cs, rest) ← readUntil close refused escape? fuel rest
        return (c :: cs, rest)

/-! ### Tokens -/

/-- Characters that an IRI between angle brackets has to escape. -/
def refusedInIri (c : Char) : Bool := c.toNat ≤ 0x20 || "<>\"\x7b\x7d|^\x60\\".toList.contains c

/-- Reads an absolute IRI between angle brackets. -/
def readIri : Step Iri
  | '<' :: rest => do
    let (cs, rest) ← readUntil '>' refusedInIri (fun _ => none) (rest.length + 1) rest
    let iri ← Iri.parse? (String.ofList cs)
    return (iri, rest)
  | _ => none

/-- Letters that a label may start with. -/
def isLabelLetter (c : Char) : Bool :=
  Iri.isLetter c || c == '_' ||
    [(0xc0, 0xd6), (0xd8, 0xf6), (0xf8, 0x2ff), (0x370, 0x37d), (0x37f, 0x1fff),
      (0x200c, 0x200d), (0x2070, 0x218f), (0x2c00, 0x2fef), (0x3001, 0xd7ff), (0xf900, 0xfdcf),
      (0xfdf0, 0xfffd), (0x10000, 0xeffff)].any fun (low, high) => Iri.between low high c

/-- Characters of a label after its first. -/
def isLabelChar (c : Char) : Bool :=
  isLabelLetter c || c.isDigit || c == '-' || c == '\xb7' || Iri.between 0x300 0x36f c ||
    Iri.between 0x203f 0x2040 c

/-- Splits the characters of a label after its first off. A label may hold a point between two other
characters. -/
def splitLabel : List Char → List Char × List Char
  | [] => ([], [])
  | '.' :: c :: rest =>
    if isLabelChar c then
      let (label, rest) := splitLabel rest
      ('.' :: c :: label, rest)
    else ([], '.' :: c :: rest)
  | c :: rest =>
    if isLabelChar c then
      let (label, rest) := splitLabel rest
      (c :: label, rest)
    else ([], c :: rest)

def readBlankNode (document : Nat) : Step BlankNode
  | '_' :: ':' :: c :: rest =>
    if isLabelLetter c || c.isDigit then
      match splitLabel rest with
      -- at the end of a document, a point might still belong to the label
      | (_, ['.']) => none
      | (label, rest) => some (⟨String.ofList (c :: label), some document⟩, rest)
    else none
  | _ => none

def readNode (document : Nat) (text : List Char) : Option (Node × List Char) :=
  match text with
  | '<' :: _ => (readIri text).map fun (iri, rest) => (.iri iri, rest)
  | _ => (readBlankNode document text).map fun (b, rest) => (.blank b, rest)

/-- Reads a literal; languages are kept in lower case. -/
def readLiteral : Step Literal
  | '"' :: rest => do
    let (cs, rest) ←
      readUntil '"' (fun c => c == '\n' || c == '\r') stringEscape? (rest.length + 1) rest
    let lexical := String.ofList cs
    match skipBlanks rest with
    | '@' :: rest =>
      let language := (rest.takeWhile LanguageTag.isTagChar).map Char.toLower
      if LanguageTag.isWellFormed language then
        return (.tagged lexical (String.ofList language), rest.dropWhile LanguageTag.isTagChar)
      else none
    | '^' :: '^' :: rest => do
      let (datatype, rest) ← readIri (skipBlanks rest)
      return (.typed lexical datatype, rest)
    | _ => return (.simple lexical, rest)
  | _ => none

def readTerm (document : Nat) (text : List Char) : Option (Term × List Char) :=
  match text with
  | '"' :: _ => (readLiteral text).map fun (l, rest) => (.literal l, rest)
  | _ => (readNode document text).map fun (n, rest) => (.node n, rest)

/-! ### Statements -/

/-- Whether nothing but a comment is left of a line. -/
def isLineEnd (text : List Char) : Bool :=
  match skipBlanks text with
  | [] => true
  | c :: _ => c == '\n' || c == '\r' || c == '#'

/-- Reads the point at the end of a statement, and possibly a comment after it. -/
def readEnd (text : List Char) : Option Unit :=
  match skipBlanks text with
  | '.' :: rest => if isLineEnd rest then some () else none
  | _ => none

/-- Reads a statement that fills a line. -/
def readStatement (named : Bool) (document : Nat) (text : List Char) : Option Quad := do
  let (subject, rest) ← readNode document text
  let (predicate, rest) ← readIri (skipBlanks rest)
  let (object, rest) ← readTerm document (skipBlanks rest)
  let triple : Triple := ⟨subject, predicate, object⟩
  let rest := skipBlanks rest
  if named && rest.head? != some '.' then
    let (graph, rest) ← readNode document rest
    readEnd rest
    return ⟨triple, some graph⟩
  else
    readEnd rest
    return ⟨triple, none⟩

/-- Reads a line: a statement, a comment, or nothing. -/
def readLine (named : Bool) (document : Nat) (line : List Char) : Option (List Quad) :=
  if isLineEnd line then some []
  else (readStatement named document (skipBlanks line)).map ([·])

/-- The lines of a text, each with the line break after it. -/
def lines : List Char → List (List Char)
  | [] => [[]]
  | c :: rest =>
    if c == '\n' || c == '\r' then [c] :: lines rest
    else match lines rest with
      | line :: others => (c :: line) :: others
      | [] => [[c]]

/-- Reads a document; `named` allows statements to name their graph. -/
def read (named : Bool) (document : Nat) (text : String) : Option (List Quad) :=
  ((lines text.toList).mapM (readLine named document)).map List.flatten

end NQuads

end Exemplar
