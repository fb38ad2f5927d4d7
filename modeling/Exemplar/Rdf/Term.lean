import Exemplar.Iri.Basic
import Exemplar.Json.Text

/-!
# RDF terms

Variables, nodes, literals and triples, and their text in messages and answers.
-/

namespace Exemplar

structure Variable where
  name : String
  deriving DecidableEq, Inhabited

/-- A node without a global name. Nodes of a loaded document are local to that document. -/
structure BlankNode where
  label : String
  document : Option Nat := none
  deriving DecidableEq

/-- The last of the blank nodes that are numbered. Its label is the greatest number that 32
hexadecimal digits denote. -/
def BlankNode.last : BlankNode := ⟨"ffffffffffffffffffffffffffffffff", none⟩

/-- What can be the subject of a triple. -/
inductive Node
  | iri (name : Iri)
  | blank (node : BlankNode)
  deriving DecidableEq

/-- A value with a lexical form. -/
inductive Literal
  | typed (lexical : String) (datatype : Iri)
  | tagged (lexical : String) (language : String)
  deriving DecidableEq

/-- What can be the object of a triple. -/
inductive Term
  | node (node : Node)
  | literal (literal : Literal)
  deriving DecidableEq

/-- A statement that `subject` has the `object` for its `predicate`. -/
structure Triple where
  subject : Node
  predicate : Iri
  object : Term
  deriving DecidableEq

/-! ### Vocabulary -/

namespace Iri

def xsdString : Iri := ⟨"http://www.w3.org/2001/XMLSchema#string"⟩
def xsdInteger : Iri := ⟨"http://www.w3.org/2001/XMLSchema#integer"⟩
def xsdDouble : Iri := ⟨"http://www.w3.org/2001/XMLSchema#double"⟩
def xsdBoolean : Iri := ⟨"http://www.w3.org/2001/XMLSchema#boolean"⟩
def rdfLangString : Iri := ⟨"http://www.w3.org/1999/02/22-rdf-syntax-ns#langString"⟩

def rdfType : Iri := ⟨"http://www.w3.org/1999/02/22-rdf-syntax-ns#type"⟩
def rdfFirst : Iri := ⟨"http://www.w3.org/1999/02/22-rdf-syntax-ns#first"⟩
def rdfRest : Iri := ⟨"http://www.w3.org/1999/02/22-rdf-syntax-ns#rest"⟩
def rdfNil : Iri := ⟨"http://www.w3.org/1999/02/22-rdf-syntax-ns#nil"⟩

/-- Links an indexed list to its slots. -/
def listItem : Iri := ⟨"http://purl.org/co/item"⟩

/-- The position of a slot of an indexed list. -/
def listIndex : Iri := ⟨"http://purl.org/co/index"⟩

/-- The resource that a slot of an indexed list holds. -/
def listItemContent : Iri := ⟨"http://purl.org/co/itemContent"⟩

end Iri

namespace Literal

/-- A plain string. -/
def simple (lexical : String) : Literal := typed lexical Iri.xsdString

def lexical : Literal → String
  | typed lexical _ => lexical
  | tagged lexical _ => lexical

/-- The datatype; that of a literal with a language is fixed. -/
def datatype : Literal → Iri
  | typed _ datatype => datatype
  | tagged _ _ => Iri.rdfLangString

end Literal

namespace Term

def iri (name : Iri) : Term := node (.iri name)

def blank (b : BlankNode) : Term := node (.blank b)

end Term

/-! ### Text -/

def Variable.text (v : Variable) : String := "?" ++ v.name

/-- The text of an IRI between angle brackets. -/
def Iri.bracketed (i : Iri) : String := "<" ++ i.text ++ ">"

def BlankNode.text (b : BlankNode) : String :=
  match b.document with
  | none => "_:" ++ b.label
  -- the number of the document ends at the first point
  | some document => s!"_:{document}.{b.label}"

def Node.text : Node → String
  | .iri name => name.bracketed
  | .blank b => b.text

namespace Literal

def upperHexDigit (n : Nat) : Char := (Nat.digitChar (n % 16)).toUpper

/-- A character of a lexical form as it is written between quotes. -/
def escapeChar (c : Char) : List Char :=
  match c with
  | '\x08' => ['\\', 'b']
  | '\t' => ['\\', 't']
  | '\n' => ['\\', 'n']
  | '\x0c' => ['\\', 'f']
  | '\r' => ['\\', 'r']
  | '"' => ['\\', '"']
  | '\\' => ['\\', '\\']
  | c =>
    if c.toNat < 0x20 ∨ c.toNat = 0x7f then
      ['\\', 'u', '0', '0', upperHexDigit (c.toNat / 16), upperHexDigit c.toNat]
    else [c]

/-- A lexical form between quotes. -/
def quote (lexical : String) : String :=
  String.ofList ('"' :: lexical.toList.flatMap escapeChar ++ ['"'])

/-- The text of a literal. The datatype of a plain string is left out. -/
def text : Literal → String
  | typed lexical datatype =>
    if datatype = Iri.xsdString then quote lexical
    else quote lexical ++ "^^" ++ datatype.bracketed
  | tagged lexical language => quote lexical ++ "@" ++ language

end Literal

def Term.text : Term → String
  | .node n => n.text
  | .literal l => l.text

end Exemplar
