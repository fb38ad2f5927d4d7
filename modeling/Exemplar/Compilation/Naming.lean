import Exemplar.Rdf.Term
import Exemplar.Text.Alphanumeric

/-!
# Names of variables

The variable of a value is named after the keys on the way to it, with points between them. A key
contributes its longest ending that is a legal name. Names written by hand have no points. Which
characters are letters or numbers is a table that the names may be built with.
-/

namespace Exemplar.Naming

/-- The character between the names of a variable and of its parent. -/
def separator : Char := '.'

section

-- the characters that are letters or numbers
variable (alphanumeric : Char → Bool)

/-- Characters that a name may start with. -/
def isNameStart (c : Char) : Bool := alphanumeric c || c == '_'

def isNameChar (c : Char) : Bool :=
  isNameStart alphanumeric c || c == '\xb7' || Iri.between 0x300 0x36f c ||
    Iri.between 0x203f 0x2040 c

/-- The longest ending of a text that consists of name characters. -/
def nameEnding (key : List Char) : List Char :=
  (key.reverse.takeWhile (isNameChar alphanumeric)).reverse

/-- The longest ending of a key that is a legal name, or an underscore if there is none. -/
def sanitizeBy (key : List Char) : List Char :=
  match (nameEnding alphanumeric key).dropWhile fun c => !isNameStart alphanumeric c with
  | [] => ['_']
  | name => name

end

def sanitize (key : List Char) : List Char := sanitizeBy isAlphanumeric key

end Exemplar.Naming

namespace Exemplar.Variable

/-- The variable of a whole document. -/
def root : Variable := ⟨"root"⟩

section

variable (alphanumeric : Char → Bool)

/-- The variable of the entry `key` of the node of `parent`. -/
def childBy (parent : Variable) (key : String) : Variable :=
  ⟨String.ofList (parent.name.toList ++
    Naming.separator :: Naming.sanitizeBy alphanumeric key.toList)⟩

/-- The variable at the end of a path of keys. -/
def descendBy (parent : Variable) (keys : List String) : Variable :=
  keys.foldl (childBy alphanumeric) parent

end

def child (parent : Variable) (key : String) : Variable := parent.childBy isAlphanumeric key

def descend (parent : Variable) (keys : List String) : Variable :=
  parent.descendBy isAlphanumeric keys

end Exemplar.Variable
