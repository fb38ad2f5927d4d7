/-!
# Keywords

The words of JSON-LD that start with `@` and have a meaning of their own.
-/

namespace Exemplar

inductive Keyword
  | base | container | context | direction | graph | id | importing | included | index | json
  | language | list | nest | none | prefixing | propagate | protection | reverse | set | type
  | value | version | vocab
  deriving DecidableEq

namespace Keyword

def text : Keyword → String
  | base => "@base"
  | container => "@container"
  | context => "@context"
  | direction => "@direction"
  | graph => "@graph"
  | id => "@id"
  | importing => "@import"
  | included => "@included"
  | index => "@index"
  | json => "@json"
  | language => "@language"
  | list => "@list"
  | nest => "@nest"
  | none => "@none"
  | prefixing => "@prefix"
  | propagate => "@propagate"
  | protection => "@protected"
  | reverse => "@reverse"
  | set => "@set"
  | type => "@type"
  | value => "@value"
  | version => "@version"
  | vocab => "@vocab"

def all : List Keyword :=
  [base, container, context, direction, graph, id, importing, included, index, json, language,
    list, nest, none, prefixing, propagate, protection, reverse, set, type, value, version, vocab]

def ofText? (text : String) : Option Keyword := all.find? (·.text == text)

theorem ofText?_text (k : Keyword) : ofText? k.text = some k := by cases k <;> decide

theorem text_eq_of_ofText? {s : String} {k : Keyword} (h : ofText? s = some k) : k.text = s := by
  have := List.find?_some h
  simpa using this

/-- Whether a text has the form that is kept for keywords. -/
def hasForm (text : String) : Bool := text.toList.head? == some '@'

end Keyword

end Exemplar
