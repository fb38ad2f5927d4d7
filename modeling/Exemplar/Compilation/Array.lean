import Exemplar.Compilation.Grammar

/-!
# Arrays and lists

An array matches any number of values of the shape of its only element. A list matches the slots
of a list in their order, either as a chain of slots or by their positions. Arrays and the slots
of lists are optional, so that empty ones match as well.
-/

namespace Exemplar

def Variable.term (v : Variable) : PatternTerm := .variable v

/-- A triple pattern with a fixed predicate. -/
def TriplePattern.link (subject : PatternTerm) (predicate : Iri) (object : PatternTerm) :
    TriplePattern :=
  ⟨subject, .constant (.iri predicate), object⟩

/-! ### Arrays -/

/-- The term of an element that no variable denotes. -/
def fixedTerm? : Option PatternTerm → Option Term
  | some (.constant (.node (.iri iri))) => some (.iri iri)
  | some (.constant (.literal l)) => some (.literal l)
  | _ => none

/-- The operation of an element. The members of a set are told apart by a variable, which a fixed
element does not bind by itself. -/
def memberOperation (v : Variable) (f : Fragment) : Operation :=
  match fixedTerm? f.term with
  | some t => f.operation.withRequired (.values [v] [[some t]])
  | none => f.operation

/-- The fragment of an array from its element. -/
def arrayFragment (v : Variable) (f : Fragment) : Fragment where
  template := .set v f.template
  operation := (memberOperation v f).asOptional -- no member is an empty array
  projections := addVariables [v] f.projections
  warnings := f.warnings.map (.nested (.index 0))
  term := f.term

/-- Compiles an array of one element. -/
def compileNodeArray (g : Grammar) (inner : Compiler) (items : List Json) (s : Scope) :
    Except CompileError Fragment :=
  match items with
  | [template] => do return arrayFragment s.v (← inner g.resource template s)
  | _ => .error (.templateCardinality items.length)

/-! ### Lists -/

/-- The template of the items of a list. -/
def itemTemplate : Json → Except CompileError Json
  | .array [template] => .ok template
  | .array items => .error (.templateCardinality items.length)
  | template => .ok template

/-- The scope of the items of a list: they keep the definition of the list, but no container. -/
def itemScope (s : Scope) : Scope :=
  { s.child "item" with
    definition := s.definition.map fun definition => { definition with container := none } }

/-- The entries of a list object, of which one is the list. -/
def listEntries (entries : Entries) (listKey : String) (list : Template) :
    List (String × Template) :=
  entries.map fun (key, value) => (key, if key = listKey then list else .constant value)

/-- The required patterns of a chain: a slot reached from the list, its item, and its successor. -/
def chainOperation (list slot rest : Variable) (item : PatternTerm) : Operation :=
  { required :=
      [.path list.term (.zeroOrMore (.link Iri.rdfRest)) slot.term,
        .bgp [.link slot.term Iri.rdfFirst item, .link slot.term Iri.rdfRest rest.term]] }

/-- The required patterns of a slot with a position. -/
def slotOperation (lists : ListVocabulary) (list slot index : Variable) (item : PatternTerm) :
    Operation :=
  { triples :=
      [.link list.term lists.item slot.term, .link slot.term lists.index index.term,
        .link slot.term lists.content item] }

/-- The fragment of a list object from its item: the operation of a slot, the template of the list
and the variables of the list itself. -/
def listFragment (entries : Entries) (listKey : String) (list : Variable) (slot : Operation)
    (template : Template) (own : List Variable) (f : Fragment) : Fragment where
  template := .object none (listEntries entries listKey template)
  -- the slots are optional, but the list itself is not
  operation := ({} : Operation).join (slot.join f.operation).asOptional
  projections := addVariables (addVariables [] own) f.projections
  warnings := f.warnings.map fun w => (w.nested (.index 0)).nested (.key listKey)
  term := some list.term

/-- Compiles a list object whose list is a chain of slots. -/
def compileLinkedList (g : Grammar) (inner : Compiler) (entries : Entries) (s : Scope) :
    Except CompileError Fragment :=
  match keywordEntry? s.context entries .list with
  | none => .error (.templateCardinality 0)
  | some (key, value) => do
    let f ← inner g.resource (← itemTemplate value) (itemScope s)
    let list := s.v
    let slot := list.child "slot"
    let rest := list.child "rest"
    let item := f.term.getD (itemScope s).v.term
    return listFragment entries key list (chainOperation list slot rest item)
      (.linked list slot rest f.template) [list, slot, rest] f

/-- Compiles a list object whose slots have positions. -/
def compileIndexedList (g : Grammar) (inner : Compiler) (entries : Entries) (s : Scope) :
    Except CompileError Fragment :=
  match keywordEntry? s.context entries .list with
  | none => .error (.templateCardinality 0)
  | some (key, value) => do
    let f ← inner g.resource (← itemTemplate value) (itemScope s)
    let list := s.v
    let slot := list.child "slot"
    let index := list.child "index"
    let item := f.term.getD (itemScope s).v.term
    return listFragment entries key list (slotOperation g.lists list slot index item)
      (.indexed index g.lists.origin f.template) [index] f

/-- The warning without the segment of the list entry in front. -/
def dropListSegment (w : Warning) : Warning :=
  match w.path with
  | .key "@list" :: path => { w with path }
  | _ => w

/-- The fragment of an array that stands for a list object. -/
def unwrapList (f : Fragment) : Fragment :=
  { f with
    template := .unwrapped "@list" f.template
    warnings := f.warnings.map dropListSegment }

/-- The list object of an array. -/
def wrapList (items : List Json) : Entries := [("@list", .array items)]

end Exemplar
