import Exemplar.Proofs.Algebra.Meaning
import Exemplar.Proofs.Compilation.Derivation
import Exemplar.Proofs.Compilation.Operations

/-!
# What patterns are composed of

The pattern of a document is composed of triple patterns and tables by joins and left joins, and of
the paths of chains where it has lists. So what all of these have, or keep, holds of the pattern as
a whole: in particular, the evaluation supports it.
-/

namespace Exemplar

/-- Whether a property of patterns holds of triple patterns and tables, and of what is joined from
patterns that have it. -/
structure Pattern.Composes (P : Pattern → Prop) : Prop where
  bgp (triples : List TriplePattern) : P (.bgp triples)
  values (header : List Variable) (rows : List (List (Option Term))) : P (.values header rows)
  join {left right : Pattern} (hleft : P left) (hright : P right) : P (.join left right)
  leftJoin {left right : Pattern} (hleft : P left) (hright : P right) :
    P (.leftJoin left right none)

/-- Whether a property holds of the paths along the slots of chains. -/
def Pattern.HoldsOfChains (P : Pattern → Prop) : Prop :=
  ∀ subject object, P (.path subject (.zeroOrMore (.link Iri.rdfRest)) object)

lemma Pattern.composes_isSupported : Composes (·.isSupported) where
  bgp _ := rfl
  values _ _ := rfl
  join hleft hright := Bool.and_eq_true_iff.mpr ⟨hleft, hright⟩
  leftJoin hleft hright := Bool.and_eq_true_iff.mpr ⟨hleft, hright⟩

namespace Operation

/-- Whether a property holds of all patterns of an operation. -/
structure All (P : Pattern → Prop) (o : Operation) : Prop where
  required : ∀ p ∈ o.required, P p
  optionals : ∀ p ∈ o.optionals, P p

variable {P : Pattern → Prop} {o other : Operation}

lemma all_of_triples (ts : List TriplePattern) (optional : Bool) : All P ⟨ts, [], [], optional⟩ :=
  ⟨by simp, by simp⟩

variable (hP : Pattern.Composes P)

include hP

lemma all_joinAll {ps : List Pattern} (h : ∀ p ∈ ps, P p) : P (joinAll ps) := by
  cases ps with
  | nil => exact hP.bgp []
  | cons p rest =>
    rw [List.forall_mem_cons] at h
    exact List.foldlRecOn rest _ h.1 fun _ hp q hq => hP.join hp (h.2 q hq)

namespace All

lemma build (h : o.All P) : P o.build := by
  have hrequired : P o.requiredPattern := by
    refine all_joinAll hP fun p hp => ?_
    rcases List.mem_append.mp hp with hp | hp
    · unfold bgp at hp
      split at hp
      · cases hp
      · rw [List.mem_singleton.mp hp]
        exact hP.bgp _
    · exact h.required p hp
  exact List.foldlRecOn o.optionals _ hrequired fun _ hp q hq => hP.leftJoin hp (h.optionals q hq)

lemma toPattern (h : o.All P) : P o.toPattern := by
  unfold Operation.toPattern
  split
  · exact hP.leftJoin (hP.bgp []) (h.build hP)
  · exact h.build hP

omit hP in
lemma append (h : o.All P) (h' : other.All P) : (o.append other).All P := by
  constructor <;> intro p hp <;> rcases List.mem_append.mp hp with hp | hp
  · exact h.required p hp
  · exact h'.required p hp
  · exact h.optionals p hp
  · exact h'.optionals p hp

lemma asPart (h : o.All P) : o.asPart.All P := by
  unfold Operation.asPart
  split
  · exact ⟨by simp, by simpa using h.build hP⟩
  · exact h

lemma join (h : o.All P) (h' : other.All P) : (o.join other).All P := by
  rcases join_cases with hjoin | hjoin <;> rw [hjoin]
  · exact h
  · exact h.append (h'.asPart hP)

lemma foldl_join {parts : List EntryPart} (h : o.All P)
    (hparts : ∀ part ∈ parts, part.operation.All P) :
    (parts.foldl (fun operation part => operation.join part.operation) o).All P :=
  List.foldlRecOn parts _ h fun _ ho part hpart => ho.join hP (hparts part hpart)

end All

end Operation

/-! ### Productions -/

variable {g : Grammar} {P : Pattern → Prop}

lemma all_scalar {value : Json} {s : Scope} {f : Fragment}
    (h : compilePrimitive value s = .ok f) : f.operation.All P := by
  rcases compilePrimitive_eq_ok h with ⟨-, rfl⟩ | ⟨t, -, -, rfl⟩ | ⟨-, rfl⟩ <;>
    exact Operation.all_of_triples _ _

lemma all_entry {s : Scope} {identity : Identity} {entry : String × Json} {part : EntryPart}
    (h : CompiledEntry (fun _ _ f => f.operation.All P) s identity entry part) :
    part.operation.All P := by
  have hlink : ∀ {key : String} {predicate : Iri} {f : Fragment}, f.operation.All P →
      (EntryPart.link (identity.term s) key predicate (s.v.child key) f).operation.All P := by
    intro key predicate f hf
    unfold EntryPart.link
    cases f.term with
    | none => exact hf
    | some t => exact ⟨hf.required, hf.optionals⟩
  cases h with
  | id => cases identity <;> exact Operation.all_of_triples _ _
  | type _ h =>
    apply hlink
    rcases compileType_eq_ok h with ⟨-, rfl⟩ | ⟨name, iri, -, -, -, rfl⟩ <;>
      exact Operation.all_of_triples _ _
  | keyword => exact Operation.all_of_triples _ _
  | link _ h => exact hlink h
  | undefined => exact Operation.all_of_triples _ _

section

variable (hP : Pattern.Composes P)

include hP

lemma all_array {v : Variable} {f : Fragment} (h : f.operation.All P) :
    (arrayFragment v f).operation.All P := by
  have hmember : (memberOperation v f).All P := by
    rcases Operation.memberOperation_cases v f with heq | ⟨t, -, heq⟩ <;> rw [heq]
    · exact h
    · refine ⟨fun p hp => ?_, h.optionals⟩
      rcases List.mem_append.mp hp with hp | hp
      · exact h.required p hp
      · rw [List.mem_singleton.mp hp]
        exact hP.values _ _
  exact ⟨hmember.required, hmember.optionals⟩

variable (hchains : g.listObject = .linkedList → Pattern.HoldsOfChains P)

include hchains

lemma all_list {entries : Entries} {key : String} {v : Variable} {item : PatternTerm}
    {f f' : Fragment} (h : f.operation.All P) (hlist : ListFragment g entries key v item f f') :
    f'.operation.All P := by
  have hslots : ∀ {slot : Operation}, slot.All P →
      (({} : Operation).join (slot.join f.operation).asOptional).All P := by
    intro slot hslot
    have hgroup := hslot.join hP h
    exact (Operation.all_of_triples _ _).join hP ⟨hgroup.required, hgroup.optionals⟩
  cases hlist with
  | linked hlinked =>
    refine hslots ⟨fun p hp => ?_, by simp [chainOperation]⟩
    simp only [chainOperation, List.mem_cons, List.not_mem_nil, or_false] at hp
    obtain rfl | rfl := hp
    · exact hchains hlinked _ _
    · exact hP.bgp _
  | indexed => exact hslots (Operation.all_of_triples _ _)

variable (hg : g.Usual)

include hg

omit hchains in
lemma all_nodeObject {inner : Compiler} (hinner : ∀ value s f,
      inner .resource value s = .ok f → f.operation.All P)
    (htype : ∀ value s f, inner .typeEntry value s = .ok f → compileType value s = .ok f)
    {entries : Entries} {s : Scope} {f : Fragment}
    (h : compileNodeObject g inner entries s = .ok f) : f.operation.All P := by
  obtain ⟨context, identity, parts, -, -, hparts, rfl⟩ := compileNodeObject_eq_ok hg hinner htype h
  refine (Operation.all_of_triples _ _).foldl_join hP fun part hpart => ?_
  obtain ⟨entry, -, hentry⟩ := exists_mem_left hparts hpart
  exact all_entry hentry

omit hchains in
lemma all_nodeArray {inner : Compiler} (hinner : ∀ value s f,
      inner .resource value s = .ok f → f.operation.All P)
    {items : List Json} {s : Scope} {f : Fragment} (h : compileNodeArray g inner items s = .ok f) :
    f.operation.All P := by
  obtain ⟨template, f', -, hf', rfl⟩ := compileNodeArray_eq_ok hg hinner h
  exact all_array hP hf'

/-- The property holds of all patterns that values are compiled to. -/
theorem Compiled.all {value : Json} {s : Scope} {f : Fragment} (h : Compiled g value s f) :
    f.operation.All P := by
  induction h with
  | null => exact Operation.all_of_triples _ _
  | scalar _ h => exact all_scalar h
  | node _ inner _ htype h ih => exact all_nodeObject hP hg ih htype h
  | array _ inner _ h ih => exact all_nodeArray hP hg ih h
  | list _ inner _ h ih =>
    obtain ⟨key, value, template, f', -, -, hf', hlist⟩ := compileList_eq_ok hg ih h
    exact all_list hP hchains hf' hlist
  | listArray _ inner _ h ih =>
    obtain ⟨key, value, template, f', -, -, hf', hlist⟩ := compileList_eq_ok hg ih h
    have hlist := all_list hP hchains hf' hlist
    exact ⟨hlist.required, hlist.optionals⟩
  | unsupported => exact Operation.all_of_triples _ _

/-- The property holds of the pattern of a document. -/
theorem CompiledDocument.holds {document : Json} {s : Scope} {f : Fragment}
    (h : CompiledDocument g document s f) : P f.operation.toPattern := by
  have hinner : ∀ {inner : Compiler},
      (∀ value s f, inner .resource value s = .ok f → Compiled g value s f) →
      ∀ value s f, inner .resource value s = .ok f → f.operation.All P :=
    fun h value s f hf => (h value s f hf).all hP hchains hg
  suffices f.operation.All P from this.toPattern hP
  cases h with
  | array inner hcompiled h => exact all_nodeArray hP hg (hinner hcompiled) h
  | graph _ _ _ inner hcompiled h =>
    -- the operation below `@graph` is that of the array there
    have harray := all_nodeArray hP hg (hinner hcompiled) h
    exact harray
  | node _ inner hcompiled htype h => exact all_nodeObject hP hg (hinner hcompiled) htype h
  | scalar => exact Operation.all_of_triples _ _

end

/-! ### Support -/

section

variable (hg : g.Usual)

include hg

/-- The patterns of all fragments can be evaluated. -/
lemma Compiled.isSupported {value : Json} {s : Scope} {f : Fragment} (h : Compiled g value s f) :
    f.operation.All (·.isSupported) :=
  h.all Pattern.composes_isSupported (fun _ _ _ => rfl) hg

/-- The query of a document can be evaluated. -/
theorem CompiledDocument.isSupported {document : Json} {s : Scope} {f : Fragment}
    (h : CompiledDocument g document s f) : f.toQuery.algebra.isSupported :=
  h.holds Pattern.composes_isSupported (fun _ _ _ => rfl) hg

end

end Exemplar
