import Exemplar.Proofs.Compilation.Derivation
import Exemplar.Proofs.Compilation.Names
import Exemplar.Proofs.Compilation.Operations

/-!
# Variables of parts

The variables of a part of a document are named inside the variable of the part, so different
entries of a node only share variables if they share their own. Without a warning they do not.
-/

namespace Exemplar

namespace Variable

/-- Whether a variable is another one, or its name continues that of the other one after a
separator. -/
def Inside (w v : Variable) : Prop :=
  w = v ∨ ∃ rest, w.name.toList = v.name.toList ++ Naming.separator :: rest

lemma Inside.refl (v : Variable) : v.Inside v := .inl rfl

lemma Inside.trans {u w v : Variable} (h : u.Inside w) (h' : w.Inside v) : u.Inside v := by
  rcases h with rfl | ⟨rest, h⟩
  · exact h'
  · rcases h' with rfl | ⟨rest', h'⟩
    · exact .inr ⟨rest, h⟩
    · exact .inr ⟨rest' ++ Naming.separator :: rest, by rw [h, h']; simp⟩

lemma inside_child (v : Variable) (key : String) : (v.child key).Inside v :=
  .inr ⟨_, name_child v key⟩

lemma not_inside_child (v : Variable) (key : String) : ¬ v.Inside (v.child key) := by
  have hlength : v.name.toList.length < (v.child key).name.toList.length := by
    rw [name_child, List.length_append]
    simp
  rintro (heq | ⟨rest, h⟩)
  · rw [← heq] at hlength
    exact Nat.lt_irrefl _ hlength
  · rw [h, List.length_append] at hlength
    omega

lemma ne_of_inside_child {w v : Variable} {key : String} (h : w.Inside (v.child key)) : w ≠ v :=
  fun heq => not_inside_child v key (heq ▸ h)

/-- What is inside two children of a variable shows that they are one. -/
lemma child_eq_of_inside {w v : Variable} {key key' : String} (h : w.Inside (v.child key))
    (h' : w.Inside (v.child key')) : v.child key = v.child key' := by
  have htail : ∀ {key : String}, w.Inside (v.child key) →
      ∃ t, (t = [] ∨ ∃ t', t = Naming.separator :: t') ∧
        w.name.toList = v.name.toList ++ Naming.separator :: (Naming.sanitize key.toList ++ t) := by
    rintro key (rfl | ⟨rest, h⟩)
    · exact ⟨[], .inl rfl, by rw [name_child, List.append_nil]⟩
    · exact ⟨_, .inr ⟨rest, rfl⟩, by rw [h, name_child]; simp⟩
  obtain ⟨t, ht, hw⟩ := htail h
  obtain ⟨t', ht', hw'⟩ := htail h'
  rw [hw, List.append_cancel_left_eq, List.cons.injEq] at hw'
  have heq := Naming.eq_of_append_eq (Naming.separator_notMem_sanitize _)
    (Naming.separator_notMem_sanitize _) ht ht' hw'.2
  apply eq_of_name_eq
  rw [name_child, name_child, heq]

end Variable

/-! ### Fragments -/

/-- Whether a fragment only uses variables inside the variable of its part, and is denoted by
that one if by any. -/
structure Fragment.Local (f : Fragment) (v : Variable) : Prop where
  mentioned : ∀ x ∈ f.operation.mentioned, x.Inside v
  term : ∀ x, f.term = some (.variable x) → x = v

lemma Fragment.Local.eq_of_mem_vars {f : Fragment} {v x : Variable} (h : f.Local v)
    {t : PatternTerm} (ht : f.term = some t) (hx : x ∈ t.vars) : x = v := by
  rcases t with y | c
  · obtain rfl : x = y := by simpa [PatternTerm.vars] using hx
    exact h.term x ht
  · simp [PatternTerm.vars] at hx

/-- What denotes the item of a list, which has a variable even if it has no term. -/
lemma Fragment.Local.eq_of_mem_item {f : Fragment} {v x : Variable} (h : f.Local v)
    (hx : x ∈ (f.term.getD v.term).vars) : x = v := by
  cases hterm : f.term with
  | none => simpa [hterm, Variable.term, PatternTerm.vars] using hx
  | some t =>
    rw [hterm, Option.getD_some] at hx
    exact h.eq_of_mem_vars hterm hx

lemma Fragment.local_of_empty {f : Fragment} {v : Variable} (h : f.operation = {})
    (hterm : ∀ x, f.term = some (.variable x) → x = v) : f.Local v :=
  ⟨fun x hx => by simp [h, Operation.mentioned_empty] at hx, hterm⟩

lemma local_echo (value : Json) (remark : Remark) (v : Variable) :
    (Fragment.echo value remark).Local v :=
  Fragment.local_of_empty rfl fun _ h => by cases h

lemma local_scalar {value : Json} {s : Scope} {f : Fragment}
    (h : compilePrimitive value s = .ok f) : f.Local s.v := by
  rcases compilePrimitive_eq_ok h with ⟨-, rfl⟩ | ⟨t, -, -, rfl⟩ | ⟨-, rfl⟩
  · exact Fragment.local_of_empty rfl fun x hx => by cases hx; rfl
  · exact Fragment.local_of_empty rfl fun x hx => by cases hx
  · exact local_echo _ _ _

lemma local_type {value : Json} {s : Scope} {f : Fragment}
    (h : compileType value s = .ok f) : f.Local s.v := by
  rcases compileType_eq_ok h with ⟨-, rfl⟩ | ⟨name, iri, -, -, -, rfl⟩
  · exact Fragment.local_of_empty rfl fun x hx => by cases hx; rfl
  · exact Fragment.local_of_empty rfl fun x hx => by cases hx

lemma Identity.term_eq {s : Scope} {identity : Identity} {x : Variable}
    (h : identity.term s = .variable x) : x = s.v := by
  cases identity <;> simp_all [Identity.term]

lemma Identity.mem_vars {s : Scope} {identity : Identity} {x : Variable}
    (h : x ∈ (identity.term s).vars) : x = s.v := by
  cases identity <;> simp_all [Identity.term, PatternTerm.vars]

/-- A linked entry mentions the node and variables inside the variable of its value. -/
lemma mentioned_link {s : Scope} {identity : Identity} {key : String} {predicate : Iri}
    {f : Fragment} (hf : f.Local (s.v.child key)) {x : Variable}
    (hx : x ∈
      (EntryPart.link (identity.term s) key predicate (s.v.child key) f).operation.mentioned) :
    x ∈ (identity.term s).vars ∨ x.Inside (s.v.child key) := by
  unfold EntryPart.link at hx
  cases hterm : f.term with
  | none =>
    simp only [hterm] at hx
    exact .inr (hf.mentioned x hx)
  | some t =>
    simp only [hterm, Operation.mem_mentioned_withLink, TriplePattern.vars, List.mem_append] at hx
    rcases hx with ((hnode | hpredicate) | ht) | hop
    · exact .inl hnode
    · simp [PatternTerm.vars] at hpredicate
    · rw [hf.eq_of_mem_vars hterm ht]
      exact .inr (.refl _)
    · exact .inr (hf.mentioned x hop)

lemma mentioned_entry {s : Scope} {identity : Identity} {entry : String × Json} {part : EntryPart}
    (h : CompiledEntry (fun _ s f => f.Local s.v) s identity entry part) {x : Variable}
    (hx : x ∈ part.operation.mentioned) : x ∈ (identity.term s).vars ∨
      ∃ key, part.child = some (s.v.child key) ∧ x.Inside (s.v.child key) := by
  have hempty : ∀ {o : Operation}, o = {} → x ∉ o.mentioned := by
    rintro o rfl
    simp [Operation.mentioned_empty]
  cases h with
  | id =>
    refine absurd hx (hempty ?_)
    cases identity <;> rfl
  | keyword => exact absurd hx (hempty rfl)
  | undefined => exact absurd hx (hempty rfl)
  | @type key _ _ _ h =>
    exact (mentioned_link (s := s) (local_type h) hx).imp id fun h => ⟨key, rfl, h⟩
  | @link key _ _ _ _ h =>
    exact (mentioned_link (s := s) h hx).imp id fun h => ⟨key, rfl, h⟩

lemma local_node {s : Scope} {identity : Identity} {entries : Entries} {parts : List EntryPart}
    (declaration : Option Json)
    (h : List.Forall₂ (CompiledEntry (fun _ s f => f.Local s.v) s identity) entries parts) :
    (nodeFragment declaration (identity.term s) parts).Local s.v := by
  refine ⟨fun x hx => ?_, fun x hx => Identity.term_eq (Option.some.inj hx)⟩
  rcases Operation.mem_mentioned_foldl_join.mp hx with hx | ⟨part, hpart, hx⟩
  · simp [Operation.mentioned_empty] at hx
  · obtain ⟨entry, -, hentry⟩ := exists_mem_left h hpart
    rcases mentioned_entry hentry hx with hnode | ⟨key, -, hinside⟩
    · rw [Identity.mem_vars hnode]
      exact .refl _
    · exact hinside.trans (Variable.inside_child _ _)

lemma mentioned_memberOperation {v : Variable} {f : Fragment} {x : Variable}
    (h : x ∈ (memberOperation v f).mentioned) : x = v ∨ x ∈ f.operation.mentioned := by
  rcases Operation.memberOperation_cases v f with heq | ⟨t, -, heq⟩
  · rw [heq] at h
    exact .inr h
  · rw [heq, Operation.mem_mentioned_withRequired] at h
    simpa [Pattern.mentioned] using h

lemma local_array {v : Variable} {f : Fragment} (hf : f.Local v) : (arrayFragment v f).Local v := by
  refine ⟨fun x hx => ?_, hf.term⟩
  rcases mentioned_memberOperation hx with rfl | hx
  · exact .refl _
  · exact hf.mentioned x hx

/-- The slots of a list mention the list, its slots and its item. -/
lemma mentioned_slots {g : Grammar} {v : Variable} {item : PatternTerm} {x : Variable} :
    (x ∈ (chainOperation v (v.child "slot") (v.child "rest") item).mentioned →
      x = v ∨ x = v.child "slot" ∨ x = v.child "rest" ∨ x ∈ item.vars) ∧
    (x ∈ (slotOperation g.lists v (v.child "slot") (v.child "index") item).mentioned →
      x = v ∨ x = v.child "slot" ∨ x = v.child "index" ∨ x ∈ item.vars) := by
  constructor <;> intro h <;>
  · simp [Operation.mentioned, chainOperation, slotOperation, Pattern.mentioned,
      TriplePattern.vars, TriplePattern.link, PatternTerm.vars, Variable.term] at h
    tauto

/-- Of the variables inside the item of a list, its slots at most use the one of the item. -/
lemma eq_of_mem_slots {g : Grammar} {v : Variable} {item : PatternTerm}
    (hitem : ∀ y ∈ item.vars, y = v.child "item") {x : Variable} (hx : x.Inside (v.child "item")) :
    (x ∈ (chainOperation v (v.child "slot") (v.child "rest") item).mentioned →
      x = v.child "item") ∧
    (x ∈ (slotOperation g.lists v (v.child "slot") (v.child "index") item).mentioned →
      x = v.child "item") := by
  have hother : ∀ {key : String}, Naming.sanitize key.toList ≠ Naming.sanitize "item".toList →
      x ≠ v.child key := by
    rintro key hkey rfl
    exact hkey (Variable.sanitize_eq_of_child_eq (Variable.child_eq_of_inside (.refl _) hx))
  constructor <;> intro hmem
  · rcases (mentioned_slots (g := g)).1 hmem with rfl | hslot | hrest | hvar
    · exact absurd hx (Variable.not_inside_child _ _)
    · exact absurd hslot (hother (by decide))
    · exact absurd hrest (hother (by decide))
    · exact hitem x hvar
  · rcases mentioned_slots.2 hmem with rfl | hslot | hindex | hvar
    · exact absurd hx (Variable.not_inside_child _ _)
    · exact absurd hslot (hother (by decide))
    · exact absurd hindex (hother (by decide))
    · exact hitem x hvar

lemma local_list {g : Grammar} {entries : Entries} {key : String} {s : Scope}
    {f f' : Fragment} (hf : f.Local (itemScope s).v)
    (h : ListFragment g entries key s.v (f.term.getD (itemScope s).v.term) f f') :
    f'.Local s.v := by
  have hinside : ∀ {slot : Operation}, (∀ x ∈ slot.mentioned, x.Inside s.v) → ∀ x,
      x ∈ (({} : Operation).join (slot.join f.operation).asOptional).mentioned → x.Inside s.v := by
    intro slot hslot x hx
    rcases Operation.mem_mentioned_join.mp hx with hx | hx
    · simp [Operation.mentioned_empty] at hx
    · rcases Operation.mem_mentioned_join.mp hx with hx | hx
      · exact hslot x hx
      · exact (hf.mentioned x hx).trans (Variable.inside_child _ _)
  cases h with
  | linked =>
    refine ⟨hinside fun x hx => ?_, fun x hx => by cases hx; rfl⟩
    rcases (mentioned_slots (g := g)).1 hx with rfl | rfl | rfl | hx
    · exact .refl _
    · exact Variable.inside_child _ _
    · exact Variable.inside_child _ _
    · rw [hf.eq_of_mem_item hx]
      exact Variable.inside_child _ _
  | indexed =>
    refine ⟨hinside fun x hx => ?_, fun x hx => by cases hx; rfl⟩
    rcases mentioned_slots.2 hx with rfl | rfl | rfl | hx
    · exact .refl _
    · exact Variable.inside_child _ _
    · exact Variable.inside_child _ _
    · rw [hf.eq_of_mem_item hx]
      exact Variable.inside_child _ _

/-- Fragments are local to the variables of their parts. -/
theorem Compiled.isLocal {g : Grammar} (hg : g.Usual) {value : Json} {s : Scope} {f : Fragment}
    (h : Compiled g value s f) : f.Local s.v := by
  induction h with
  | null => exact local_echo _ _ _
  | scalar _ h => exact local_scalar h
  | node _ inner _ htype h ih =>
    obtain ⟨context, identity, parts, -, -, hparts, rfl⟩ := compileNodeObject_eq_ok hg ih htype h
    exact local_node _ hparts
  | array _ inner _ h ih =>
    obtain ⟨template, f', -, hf', rfl⟩ := compileNodeArray_eq_ok hg ih h
    exact local_array hf'
  | list _ inner _ h ih =>
    obtain ⟨key, value, template, f', -, -, hf', hlist⟩ := compileList_eq_ok hg ih h
    exact local_list hf' hlist
  | listArray _ inner _ h ih =>
    obtain ⟨key, value, template, f', -, -, hf', hlist⟩ := compileList_eq_ok hg ih h
    have hlocal := local_list hf' hlist
    exact ⟨hlocal.mentioned, hlocal.term⟩
  | unsupported => exact local_echo _ _ _

/-! ### Projections -/

lemma mem_addVariables {x : Variable} {ws : List Variable} : ∀ {vs : List Variable},
    x ∈ addVariables vs ws ↔ x ∈ vs ∨ x ∈ ws := by
  induction ws with
  | nil => simp [addVariables]
  | cons w ws ih =>
    intro vs
    have hadd : x ∈ addVariable vs w ↔ x ∈ vs ∨ x = w := by
      unfold addVariable
      split
      · next hmem =>
        constructor
        · exact .inl
        · rintro (h | rfl)
          · exact h
          · exact hmem
      · simp
    change x ∈ addVariables (addVariable vs w) ws ↔ _
    rw [ih, hadd, List.mem_cons, or_assoc]

lemma mem_projections_nodeFragment {declaration : Option Json} {node : PatternTerm}
    {parts : List EntryPart} {x : Variable} :
    x ∈ (nodeFragment declaration node parts).projections ↔
      ∃ part ∈ parts, x ∈ part.projections := by
  have hfold : ∀ (parts : List EntryPart) (vs : List Variable),
      x ∈ parts.foldl (fun vs (part : EntryPart) => addVariables vs part.projections) vs ↔
        x ∈ vs ∨ ∃ part ∈ parts, x ∈ part.projections := by
    intro parts
    induction parts with
    | nil => simp
    | cons part rest ih => simp [ih, mem_addVariables, or_assoc]
  have hparts := hfold parts []
  simp only [List.not_mem_nil, false_or] at hparts
  exact hparts

/-! ### Warnings -/

/-- Without a warning, no two entries share a variable. -/
lemma entryWarnings_eq_nil {known : List (Variable × String)} {parts : List EntryPart}
    (h : entryWarnings known parts = []) :
    (∀ part ∈ parts, part.warnings = []) ∧ (parts.filterMap (·.child)).Nodup ∧
      ∀ v ∈ parts.filterMap (·.child), known.lookup v = none := by
  induction parts generalizing known with
  | nil => simp
  | cons part rest ih =>
    rw [entryWarnings] at h
    cases hchild : part.child with
    | none =>
      simp only [hchild, List.append_eq_nil_iff] at h
      obtain ⟨hwarnings, hnodup, hknown⟩ := ih h.2
      rw [List.filterMap_cons_none hchild]
      exact ⟨List.forall_mem_cons.mpr ⟨h.1, hwarnings⟩, hnodup, hknown⟩
    | some v =>
      simp only [hchild, List.append_eq_nil_iff] at h
      obtain ⟨⟨hcollision, hpart⟩, hrest⟩ := h
      obtain ⟨hwarnings, hnodup, hknown⟩ := ih hrest
      rw [List.filterMap_cons_some hchild]
      have hv : known.lookup v = none := by
        cases hlookup : known.lookup v with
        | none => rfl
        | some previous => simp [hlookup] at hcollision
      have hne : ∀ w ∈ rest.filterMap (·.child), w ≠ v ∧ known.lookup w = none := by
        intro w hw
        have hnone := hknown w hw
        rw [List.lookup_cons] at hnone
        by_cases hwv : w = v
        · simp [hwv] at hnone
        · have hfalse : (w == v) = false := by simpa using hwv
          exact ⟨hwv, by simpa [hfalse] using hnone⟩
      refine ⟨List.forall_mem_cons.mpr ⟨hpart, hwarnings⟩, List.nodup_cons.mpr ⟨?_, hnodup⟩, ?_⟩
      · exact fun hmem => (hne v hmem).1 rfl
      · exact List.forall_mem_cons.mpr ⟨hv, fun w hw => (hne w hw).2⟩

end Exemplar
