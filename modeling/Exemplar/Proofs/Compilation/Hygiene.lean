import Exemplar.Proofs.Compilation.Projections
import Exemplar.Proofs.Compilation.Sharing
import Exemplar.Proofs.Template.Hygiene

/-!
# Hygiene

Variables of a template only meet where entries of one node object share a variable, which a
warning says. The names of variables see to everything else: what is inside an entry or a list has
a name inside its name.
-/

namespace Exemplar

/-! ### Warnings -/

/-- Whether no warning of a fragment is about a shared variable. -/
def Fragment.Unshared (f : Fragment) : Prop := ∀ w ∈ f.warnings, ¬ w.IsShared

lemma unshared_of_map {change : Warning → Warning} {ws : List Warning}
    (h : ∀ w ∈ ws.map change, ¬ w.IsShared) (hremark : ∀ w, (change w).remark = w.remark) :
    ∀ w ∈ ws, ¬ w.IsShared := by
  rintro w hw ⟨previous, key, v, hshared⟩
  exact h (change w) (List.mem_map.mpr ⟨w, hw, rfl⟩) ⟨previous, key, v, (hremark w).trans hshared⟩

lemma remark_dropListSegment (w : Warning) : (dropListSegment w).remark = w.remark := by
  unfold dropListSegment
  split <;> rfl

/-! ### Fragments -/

/-- Whether the template of a fragment is hygienic and only consumes what is inside a variable.
Only nested sets at its top have the variable itself. -/
structure Fragment.Hygienic (f : Fragment) (v : Variable) : Prop where
  template : f.template.Hygienic
  inside : ∀ x, f.template.Consumes x → x.Inside v
  members : ∀ p m, f.template.at? p = some (.set v m) → ∃ n, p = List.replicate n .member

/-- What is inside a child of a variable has no set with the variable itself. -/
lemma Fragment.Hygienic.ne_set {f : Fragment} {v : Variable} {key : String}
    (h : f.Hygienic (v.child key)) (p : List Template.Step) (m : Template) :
    f.template.at? p ≠ some (.set v m) :=
  fun hset => Variable.not_inside_child v key (h.inside v (Template.consumes_of_at?_set hset))

lemma hygienic_constant {f : Fragment} {value : Json} (hf : f.template = .constant value)
    (v : Variable) : f.Hygienic v where
  template := hf ▸ Template.hygienic_leaf fun _ _ => Template.at?_constant
  inside x hx := by simp [hf] at hx
  members p m h := by simp [hf, Template.at?_constant] at h

lemma hygienic_placeholder {t : Template} {v : Variable}
    (ht : ∀ position part, t.at? position = some part ↔ position = [] ∧ part = t)
    (hv : t.ownVariables = [v]) : (Fragment.placeholder t v).Hygienic v where
  template := Template.hygienic_leaf ht
  inside x hx := by
    have hx := (Template.consumes_leaf ht).mp hx
    rw [hv, List.mem_singleton] at hx
    exact hx ▸ .refl v
  members p m h := ⟨0, ((ht _ _).mp h).1⟩

lemma hygienic_scalar {value : Json} {s : Scope} {f : Fragment}
    (h : compilePrimitive value s = .ok f) : f.Hygienic s.v := by
  rcases compilePrimitive_eq_ok h with ⟨-, rfl⟩ | ⟨t, -, -, rfl⟩ | ⟨-, rfl⟩
  · unfold placeholderTemplate
    split
    · exact hygienic_placeholder (fun _ _ => Template.at?_name) rfl
    · exact hygienic_placeholder (fun _ _ => Template.at?_name) rfl
    · exact hygienic_placeholder (fun _ _ => Template.at?_typed) rfl
    · exact hygienic_placeholder (fun _ _ => Template.at?_native) rfl
  · exact hygienic_constant rfl _
  · exact hygienic_constant rfl _

lemma hygienic_type {value : Json} {s : Scope} {f : Fragment} (h : compileType value s = .ok f) :
    f.Hygienic s.v := by
  rcases compileType_eq_ok h with ⟨-, rfl⟩ | ⟨name, iri, -, -, -, rfl⟩
  · exact hygienic_placeholder (fun _ _ => Template.at?_name) rfl
  · exact hygienic_constant rfl _

/-- Whether an entry only consumes what is inside its own variable, or identifies the node. -/
structure EntryPart.Hygienic (part : EntryPart) (s : Scope) : Prop where
  template : part.template.Hygienic
  inside : ∀ x, part.template.Consumes x →
    (part.child = some (s.v.child part.key) ∧ x.Inside (s.v.child part.key)) ∨
      (x = s.v ∧ s.context.expand? .vocab part.key = some (.keyword .id))
  ne_set : ∀ p m, part.template.at? p ≠ some (.set s.v m)

lemma Fragment.Hygienic.link {f : Fragment} {s : Scope} {node : PatternTerm} {key : String}
    {predicate : Iri} (h : f.Hygienic (s.v.child key)) :
    (EntryPart.link node key predicate (s.v.child key) f).Hygienic s where
  template := h.template
  inside x hx := .inl ⟨rfl, h.inside x hx⟩
  ne_set := h.ne_set

lemma hygienic_entry_constant {part : EntryPart} {value : Json}
    (h : part.template = .constant value) (s : Scope) : part.Hygienic s where
  template := h ▸ Template.hygienic_leaf fun _ _ => Template.at?_constant
  inside x hx := by simp [h] at hx
  ne_set p m hset := by simp [h, Template.at?_constant] at hset

lemma hygienic_entry {s : Scope} {identity : Identity} {entry : String × Json} {part : EntryPart}
    (h : CompiledEntry (fun _ s f => f.Unshared → f.Hygienic s.v) s identity entry part)
    (hunshared : ∀ w ∈ part.warnings, ¬ w.IsShared) : part.Hygienic s ∧ part.key = entry.1 := by
  cases h with
  | id hkey =>
    cases identity with
    | placeholder =>
      refine ⟨⟨Template.hygienic_leaf fun _ _ => Template.at?_name, fun x hx => .inr ?_, ?_⟩, rfl⟩
      · exact ⟨Template.consumes_name.mp hx, hkey⟩
      · intro p m hset
        cases (Template.at?_name.mp hset).2
    | free | fixed => exact ⟨hygienic_entry_constant rfl s, rfl⟩
  | type _ h => exact ⟨(hygienic_type h).link, rfl⟩
  | keyword => exact ⟨hygienic_entry_constant rfl s, rfl⟩
  | link _ h =>
    exact ⟨(h (unshared_of_map hunshared fun _ => rfl)).link, rfl⟩
  | undefined => exact ⟨hygienic_entry_constant rfl s, rfl⟩

/-- Entries of a node are hygienic together: they have different variables, and only one of them
identifies the node. -/
lemma hygienic_node {s : Scope} {identity : Identity} {entries : Entries} {parts : List EntryPart}
    (declaration : Option Json) (hidentity : identityOf s entries = .ok identity)
    (hparts : List.Forall₂ (CompiledEntry (fun _ s f => f.Unshared → f.Hygienic s.v) s identity)
      (ownEntries entries) parts)
    (hunshared : (nodeFragment declaration (identity.term s) parts).Unshared) :
    (nodeFragment declaration (identity.term s) parts).Hygienic s.v := by
  have hentry : ∀ {i : Nat} {part : EntryPart}, parts[i]? = some part →
      part.Hygienic s ∧ ∃ value, (ownEntries entries)[i]? = some (part.key, value) := by
    intro i part hi
    obtain ⟨⟨key, value⟩, hi', hentry⟩ := exists_getElem?_left hparts hi
    obtain ⟨hpart, rfl⟩ := hygienic_entry hentry fun w hw =>
      hunshared w (mem_entryWarnings (List.mem_of_getElem? hi) hw)
    exact ⟨hpart, value, hi'⟩
  have hmem : ∀ {e : String × Template}, e ∈ parts.map (fun part => (part.key, part.template)) →
      ∃ part : EntryPart, part.Hygienic s ∧ part.template = e.2 := by
    intro e he
    obtain ⟨part, hpart, rfl⟩ := List.mem_map.mp he
    obtain ⟨i, hi⟩ := List.mem_iff_getElem?.mp hpart
    exact ⟨part, (hentry hi).1, rfl⟩
  constructor
  · refine Template.hygienic_object (fun e he => ?_) fun i j e e' x hi hj hx hx' => ?_
    · obtain ⟨part, hpart, heq⟩ := hmem he
      exact heq ▸ hpart.template
    · rw [List.getElem?_map, Option.map_eq_some_iff] at hi hj
      obtain ⟨part, hi, rfl⟩ := hi
      obtain ⟨part', hj, rfl⟩ := hj
      obtain ⟨hpart, value, hi'⟩ := hentry hi
      obtain ⟨hpart', value', hj'⟩ := hentry hj
      rcases hpart.inside x hx with ⟨hchild, hinside⟩ | ⟨rfl, hid⟩ <;>
        rcases hpart'.inside _ hx' with ⟨hchild', hinside'⟩ | ⟨heq, hid'⟩
      · rw [← Variable.child_eq_of_inside hinside hinside'] at hchild'
        exact index_eq_of_child_eq hunshared hi hj hchild hchild'
      · exact absurd heq (Variable.ne_of_inside_child hinside)
      · exact absurd hinside' (Variable.not_inside_child _ _)
      · obtain ⟨hfilter, -⟩ := identityOf_of_mem_own hidentity (List.mem_of_getElem? hi') hid
        exact index_eq_of_filter_eq_singleton hfilter hi' hj' (beq_iff_eq.mpr hid)
          (beq_iff_eq.mpr hid')
  · intro x hx
    obtain ⟨e, he, hx⟩ := Template.consumes_object.mp hx
    obtain ⟨part, hpart, heq⟩ := hmem he
    rcases hpart.inside x (heq ▸ hx) with ⟨-, hinside⟩ | ⟨rfl, -⟩
    · exact hinside.trans (Variable.inside_child _ _)
    · exact .refl _
  · intro p m hset
    rcases Template.at?_object.mp hset with ⟨-, heq⟩ | ⟨i, rest, e, -, he, hset⟩
    · cases heq
    · obtain ⟨part, hpart, heq⟩ := hmem (List.mem_of_getElem? he)
      exact absurd hset (heq ▸ hpart.ne_set rest m)

lemma hygienic_array {v : Variable} {f : Fragment} (h : f.Hygienic v) :
    (arrayFragment v f).Hygienic v where
  template := Template.hygienic_set h.template h.members
  inside x hx := by
    rcases Template.consumes_set.mp hx with rfl | hx
    · exact .refl _
    · exact h.inside x hx
  members p m hset := by
    rcases Template.at?_set.mp hset with ⟨rfl, -⟩ | ⟨rest, rfl, hset⟩
    · exact ⟨0, rfl⟩
    · obtain ⟨n, rfl⟩ := h.members rest m hset
      exact ⟨n + 1, rfl⟩

lemma getElem?_listEntries {entries : Entries} {key : String} {list : Template} {i : Nat}
    {e : String × Template} (h : (listEntries entries key list)[i]? = some e) :
    (entries.map Prod.fst)[i]? = some e.1 ∧
      ((e.1 = key ∧ e.2 = list) ∨ ∃ value, e.2 = .constant value) := by
  rw [listEntries, List.getElem?_map, Option.map_eq_some_iff] at h
  obtain ⟨⟨k, value⟩, hi, rfl⟩ := h
  refine ⟨by rw [List.getElem?_map, hi]; rfl, ?_⟩
  dsimp only
  split
  · next heq => exact .inl ⟨heq, rfl⟩
  · exact .inr ⟨value, rfl⟩

/-- A list object is hygienic if its list is, as no other entry consumes anything. -/
lemma hygienic_listEntries {entries : Entries} {key : String} {list : Template}
    (hkeys : (entries.map Prod.fst).Nodup) (h : list.Hygienic) :
    (Template.object none (listEntries entries key list)).Hygienic := by
  have hconsumes : ∀ {i : Nat} {e : String × Template} {x : Variable},
      (listEntries entries key list)[i]? = some e → e.2.Consumes x →
        (entries.map Prod.fst)[i]? = some key := by
    intro i e x hi hx
    obtain ⟨hi, ⟨heq, -⟩ | ⟨value, heq⟩⟩ := getElem?_listEntries hi
    · rw [hi, heq]
    · exact absurd (heq ▸ hx) Template.consumes_constant
  refine Template.hygienic_object (fun e he => ?_) fun i j e e' x hi hj hx hx' => ?_
  · obtain ⟨i, hi⟩ := List.mem_iff_getElem?.mp he
    obtain ⟨-, ⟨-, heq⟩ | ⟨value, heq⟩⟩ := getElem?_listEntries hi
    · exact heq ▸ h
    · exact heq ▸ Template.hygienic_leaf fun _ _ => Template.at?_constant
  · have hi := hconsumes hi hx
    have hj := hconsumes hj hx'
    exact (List.getElem?_inj (List.getElem?_eq_some_iff.mp hi).1 hkeys).mp (hi.trans hj.symm)

/-- A list object is hygienic if its item is, as the variables of its slots are not inside that of
the item. -/
lemma hygienic_listObject {entries : Entries} {key : String} {value : Json} {s : Scope}
    {f : Fragment} {list : Template} (hkeys : (entries.map Prod.fst).Nodup)
    (hkey : (key, value) ∈ entries) (h : f.Hygienic (itemScope s).v)
    (hat : ∀ position part, list.at? position = some part ↔ (position = [] ∧ part = list) ∨
      ∃ rest, position = .item :: rest ∧ f.template.at? rest = some part)
    (hset : ∀ v m, list ≠ .set v m) (hown : ∀ x ∈ list.ownVariables, x.Inside s.v)
    (hexclusive : ∀ x ∈ list.exclusiveVariables, ∃ key : String,
      x = s.v.child key ∧ Naming.sanitize key.toList ≠ Naming.sanitize "item".toList)
    {f' : Fragment} (hf' : f'.template = .object none (listEntries entries key list)) :
    f'.Hygienic s.v ∧ ∀ p m, f'.template.at? p ≠ some (.set s.v m) := by
  have hslot : ∀ x ∈ list.exclusiveVariables, ¬ f.template.Consumes x := by
    intro x hx hconsumes
    obtain ⟨key, rfl, hne⟩ := hexclusive x hx
    exact hne (Variable.sanitize_eq_of_child_eq
      (Variable.child_eq_of_inside (.refl _) (h.inside _ hconsumes)))
  have hlist := Template.hygienic_of_step hat hset h.template hslot
  have hne : ∀ p m, f'.template.at? p ≠ some (.set s.v m) := by
    intro p m hp
    rw [hf'] at hp
    rcases Template.at?_object.mp hp with ⟨-, heq⟩ | ⟨i, rest, e, -, hi, hp⟩
    · cases heq
    obtain ⟨-, ⟨-, heq⟩ | ⟨value, heq⟩⟩ := getElem?_listEntries hi <;> rw [heq] at hp
    · rcases (hat _ _).mp hp with ⟨-, heq⟩ | ⟨rest, -, hp⟩
      · exact hset _ _ heq.symm
      · exact h.ne_set rest m hp
    · cases (Template.at?_constant.mp hp).2
  refine ⟨⟨hf' ▸ hygienic_listEntries hkeys hlist, fun x hx => ?_, fun p m hp => ?_⟩, hne⟩
  · rw [hf', consumes_listEntries hkey, Template.consumes_of_step hat] at hx
    rcases hx with hx | hx
    · exact hown x hx
    · exact (h.inside x hx).trans (Variable.inside_child _ _)
  · exact absurd hp (hne p m)

lemma hygienic_list {g : Grammar} {entries : Entries} {key : String} {value : Json} {s : Scope}
    {item : PatternTerm} {f f' : Fragment} (hkeys : (entries.map Prod.fst).Nodup)
    (hkey : (key, value) ∈ entries) (h : f.Hygienic (itemScope s).v)
    (hlist : ListFragment g entries key s.v item f f') :
    f'.Hygienic s.v ∧ ∀ p m, f'.template.at? p ≠ some (.set s.v m) := by
  cases hlist with
  | linked =>
    refine hygienic_listObject hkeys hkey h (fun _ _ => Template.at?_linked)
      (fun _ _ heq => by cases heq) ?_ ?_ rfl
    · simp only [Template.ownVariables, List.forall_mem_cons]
      exact ⟨.refl _, Variable.inside_child _ _, Variable.inside_child _ _, by simp⟩
    · simp only [Template.exclusiveVariables, List.forall_mem_cons]
      exact ⟨⟨"slot", rfl, by decide⟩, ⟨"rest", rfl, by decide⟩, by simp⟩
  | indexed =>
    refine hygienic_listObject hkeys hkey h (fun _ _ => Template.at?_indexed)
      (fun _ _ heq => by cases heq) ?_ ?_ rfl
    · simp only [Template.ownVariables, List.forall_mem_cons]
      exact ⟨Variable.inside_child _ _, by simp⟩
    · simp only [Template.exclusiveVariables, List.forall_mem_cons]
      exact ⟨⟨"index", rfl, by decide⟩, by simp⟩

lemma hygienic_unwrapList {f : Fragment} {v : Variable} (h : f.Hygienic v)
    (hne : ∀ p m, f.template.at? p ≠ some (.set v m)) : (unwrapList f).Hygienic v where
  template := Template.hygienic_of_step (fun _ _ => Template.at?_unwrapped)
    (fun _ _ heq => by cases heq) h.template fun x hx => by cases hx
  inside x hx := h.inside x (Template.consumes_unwrapped.mp hx)
  members p m hset := by
    rcases Template.at?_unwrapped.mp hset with ⟨-, heq⟩ | ⟨rest, -, hset⟩
    · cases heq
    · exact absurd hset (hne rest m)

/-! ### Documents -/

section

variable {g : Grammar} (hg : g.Usual)

include hg

lemma hygienic_nodeObject {R : Json → Scope → Fragment → Prop} {inner : Compiler}
    (hinner : ∀ value s f, inner .resource value s = .ok f → R value s f)
    (hR : ∀ value s f, R value s f → value.KeysDistinct → f.Unshared → f.Hygienic s.v)
    (htype : ∀ value s f, inner .typeEntry value s = .ok f → compileType value s = .ok f)
    {entries : Entries} {s : Scope} {f : Fragment} (h : compileNodeObject g inner entries s = .ok f)
    (hkeys : (Json.object entries).KeysDistinct) (hunshared : f.Unshared) : f.Hygienic s.v := by
  obtain ⟨context, identity, parts, -, hidentity, hparts, rfl⟩ :=
    compileNodeObject_eq_ok hg hinner htype h
  refine hygienic_node (s := ⟨s.v, context, none⟩) _ hidentity ?_ hunshared
  exact imp_entries_of_keysDistinct hparts hkeys fun _ _ _ hvalue hf => hR _ _ _ hf hvalue

lemma hygienic_nodeArray {R : Json → Scope → Fragment → Prop} {inner : Compiler}
    (hinner : ∀ value s f, inner .resource value s = .ok f → R value s f)
    (hR : ∀ value s f, R value s f → value.KeysDistinct → f.Unshared → f.Hygienic s.v)
    {items : List Json} {s : Scope} {f : Fragment} (h : compileNodeArray g inner items s = .ok f)
    (hkeys : ∀ item ∈ items, item.KeysDistinct) (hunshared : f.Unshared) : f.Hygienic s.v := by
  obtain ⟨template, f', rfl, hf', rfl⟩ := compileNodeArray_eq_ok hg hinner h
  exact hygienic_array (hR _ _ _ hf' (hkeys _ List.mem_cons_self)
    (unshared_of_map hunshared fun _ => rfl))

/-- Without warnings about shared variables, the fragment of every value is hygienic. -/
lemma Compiled.hygienic {value : Json} {s : Scope} {f : Fragment} (h : Compiled g value s f)
    (hkeys : value.KeysDistinct) (hunshared : f.Unshared) : f.Hygienic s.v := by
  have hlist : ∀ {inner : Compiler} {entries : Entries} {s : Scope} {f : Fragment},
      (∀ value s f, inner .resource value s = .ok f → value.KeysDistinct → f.Unshared →
        f.Hygienic s.v) →
      compileList g inner entries s = .ok f → (Json.object entries).KeysDistinct → f.Unshared →
        f.Hygienic s.v ∧ ∀ p m, f.template.at? p ≠ some (.set s.v m) := by
    intro inner entries s f hinner h hkeys hunshared
    obtain ⟨key, list, template, f', hentry, htemplate, hf', hlist⟩ := compileList_eq_ok hg hinner h
    obtain ⟨hnodup, hvalues⟩ := Json.keysDistinct_object.mp hkeys
    have hmem : (key, list) ∈ entries := List.mem_of_find?_eq_some hentry
    have hunshared' : f'.Unshared := by
      cases hlist <;> exact unshared_of_map hunshared fun _ => rfl
    exact hygienic_list hnodup hmem
      (hf' (keysDistinct_itemTemplate htemplate (hvalues _ hmem)) hunshared') hlist
  induction h with
  | null => exact hygienic_constant rfl _
  | scalar _ h => exact hygienic_scalar h
  | node hkind inner _ htype h ih =>
    obtain rfl := Kind.describes_of_eq hkind
    exact hygienic_nodeObject hg ih (fun _ _ _ => id) htype h hkeys hunshared
  | array hkind inner _ h ih =>
    obtain rfl := Kind.describes_of_eq hkind
    exact hygienic_nodeArray hg ih (fun _ _ _ => id) h (Json.keysDistinct_array.mp hkeys) hunshared
  | list hkind inner _ h ih =>
    obtain rfl := Kind.describes_of_eq hkind
    exact (hlist ih h hkeys hunshared).1
  | listArray hkind inner _ h ih =>
    obtain rfl := Kind.describes_of_eq hkind
    obtain ⟨hf, hne⟩ := hlist ih h (by simpa [wrapList, Json.keysDistinct_object] using hkeys)
      (unshared_of_map hunshared remark_dropListSegment)
    exact hygienic_unwrapList hf hne
  | unsupported => exact hygienic_constant rfl _

lemma CompiledDocument.hygienic {document : Json} {s : Scope} {f : Fragment}
    (h : CompiledDocument g document s f) (hkeys : document.KeysDistinct)
    (hunshared : f.Unshared) : f.template.Hygienic := by
  have hR : ∀ value s f, Compiled g value s f → value.KeysDistinct → f.Unshared → f.Hygienic s.v :=
    fun _ _ _ h => h.hygienic hg
  cases h with
  | array inner hinner h =>
    exact (hygienic_nodeArray hg hinner hR h (Json.keysDistinct_array.mp hkeys) hunshared).template
  | @graph entries value _ _ f _ hvalue _ inner hinner h =>
    obtain ⟨-, hvalues⟩ := Json.keysDistinct_object.mp hkeys
    have hf := hygienic_nodeArray hg hinner hR h
      (fun item => keysDistinct_graphItems (hvalues _ (mem_of_lookup_eq_some hvalue)))
      (unshared_of_map hunshared fun _ => rfl)
    refine Template.hygienic_object (fun e he => ?_) fun i j e e' x hi hj _ _ => ?_
    · cases List.mem_singleton.mp he
      exact hf.template
    · obtain ⟨hi, -⟩ := List.getElem?_eq_some_iff.mp hi
      obtain ⟨hj, -⟩ := List.getElem?_eq_some_iff.mp hj
      exact (Nat.lt_one_iff.mp hi).trans (Nat.lt_one_iff.mp hj).symm
  | node _ inner hinner htype h =>
    exact (hygienic_nodeObject hg hinner hR htype h hkeys hunshared).template
  | scalar => exact Template.hygienic_leaf fun _ _ => Template.at?_constant

end

/-- Without a warning about a shared variable, the template of a document is hygienic. With two
entries of a node that share their variable, there is such a warning at the later one: if the
elements of the lists and of the graph around the node are written in arrays. -/
theorem Grammar.compile_hygienic {g : Grammar} (hg : g.Usual) {context : Context}
    {document : Json} {q : Query} (hq : g.compile context document = .ok q)
    (hkeys : document.KeysDistinct) :
    ((∀ w ∈ q.warnings, ¬ w.IsShared) → q.template.Hygienic) ∧
      ∀ path node s key value, NodeAtDocument g context document path node s →
        SharesVariable s node key value → document.at? (path ++ [.key key]) = some value ∧
          ∃ previous, ⟨.sharedVariable previous key (s.v.child key), path ++ [.key key]⟩ ∈
            q.warnings := by
  obtain ⟨f, hf, rfl⟩ := hg.compile_eq_ok hq
  refine ⟨fun hunshared => hf.hygienic hg hkeys hunshared, fun path node s key value hnode h => ?_⟩
  obtain ⟨hat, hnodeKeys⟩ := hnode.at?_eq hkeys
  obtain ⟨i, j, earlier, value', -, -, hj, -⟩ := id h
  have hmem : (key, value) ∈ node := (List.mem_filter.mp (List.mem_of_getElem? hj)).1
  refine ⟨?_, hnode.exists_warning hg hf h⟩
  rw [Json.at?_append hat, (Json.at?_key_of_mem hnodeKeys hmem []).1, Json.at?_nil]

section

/-- Asks for the values of a node in arrays inside each other, and for a list. -/
def nestedArrays : Json :=
  .object [("@id", .string "?"), ("ex:p", .array [.array [.string "?"]]),
    ("ex:l", .object [("@list", .array [.string "?"])])]

/-- A node in a list whose entries share a variable. -/
def sharedInList : Json :=
  .object [("ex:l", .object [("@list",
    .array [.object [("ex:p", .string "?"), ("ab:p", .array [.string "?"])]])])]

/-- The scope of the items of the list of a document. -/
def listedScope : Scope := itemScope (entryScope (.root .empty) "ex:l")

theorem Grammar.compile_hygienic_both_ways :
    (∃ q, Grammar.standard.compile .empty nestedArrays = .ok q ∧ nestedArrays.KeysDistinct ∧
      (∀ w ∈ q.warnings, ¬ w.IsShared) ∧ q.template.Hygienic) ∧
    ∃ q, Grammar.standard.compile .empty sharedInList = .ok q ∧ sharedInList.KeysDistinct ∧
      sharedInList.at? [.key "ex:l", .key "@list", .index 0, .key "ab:p"] =
        some (.array [.string "?"]) ∧
      ∃ previous, ⟨.sharedVariable previous "ab:p" (listedScope.v.child "ab:p"),
        [.key "ex:l", .key "@list", .index 0, .key "ab:p"]⟩ ∈ q.warnings := by
  constructor
  · obtain ⟨q, hq, hwarnings⟩ : ∃ q, Grammar.standard.compile .empty nestedArrays = .ok q ∧
        q.warnings = [] := ⟨_, rfl, rfl⟩
    have hkeys : nestedArrays.KeysDistinct := by
      simp [nestedArrays, Json.KeysDistinct, Json.ItemsKeysDistinct, Json.EntriesKeysDistinct]
    have hunshared : ∀ w ∈ q.warnings, ¬ w.IsShared := by simp [hwarnings]
    exact ⟨q, hq, hkeys, hunshared,
      (Grammar.compile_hygienic Grammar.standard_usual hq hkeys).1 hunshared⟩
  · obtain ⟨q, hq⟩ : ∃ q, Grammar.standard.compile .empty sharedInList = .ok q := ⟨_, rfl⟩
    have hkeys : sharedInList.KeysDistinct := by
      simp [sharedInList, Json.KeysDistinct, Json.ItemsKeysDistinct, Json.EntriesKeysDistinct]
    have hnode : NodeAtDocument .standard .empty sharedInList
        [.key "ex:l", .key "@list", .index 0]
        [("ex:p", .string "?"), ("ab:p", .array [.string "?"])] listedScope :=
      .entry (by decide) rfl (List.mem_singleton.mpr rfl) rfl
        (.item rfl rfl (.node rfl rfl))
    have hshares : SharesVariable listedScope
        [("ex:p", .string "?"), ("ab:p", .array [.string "?"])] "ab:p" (.array [.string "?"]) :=
      ⟨0, 1, "ex:p", .string "?", by decide, rfl, rfl, .inr ⟨_, rfl⟩, .inr ⟨_, rfl⟩, rfl⟩
    exact ⟨q, hq, hkeys,
      (Grammar.compile_hygienic Grammar.standard_usual hq hkeys).2 _ _ _ _ _ hnode hshares⟩

/-- The node is the value of `@list` itself. -/
def sharedInBareList : Json :=
  .object [("@id", .string "ex:s"), ("ex:l", .object [("@list",
    .object [("ex:p", .string "?"), ("ab:p", .string "?")])])]

/-- The only warning about the entries of a node that is not written in an array has a path that
leads nowhere. -/
theorem shared_variable_not_located :
    ∃ q node, Grammar.standard.compile .empty sharedInBareList = .ok q ∧
      sharedInBareList.at? [.key "ex:l", .key "@list"] = some (.object node) ∧
      SharesVariable listedScope node "ab:p" (.string "?") ∧
      (∀ w ∈ q.warnings, w.path ≠ [.key "ex:l", .key "@list", .key "ab:p"]) ∧
      ∀ w ∈ q.warnings, sharedInBareList.at? w.path = none := by
  obtain ⟨q, hq, hwarnings⟩ : ∃ q, Grammar.standard.compile .empty sharedInBareList = .ok q ∧
      q.warnings = [⟨.sharedVariable "ex:p" "ab:p" (listedScope.v.child "ab:p"),
        [.key "ex:l", .key "@list", .index 0, .key "ab:p"]⟩] := ⟨_, rfl, rfl⟩
  refine ⟨q, [("ex:p", .string "?"), ("ab:p", .string "?")], hq, rfl,
    ⟨0, 1, "ex:p", .string "?", by decide, rfl, rfl, .inr ⟨_, rfl⟩, .inr ⟨_, rfl⟩, rfl⟩, ?_, ?_⟩
  · simp [hwarnings]
  · intro w hw
    rw [hwarnings] at hw
    cases List.mem_singleton.mp hw
    rfl

end

end Exemplar
