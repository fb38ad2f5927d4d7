import Exemplar.Proofs.Template.Grouping

/-!
# What solutions fill in

Adding a list of solutions to a template that nothing is filled in for, one rule for each kind of
template. A placeholder takes the first term of its variable, the entries of an object take all
solutions independently of each other, and a member of an array takes the solutions of its key.
-/

namespace Exemplar

/-- The first term that a variable is bound to. -/
def firstTerm? (v : Variable) (rows : List Solution) : Option Term := rows.findSome? (·.get? v)

/-- The last term that a variable is bound to. -/
def lastTerm? (v : Variable) (rows : List Solution) : Option Term :=
  rows.reverse.findSome? (·.get? v)

lemma lastTerm?_concat (v : Variable) (rows : List Solution) (s : Solution) :
    lastTerm? v (rows ++ [s]) = (s.get? v).or (lastTerm? v rows) := by
  cases h : s.get? v <;> simp [lastTerm?, h]

/-! ### Placeholders -/

lemma foldlM_fillPlaceholder (v : Variable) (value : Term → Except AnswerError Json)
    (rows : List Solution) :
    rows.foldlM (fun f s => fillPlaceholder v value s f) none =
      match firstTerm? v rows with
      | none => .ok none
      | some t => (value t).map some := by
  have hfilled : ∀ (rows : List Solution) (j : Json),
      rows.foldlM (fun f s => fillPlaceholder v value s f) (some j) = .ok (some j) := by
    intro rows j
    induction rows with
    | nil => rfl
    | cons s rest ih => simpa [fillPlaceholder, bind, Except.bind] using ih
  induction rows with
  | nil => rfl
  | cons s rest ih =>
    rw [List.foldlM_cons, firstTerm?, List.findSome?_cons]
    cases hs : s.get? v with
    | none => simpa [fillPlaceholder, hs, bind, Except.bind, firstTerm?] using ih
    | some t =>
      cases ht : value t with
      | error e => simp [fillPlaceholder, hs, ht, bind, Except.bind, Except.map]
      | ok j => simpa [fillPlaceholder, hs, ht, bind, Except.bind, Except.map] using hfilled rest j

/-! ### One group at a time -/

section

variable {α ε σ : Type}

/-- A group starts with what is fresh for its first row. -/
lemma foldlM_addToOne_cons {fresh : σ → α} {change : σ → α → Except ε α} {s : σ} {rows : List σ} :
    (s :: rows).foldlM (addToOne fresh change) none =
      ((s :: rows).foldlM (fun a s => change s a) (fresh s)).map some := by
  have hsome : ∀ (rows : List σ) (a : α), rows.foldlM (addToOne fresh change) (some a) =
      (rows.foldlM (fun a s => change s a) a).map some := by
    intro rows
    induction rows with
    | nil => intro a; rfl
    | cons s rest ih =>
      intro a
      rw [List.foldlM_cons, List.foldlM_cons]
      cases h : change s a with
      | error e => simp [addToOne, h, Except.map, bind, Except.bind]
      | ok b => simpa [addToOne, h, Except.map, bind, Except.bind] using ih b
  rw [List.foldlM_cons, List.foldlM_cons]
  cases h : change s (fresh s) with
  | error e => simp [addToOne, h, Except.map, bind, Except.bind]
  | ok b => simpa [addToOne, h, Except.map, bind, Except.bind] using hsome rows b

/-- What is fresh for each row alike is what a group starts with. -/
lemma foldlM_addToOne_const {start : α} {change : σ → α → Except ε α} {rows : List σ} {a : α} :
    rows.foldlM (addToOne (fun _ => start) change) none = .ok (some a) ↔
      rows ≠ [] ∧ rows.foldlM (fun a s => change s a) start = .ok a := by
  cases rows with
  | nil => simp [pure, Except.pure]
  | cons s rest =>
    rw [foldlM_addToOne_cons, map_eq_ok]
    simp

/-- Where rows change one part of a value only, the part can be computed alone. -/
lemma foldlM_map {β : Type} {add : σ → β → Except ε β} {change : σ → α → Except ε α}
    {part : α → β} {rebuild : σ → α → β → α}
    (hchange : ∀ s a, change s a = (add s (part a)).map (rebuild s a))
    (hpart : ∀ s a b, part (rebuild s a b) = b) {rows : List σ} {a a' : α}
    (h : rows.foldlM (fun a s => change s a) a = .ok a') :
    rows.foldlM (fun b s => add s b) (part a) = .ok (part a') := by
  induction rows generalizing a with
  | nil => cases h; rfl
  | cons s rest ih =>
    rw [List.foldlM_cons, bind_eq_ok] at h ⊢
    obtain ⟨m, hm, hrest⟩ := h
    rw [hchange, map_eq_ok] at hm
    obtain ⟨b, hb, rfl⟩ := hm
    exact ⟨b, hb, by simpa [hpart] using ih hrest⟩

lemma exists_foldlM_map {β : Type} {add : σ → β → Except ε β} {change : σ → α → Except ε α}
    {part : α → β} {rebuild : σ → α → β → α}
    (hchange : ∀ s a, change s a = (add s (part a)).map (rebuild s a))
    (hpart : ∀ s a b, part (rebuild s a b) = b) {rows : List σ} {a : α} {b : β}
    (h : rows.foldlM (fun b s => add s b) (part a) = .ok b) :
    ∃ a', rows.foldlM (fun a s => change s a) a = .ok a' := by
  induction rows generalizing a with
  | nil => exact ⟨a, rfl⟩
  | cons s rest ih =>
    rw [List.foldlM_cons, bind_eq_ok] at h
    obtain ⟨m, hm, hrest⟩ := h
    obtain ⟨a', ha'⟩ := ih (a := rebuild s a m) (by simpa [hpart] using hrest)
    refine ⟨a', ?_⟩
    rw [List.foldlM_cons, bind_eq_ok]
    exact ⟨_, by rw [hchange, hm]; rfl, ha'⟩

/-- If a value is a part and what is kept beside it, the part can be computed alone. -/
lemma foldlM_eq_ok_iff_part {β γ : Type} (part : α → β) (other : α → γ)
    (rebuild : σ → α → β → α) {add : σ → β → Except ε β} {change : σ → α → Except ε α}
    (hchange : ∀ s a, change s a = (add s (part a)).map (rebuild s a))
    (hpart : ∀ s a b, part (rebuild s a b) = b)
    (hext : ∀ a b, part a = part b → other a = other b → a = b) {rows : List σ} {a : α} {c : γ}
    (hother : ∀ b, rows.foldlM (fun a s => change s a) a = .ok b → other b = c) {b : α} :
    rows.foldlM (fun a s => change s a) a = .ok b ↔
      rows.foldlM (fun b s => add s b) (part a) = .ok (part b) ∧ other b = c := by
  constructor
  · exact fun h => ⟨foldlM_map hchange hpart h, hother b h⟩
  · rintro ⟨h, hb⟩
    obtain ⟨b', hb'⟩ := exists_foldlM_map hchange hpart h
    have heq := Except.ok.inj ((foldlM_map hchange hpart hb').symm.trans h)
    rw [hb', hext b' b heq ((hother b' hb').trans hb.symm)]

end

namespace Template

lemma addAll_constant (value : Json) (rows : List Solution) (f : (constant value).Filling) :
    (Template.constant value).addAll rows f = .ok f := by
  unfold addAll
  induction rows with
  | nil => rfl
  | cons s rest ih => exact ih

/-! ### Objects -/

/-- Adds solutions to what has been filled in for the entries of an object. -/
def addAllEntries (entries : List (String × Template)) (rows : List Solution)
    (fs : Template.Fillings entries) : Except AnswerError (Template.Fillings entries) :=
  rows.foldlM (fun fs s => Template.addEntries s entries fs) fs

lemma addAllEntries_nil (rows : List Solution) : addAllEntries [] rows () = .ok () := by
  induction rows with
  | nil => rfl
  | cons s rest ih => exact ih

/-- The first entry and the others take the same solutions on their own. -/
lemma addAllEntries_cons {key : String} {t : Template} {entries : List (String × Template)}
    {rows : List Solution} {fs fs' : Template.Fillings ((key, t) :: entries)} :
    addAllEntries ((key, t) :: entries) rows fs = .ok fs' ↔
      t.addAll rows fs.1 = .ok fs'.1 ∧ addAllEntries entries rows fs.2 = .ok fs'.2 := by
  simp only [addAll, addAllEntries]
  induction rows generalizing fs with
  | nil =>
    simp only [List.foldlM_nil, pure, Except.pure, Except.ok.injEq]
    exact Prod.ext_iff
  | cons s rest ih =>
    rw [List.foldlM_cons, List.foldlM_cons, List.foldlM_cons]
    constructor
    · intro h
      obtain ⟨_, hs, hrest⟩ := bind_eq_ok.mp h
      obtain ⟨f, hf, htail⟩ := bind_eq_ok.mp hs
      obtain ⟨fs₁, hfs, heq⟩ := bind_eq_ok.mp htail
      cases heq
      obtain ⟨hf', hfs'⟩ := ih.mp hrest
      exact ⟨bind_eq_ok.mpr ⟨f, hf, hf'⟩, bind_eq_ok.mpr ⟨fs₁, hfs, hfs'⟩⟩
    · rintro ⟨hf, hfs⟩
      obtain ⟨f, hf, hf'⟩ := bind_eq_ok.mp hf
      obtain ⟨fs₁, hfs, hfs'⟩ := bind_eq_ok.mp hfs
      refine bind_eq_ok.mpr ⟨(f, fs₁), ?_, ih.mpr ⟨hf', hfs'⟩⟩
      exact bind_eq_ok.mpr ⟨f, hf, bind_eq_ok.mpr ⟨fs₁, hfs, rfl⟩⟩

/-! ### Arrays -/

/-- The members of an array by their keys: each has taken the solutions of its key. -/
structure Members {κ : Type} [DecidableEq κ] (key? : Solution → Option κ) (member : Template)
    (rows : List Solution) (members : List (κ × member.Filling)) : Prop where
  nodup : (members.map Prod.fst).Nodup
  mem_keys (k : κ) : k ∈ members.map Prod.fst ↔ ∃ s ∈ rows, key? s = some k
  filled (k : κ) (f : member.Filling) (h : members.lookup k = some f) :
    member.addAll (group key? k rows) member.start = .ok f

section

variable {κ α : Type} [DecidableEq κ] {key? : Solution → Option κ} {member : Template}
  {rows : List Solution} {fresh : Solution → α} {change : Solution → α → Except AnswerError α}

/-- If what is kept for a key has an item that takes the solutions on its own, the items are the
members of an array. -/
lemma members_of_foldlM (item : α → member.Filling)
    (rebuild : Solution → α → member.Filling → α) {slots : List (κ × α)}
    (hfresh : ∀ s, item (fresh s) = member.start)
    (hchange : ∀ s a, change s a = (member.add s (item a)).map (rebuild s a))
    (hitem : ∀ s a f, item (rebuild s a f) = f)
    (h : rows.foldlM (addToGroup key? fresh change) [] = .ok slots) :
    Members key? member rows (slots.map fun slot => (slot.1, item slot.2)) := by
  have hgrouped := grouped_of_foldlM h
  refine ⟨?_, fun k => ?_, fun k f hf => ?_⟩
  · rw [List.map_map]
    exact hgrouped.nodup
  · rw [List.map_map]
    exact hgrouped.mem_keys
  · rw [lookup_map_snd, Option.map_eq_some_iff] at hf
    obtain ⟨a, ha, rfl⟩ := hf
    have hrows := hgrouped.lookup k
    rw [ha] at hrows
    cases hgroup : group key? k rows with
    | nil => rw [hgroup] at hrows; cases hrows
    | cons s rest =>
      rw [hgroup, foldlM_addToOne_cons, map_eq_ok] at hrows
      obtain ⟨a', ha', heq⟩ := hrows
      cases heq
      rw [addAll, ← hfresh s]
      exact foldlM_map hchange hitem ha'

/-- If each member can take the solutions of its key, all solutions can be added. -/
lemma exists_foldlM_members (item : α → member.Filling)
    (rebuild : Solution → α → member.Filling → α)
    (hfresh : ∀ s, item (fresh s) = member.start)
    (hchange : ∀ s a, change s a = (member.add s (item a)).map (rebuild s a))
    (hitem : ∀ s a f, item (rebuild s a f) = f)
    (h : ∀ s ∈ rows, ∀ k, key? s = some k →
      ∃ f, member.addAll (group key? k rows) member.start = .ok f) :
    ∃ slots, rows.foldlM (addToGroup key? fresh change) [] = .ok slots := by
  refine exists_foldlM_addToGroup fun k => ?_
  cases hgroup : group key? k rows with
  | nil => exact ⟨none, rfl⟩
  | cons s rest =>
    have hs : s ∈ group key? k rows := by rw [hgroup]; exact List.mem_cons_self
    obtain ⟨f, hf⟩ := h s (mem_group.mp hs).1 k (mem_group.mp hs).2
    rw [hgroup, addAll, ← hfresh s] at hf
    obtain ⟨a, ha⟩ := exists_foldlM_map hchange hitem hf
    exact ⟨some a, by rw [foldlM_addToOne_cons, ha]; rfl⟩

end

/-! #### Sets -/

lemma addAll_set {v : Variable} {member : Template} (rows : List Solution)
    (members : List (Term × member.Filling)) :
    (Template.set v member).addAll rows members =
      rows.foldlM (addToGroup (·.get? v) (fun _ => member.start) member.add) members := by
  unfold addAll
  congr
  funext members s
  change addMember v member.start (member.add s) s members = _
  unfold addMember addToGroup
  cases h : s.get? v <;> simp only [h]

/-- The members of a set are told apart by the term of its variable. -/
lemma members_of_addAll_set {v : Variable} {member : Template} {rows : List Solution}
    {members : List (Term × member.Filling)}
    (h : (Template.set v member).addAll rows [] = .ok members) :
    Members (·.get? v) member rows members := by
  rw [addAll_set] at h
  simpa using members_of_foldlM id (fun _ _ f => f) (fun _ => rfl)
    (fun s a => by cases h : member.add s a <;> simp [h, Except.map])
    (fun _ _ _ => rfl) h

lemma exists_addAll_set {v : Variable} {member : Template} {rows : List Solution}
    (h : ∀ s ∈ rows, ∀ k, s.get? v = some k →
      ∃ f, member.addAll (group (·.get? v) k rows) member.start = .ok f) :
    ∃ members, (Template.set v member).addAll rows [] = .ok members := by
  simp only [addAll_set]
  exact exists_foldlM_members id (fun _ _ f => f) (fun _ => rfl)
    (fun s a => by cases h : member.add s a <;> simp [h, Except.map])
    (fun _ _ _ => rfl) h

/-! #### Linked lists -/

/-- What a solution does to the slot of a chain that it binds. -/
def changeSlot (rest : Variable) (member : Template) (s : Solution)
    (slot : LinkedSlot member.Filling) : Except AnswerError (LinkedSlot member.Filling) :=
  (member.add s slot.item).map fun item => ⟨(s.get? rest).or slot.rest, item⟩

lemma addAll_linked {list slot rest : Variable} {member : Template} {rows : List Solution}
    {chain chain' : Chain member.Filling} :
    (Template.linked list slot rest member).addAll rows chain = .ok chain' ↔
      chain'.head = chain.head.or (firstTerm? list rows) ∧
      rows.foldlM (addToGroup (·.get? slot) (fun _ => ⟨none, member.start⟩)
        (changeSlot rest member)) chain.slots = .ok chain'.slots := by
  have hadd : ∀ (s : Solution) (chain : Chain member.Filling),
      addLinked list slot rest member.start (member.add s) s chain =
        (addToGroup (·.get? slot) (fun _ => ⟨none, member.start⟩) (changeSlot rest member)
          chain.slots s).map fun slots => ⟨chain.head.or (s.get? list), slots⟩ := by
    intro s chain
    unfold addLinked addToGroup
    cases h : s.get? slot <;> simp only [h] <;> rfl
  change rows.foldlM (fun (chain : Chain member.Filling) s =>
    addLinked list slot rest member.start (member.add s) s chain) chain = .ok chain' ↔ _
  induction rows generalizing chain with
  | nil =>
    obtain ⟨head, slots⟩ := chain
    obtain ⟨head', slots'⟩ := chain'
    simp [firstTerm?, pure, Except.pure, eq_comm]
  | cons s rows ih =>
    have hfirst : firstTerm? list (s :: rows) = (s.get? list).or (firstTerm? list rows) := by
      cases h : s.get? list <;> simp [firstTerm?, h]
    rw [List.foldlM_cons, List.foldlM_cons, hfirst, ← Option.or_assoc, hadd]
    constructor
    · intro h
      obtain ⟨_, hs, hrows⟩ := bind_eq_ok.mp h
      obtain ⟨slots, hslots, rfl⟩ := map_eq_ok.mp hs
      obtain ⟨hhead, hrest⟩ := ih.mp hrows
      exact ⟨hhead, bind_eq_ok.mpr ⟨slots, hslots, hrest⟩⟩
    · rintro ⟨hhead, hrows⟩
      obtain ⟨slots, hslots, hrest⟩ := bind_eq_ok.mp hrows
      exact bind_eq_ok.mpr ⟨_, map_eq_ok.mpr ⟨slots, hslots, rfl⟩, ih.mpr ⟨hhead, hrest⟩⟩

/-- The successor of a slot is the last one that is given. -/
lemma rest_of_foldlM_changeSlot {rest : Variable} {member : Template} {rows : List Solution}
    {slot slot' : LinkedSlot member.Filling}
    (h : rows.foldlM (fun slot s => changeSlot rest member s slot) slot = .ok slot') :
    slot'.rest = (lastTerm? rest rows).or slot.rest := by
  induction rows using List.reverseRecOn generalizing slot' with
  | nil => cases h; rfl
  | append_singleton rows s ih =>
    obtain ⟨m, hm, hs⟩ := foldlM_concat_eq_ok.mp h
    obtain ⟨item, -, rfl⟩ := map_eq_ok.mp hs
    rw [ih hm, lastTerm?_concat, Option.or_assoc]

/-- The slots of a chain are told apart by their terms. -/
lemma members_of_addAll_linked {list slot rest : Variable} {member : Template}
    {rows : List Solution} {chain : Chain member.Filling}
    (h : (Template.linked list slot rest member).addAll rows ⟨none, []⟩ = .ok chain) :
    Members (·.get? slot) member rows (chain.slots.map fun e => (e.1, e.2.item)) :=
  members_of_foldlM LinkedSlot.item (fun s slot item => ⟨(s.get? rest).or slot.rest, item⟩)
    (fun _ => rfl) (fun _ _ => rfl) (fun _ _ _ => rfl) (addAll_linked.mp h).2

lemma rest_of_addAll_linked {list slot rest : Variable} {member : Template}
    {rows : List Solution} {chain : Chain member.Filling}
    (h : (Template.linked list slot rest member).addAll rows ⟨none, []⟩ = .ok chain)
    {k : Term} {s : LinkedSlot member.Filling} (hs : chain.slots.lookup k = some s) :
    s.rest = lastTerm? rest (group (·.get? slot) k rows) := by
  have hk := (grouped_of_foldlM (addAll_linked.mp h).2).lookup k
  rw [hs, foldlM_addToOne_const] at hk
  simpa using rest_of_foldlM_changeSlot hk.2

lemma exists_addAll_linked (list rest : Variable) {slot : Variable} {member : Template}
    {rows : List Solution}
    (h : ∀ s ∈ rows, ∀ k, s.get? slot = some k →
      ∃ f, member.addAll (group (·.get? slot) k rows) member.start = .ok f) :
    ∃ chain, (Template.linked list slot rest member).addAll rows ⟨none, []⟩ = .ok chain := by
  obtain ⟨slots, hslots⟩ := exists_foldlM_members LinkedSlot.item
    (fun s slot item => ⟨(s.get? rest).or slot.rest, item⟩)
    (fun s => (rfl : (⟨none, member.start⟩ : LinkedSlot member.Filling).item = member.start))
    (fun s slot => (rfl : changeSlot rest member s slot = _)) (fun _ _ _ => rfl) h
  exact ⟨⟨firstTerm? list rows, slots⟩, addAll_linked.mpr ⟨rfl, hslots⟩⟩

/-! #### Indexed lists -/

/-- The position of a solution in an indexed list. -/
def positionOf? (index : Variable) (origin : Int) (s : Solution) : Option Nat :=
  (s.get? index).bind (position? origin)

/-- What is fresh for a position. -/
def freshSlot (index : Variable) (member : Template) (s : Solution) :
    IndexedSlot member.Filling :=
  ⟨(s.get? index).getD (.iri default), member.start⟩

/-- What a solution does to its position. -/
def changeItem (member : Template) (s : Solution) (slot : IndexedSlot member.Filling) :
    Except AnswerError (IndexedSlot member.Filling) :=
  (member.add s slot.item).map fun item => { slot with item }

/-- A position keeps its first index term. -/
lemma index_of_foldlM_changeItem {member : Template} {rows : List Solution}
    {slot slot' : IndexedSlot member.Filling}
    (h : rows.foldlM (fun slot s => changeItem member s slot) slot = .ok slot') :
    slot'.index = slot.index := by
  induction rows using List.reverseRecOn generalizing slot' with
  | nil => cases h; rfl
  | append_singleton rows s ih =>
    obtain ⟨m, hm, hs⟩ := foldlM_concat_eq_ok.mp h
    obtain ⟨item, -, rfl⟩ := map_eq_ok.mp hs
    exact (ih hm : m.index = slot.index)

/-- Solutions can be added as long as all their index terms stand for positions. -/
lemma addAll_indexed {index : Variable} {origin : Int} {member : Template}
    {rows : List Solution} {slots slots' : List (Nat × IndexedSlot member.Filling)} :
    (Template.indexed index origin member).addAll rows slots = .ok slots' ↔
      (∀ s ∈ rows, (s.get? index).isSome → (positionOf? index origin s).isSome) ∧
      rows.foldlM (addToGroup (positionOf? index origin) (freshSlot index member)
        (changeItem member)) slots = .ok slots' := by
  have hadd : ∀ (s : Solution) (slots middle : List (Nat × IndexedSlot member.Filling)),
      addIndexed index origin member.start (member.add s) s slots = .ok middle ↔
        ((s.get? index).isSome → (positionOf? index origin s).isSome) ∧
        addToGroup (positionOf? index origin) (freshSlot index member) (changeItem member)
          slots s = .ok middle := by
    intro s slots middle
    cases hindex : s.get? index with
    | none => simp [addIndexed, addToGroup, positionOf?, hindex]
    | some t =>
      cases hposition : position? origin t with
      | none => simp [addIndexed, positionOf?, hindex, hposition]
      | some position =>
        have hchange : changeItem member s = fun slot =>
          (member.add s slot.item).map fun item => { slot with item } := rfl
        simp [addIndexed, addToGroup, positionOf?, freshSlot, hchange, hindex, hposition]
  change rows.foldlM (fun (slots : List (Nat × IndexedSlot member.Filling)) s =>
    addIndexed index origin member.start (member.add s) s slots) slots = .ok slots' ↔ _
  induction rows generalizing slots with
  | nil => simp
  | cons s rows ih =>
    simp only [List.foldlM_cons, bind_eq_ok, hadd, ih, List.forall_mem_cons]
    constructor
    · rintro ⟨middle, ⟨hs, hmiddle⟩, hrest, hrows⟩
      exact ⟨⟨hs, hrest⟩, middle, hmiddle, hrows⟩
    · rintro ⟨⟨hs, hrest⟩, middle, hmiddle, hrows⟩
      exact ⟨middle, ⟨hs, hmiddle⟩, hrest, hrows⟩

/-- The items of an indexed list are told apart by their positions. -/
lemma members_of_addAll_indexed {index : Variable} {origin : Int} {member : Template}
    {rows : List Solution} {slots : List (Nat × IndexedSlot member.Filling)}
    (h : (Template.indexed index origin member).addAll rows [] = .ok slots) :
    Members (positionOf? index origin) member rows (slots.map fun e => (e.1, e.2.item)) :=
  members_of_foldlM IndexedSlot.item (fun _ slot item => { slot with item })
    (fun _ => rfl) (fun _ _ => rfl) (fun _ _ _ => rfl) (addAll_indexed.mp h).2

/-- The first solution of a position has the first index term. -/
lemma exists_freshSlot {index : Variable} {origin : Int} {rows own : List Solution} {k : Nat}
    {s : Solution} (member : Template)
    (hgroup : group (positionOf? index origin) k rows = s :: own) :
    ∃ t, firstTerm? index (s :: own) = some t ∧ freshSlot index member s = ⟨t, member.start⟩ := by
  have hs : s ∈ group (positionOf? index origin) k rows := hgroup ▸ List.mem_cons_self
  obtain ⟨t, ht, -⟩ := Option.bind_eq_some_iff.mp (mem_group.mp hs).2
  exact ⟨t, by simp [firstTerm?, ht], by simp [freshSlot, ht]⟩

lemma index_of_addAll_indexed {index : Variable} {origin : Int} {member : Template}
    {rows : List Solution} {slots : List (Nat × IndexedSlot member.Filling)}
    (h : (Template.indexed index origin member).addAll rows [] = .ok slots)
    {k : Nat} {slot : IndexedSlot member.Filling} (hslot : slots.lookup k = some slot) :
    firstTerm? index (group (positionOf? index origin) k rows) = some slot.index := by
  have hk := (grouped_of_foldlM (addAll_indexed.mp h).2).lookup k
  rw [hslot] at hk
  cases hgroup : group (positionOf? index origin) k rows with
  | nil => rw [hgroup] at hk; cases hk
  | cons s own =>
    obtain ⟨t, ht, hfresh⟩ := exists_freshSlot member hgroup
    rw [hgroup, foldlM_addToOne_cons, hfresh, map_eq_ok] at hk
    obtain ⟨slot', hslot', heq⟩ := hk
    cases heq
    rw [ht, index_of_foldlM_changeItem hslot']

lemma exists_addAll_indexed {index : Variable} {origin : Int} {member : Template}
    {rows : List Solution}
    (hposition : ∀ s ∈ rows, (s.get? index).isSome → (positionOf? index origin s).isSome)
    (h : ∀ s ∈ rows, ∀ k, positionOf? index origin s = some k →
      ∃ f, member.addAll (group (positionOf? index origin) k rows) member.start = .ok f) :
    ∃ slots, (Template.indexed index origin member).addAll rows [] = .ok slots := by
  obtain ⟨slots, hslots⟩ := exists_foldlM_members IndexedSlot.item
    (fun _ slot item => { slot with item })
    (fun s => (rfl : (freshSlot index member s).item = member.start))
    (fun s slot => (rfl : changeItem member s slot = _)) (fun _ _ _ => rfl) h
  exact ⟨slots, addAll_indexed.mpr ⟨hposition, hslots⟩⟩

end Template

end Exemplar
