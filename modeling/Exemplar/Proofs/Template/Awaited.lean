import Exemplar.Proofs.Template.Completion

/-!
# Awaited variables

A result is only incomplete if a variable that its template awaits is bound by no solution. The
members of arrays await variables of their own: they are complete if each solution that binds the
variable of an array also binds what its members await.
-/

namespace Exemplar

namespace Template

mutual

/-- The variables without which a result is incomplete: those of the placeholders and of the chains
that are not inside an array. -/
def awaited : Template → List Variable
  | .constant _ => []
  | .native v => [v]
  | .name v _ _ => [v]
  | .typed v _ => [v]
  | .object _ entries => entriesAwaited entries
  | .set _ _ => []
  | .indexed _ _ _ => []
  | .linked list _ _ _ => [list]
  | .unwrapped _ inner => inner.awaited

def entriesAwaited : List (String × Template) → List Variable
  | [] => []
  | (_, entry) :: rest => entry.awaited ++ entriesAwaited rest

end

mutual

/-- The members of all arrays of a template, at any depth, each with the variable that tells them
apart: that of a set, of the slots of a chain, or of the positions of a list. -/
def memberTemplates : Template → List (Variable × Template)
  | .constant _ => []
  | .native _ => []
  | .name _ _ _ => []
  | .typed _ _ => []
  | .object _ entries => entriesMemberTemplates entries
  | .set v member => (v, member) :: member.memberTemplates
  | .indexed index _ member => (index, member) :: member.memberTemplates
  | .linked _ slot _ member => (slot, member) :: member.memberTemplates
  | .unwrapped _ inner => inner.memberTemplates

def entriesMemberTemplates : List (String × Template) → List (Variable × Template)
  | [] => []
  | (_, entry) :: rest => entry.memberTemplates ++ entriesMemberTemplates rest

end

/-- Whether an outcome lacks data. -/
def IsIncomplete {α : Type} (outcome : Except AnswerError α) : Prop :=
  ∃ v, outcome = .error (.incomplete v)

/-- Whether all members of an array have a property. -/
def AllMembers {κ α : Type} (P : α → Prop) (members : List (κ × α)) : Prop :=
  ∀ e ∈ members, P e.2

mutual

/-- Whether the result of no member of an array lacks data, at any depth. -/
def MembersComplete : (t : Template) → t.Filling → Prop
  | .constant _, _ => True
  | .native _, _ => True
  | .name _ _ _, _ => True
  | .typed _ _, _ => True
  | .object _ entries, fs => EntriesMembersComplete entries fs
  | .set _ member, f =>
    AllMembers (fun g => member.MembersComplete g ∧ ¬ IsIncomplete (member.result g)) f
  | .indexed _ _ member, f =>
    AllMembers (fun (slot : IndexedSlot member.Filling) =>
      member.MembersComplete slot.item ∧ ¬ IsIncomplete (member.result slot.item)) f
  | .linked _ _ _ member, f =>
    AllMembers (fun slot =>
      member.MembersComplete slot.item ∧ ¬ IsIncomplete (member.result slot.item)) (Chain.slots f)
  | .unwrapped _ inner, f => inner.MembersComplete f

def EntriesMembersComplete : (entries : List (String × Template)) →
    Template.Fillings entries → Prop
  | [], _ => True
  | (_, entry) :: rest, (f, fs) => entry.MembersComplete f ∧ EntriesMembersComplete rest fs

end

section

variable {entries : List (String × Template)}

lemma mem_entriesAwaited {v : Variable} :
    v ∈ entriesAwaited entries ↔ ∃ e ∈ entries, v ∈ e.2.awaited := by
  induction entries with
  | nil => simp [entriesAwaited]
  | cons e rest ih => simp [entriesAwaited, ih]

lemma mem_entriesMemberTemplates {m : Variable × Template} :
    m ∈ entriesMemberTemplates entries ↔ ∃ e ∈ entries, m ∈ e.2.memberTemplates := by
  induction entries with
  | nil => simp [entriesMemberTemplates]
  | cons e rest ih => simp [entriesMemberTemplates, ih]

end

end Template

/-- Whether a solution that binds the variable of an array binds all that its members await. -/
def Solution.CompletesMembers (s : Solution) (t : Template) : Prop :=
  ∀ m ∈ t.memberTemplates, s.get? m.1 ≠ none → ∀ v ∈ m.2.awaited, s.get? v ≠ none

namespace Template

/-! ### What lacks data -/

section

variable {α β : Type}

@[simp] lemma not_isIncomplete_ok (a : α) : ¬ IsIncomplete (.ok a : Except AnswerError α) := by
  rintro ⟨v, hv⟩
  cases hv

@[simp] lemma isIncomplete_error {e : AnswerError} :
    IsIncomplete (.error e : Except AnswerError α) ↔ ∃ v, e = .incomplete v := by
  simp [IsIncomplete]

lemma isIncomplete_bind {x : Except AnswerError α} {f : α → Except AnswerError β} :
    IsIncomplete (x >>= f) ↔ IsIncomplete x ∨ ∃ a, x = .ok a ∧ IsIncomplete (f a) := by
  cases x with
  | error e => simp [bind, Except.bind]
  | ok a => simp [bind, Except.bind]

lemma isIncomplete_map {x : Except AnswerError α} {f : α → β} :
    IsIncomplete (x.map f) ↔ IsIncomplete x := by
  cases x with
  | error e => simp [Except.map]
  | ok a => simp [Except.map]

lemma exists_isIncomplete_of_mapM {f : α → Except AnswerError β} {as : List α}
    (h : IsIncomplete (as.mapM f)) : ∃ a ∈ as, IsIncomplete (f a) := by
  induction as with
  | nil => exact absurd h (not_isIncomplete_ok _)
  | cons a as ih =>
    rw [List.mapM_cons, isIncomplete_bind] at h
    rcases h with h | ⟨b, -, h⟩
    · exact ⟨a, List.mem_cons_self, h⟩
    · rcases isIncomplete_bind.mp h with h | ⟨bs, -, h⟩
      · obtain ⟨a', ha', hfa'⟩ := ih h
        exact ⟨a', List.mem_cons_of_mem _ ha', hfa'⟩
      · exact absurd h (not_isIncomplete_ok _)

lemma allMembers_map {κ : Type} {P : β → Prop} {item : α → β} {l : List (κ × α)} :
    AllMembers P (l.map fun e => (e.1, item e.2)) ↔ AllMembers (fun a => P (item a)) l := by
  simp only [AllMembers, List.forall_mem_map]

variable {result : α → Except AnswerError Json}

/-- A list with positions lacks data only in one of its slots. -/
lemma exists_isIncomplete_of_indexedResult {index : Variable} {slots : List (Nat × IndexedSlot α)}
    (h : IsIncomplete (indexedResult result index slots)) :
    ∃ e ∈ slots, IsIncomplete (result e.2.item) := by
  unfold indexedResult at h
  split at h
  · simp at h
  · split at h
    · simp at h
    · obtain ⟨i, -, hi⟩ := exists_isIncomplete_of_mapM (isIncomplete_map.mp h)
      split at hi
      · next slot hslot => exact ⟨_, mem_of_lookup_eq_some hslot, hi⟩
      · simp at hi

/-- A chain lacks data only in one of its slots. -/
lemma exists_isIncomplete_of_walkChain {slots : List (Term × LinkedSlot α)} {n : Nat}
    {current : Term} (h : IsIncomplete (walkChain result slots n current)) :
    ∃ e ∈ slots, IsIncomplete (result e.2.item) := by
  fun_induction walkChain result slots n current with
  | case1 => simp at h
  | case2 => simp at h
  | case3 node slot unvisited hnil hslot ih =>
    rw [hslot] at h
    rcases isIncomplete_bind.mp h with hitem | ⟨item, -, h⟩
    · exact ⟨_, mem_of_lookup_eq_some hslot, hitem⟩
    · split at h
      · simp [throw, throwThe, MonadExceptOf.throw] at h
      · rcases isIncomplete_bind.mp h with hnext | ⟨rest, -, h⟩
        · exact ih _ hnext
        · exact absurd h (not_isIncomplete_ok _)
  | case4 unvisited node hnil hother =>
    split at h
    · simp at h
    · next hslot => exact (hother _ _ hslot rfl).elim
    · simp at h

lemma exists_isIncomplete_of_linkedResult {list : Variable} {chain : Chain α}
    (h : IsIncomplete (linkedResult result list chain)) (hhead : chain.head ≠ none) :
    ∃ e ∈ chain.slots, IsIncomplete (result e.2.item) := by
  unfold linkedResult at h
  split at h
  · next hnone => exact absurd hnone hhead
  · exact exists_isIncomplete_of_walkChain (isIncomplete_map.mp h)

lemma isIncomplete_unwrap {key : String} {x : Except AnswerError Json}
    (h : IsIncomplete (x >>= unwrap key)) : IsIncomplete x := by
  rcases isIncomplete_bind.mp h with hx | ⟨d, -, hd⟩
  · exact hx
  · unfold unwrap at hd
    repeat' split at hd
    all_goals simp at hd

end

/-! ### Folded solutions -/

section

variable {rows : List Solution} {v : Variable}

/-- A placeholder whose variable is bound does not lack data. -/
lemma not_isIncomplete_placeholder {value : Term → Except AnswerError Json} {f : Option Json}
    (hf : rows.foldlM (fun f s => fillPlaceholder v value s f) none = .ok f)
    (hbound : ∀ x ∈ [v], ∃ s ∈ rows, s.get? x ≠ none) : ¬ IsIncomplete (placeholderResult v f) := by
  obtain ⟨s, hs, hsome⟩ := hbound v (List.mem_singleton_self v)
  obtain ⟨t, ht⟩ := Option.ne_none_iff_exists'.mp hsome
  obtain ⟨d, -, hd, -, -⟩ := placeholder_of_mem hs ht hf
  rw [hd]
  exact not_isIncomplete_ok d

/-- Whether the solutions that are folded into a template leave nothing in it incomplete, as far as
they bind what it awaits. -/
def CompletedBy (t : Template) (rows : List Solution) (f : t.Filling) : Prop :=
  t.MembersComplete f ∧
    ((∀ x ∈ t.awaited, ∃ s ∈ rows, s.get? x ≠ none) → ¬ IsIncomplete (t.result f))

/-- The members of an array are complete if what they await is bound with their variable. -/
lemma Members.complete {κ : Type} [DecidableEq κ] {key? : Solution → Option κ}
    {member : Template} {members : List (κ × member.Filling)}
    (h : Members key? member rows members)
    (hkey : ∀ s k, key? s = some k → s.get? v ≠ none)
    (hbound : ∀ s ∈ rows, s.get? v ≠ none → ∀ x ∈ member.awaited, s.get? x ≠ none)
    (hmember : ∀ k g, member.addAll (group key? k rows) member.start = .ok g →
      member.CompletedBy (group key? k rows) g) :
    AllMembers (fun g => member.MembersComplete g ∧ ¬ IsIncomplete (member.result g)) members := by
  rintro ⟨k, g⟩ he
  have hlookup := (mem_iff_lookup_eq_some h.nodup).mp he
  obtain ⟨hmembers, hresult⟩ := hmember k g (h.filled k g hlookup)
  obtain ⟨s, hs, hk⟩ := (h.mem_keys k).mp (List.mem_map_of_mem he)
  refine ⟨hmembers, hresult fun x hx => ⟨s, mem_group.mpr ⟨hs, hk⟩, ?_⟩⟩
  exact hbound s hs (hkey s k hk) x hx

end

mutual

/-- If all solutions complete the members of arrays, the result only lacks data if they do not bind
what the template awaits, and the results of members do not lack data. -/
theorem completedBy_of_addAll (t : Template) {rows : List Solution} {f : t.Filling}
    (hf : t.addAll rows t.start = .ok f) (hrows : ∀ s ∈ rows, s.CompletesMembers t) :
    t.CompletedBy rows f := by
  match t with
  | .constant value => exact ⟨trivial, fun _ => not_isIncomplete_ok value⟩
  | .native v => exact ⟨trivial, not_isIncomplete_placeholder hf⟩
  | .name v _ _ => exact ⟨trivial, not_isIncomplete_placeholder hf⟩
  | .typed v _ => exact ⟨trivial, not_isIncomplete_placeholder hf⟩
  | .object declaration entries =>
    obtain ⟨hmembers, hresult⟩ := entriesCompletedBy_of_addAll entries hf hrows
    exact ⟨hmembers, fun hbound hincomplete =>
      hresult hbound (declarationEntries declaration) (isIncomplete_map.mp hincomplete)⟩
  | .set v member =>
    have hmembers := (members_of_addAll_set hf).complete (v := v) (fun s k hk => by simp [hk])
      (fun s hs => hrows s hs _ List.mem_cons_self) fun k g hg =>
        completedBy_of_addAll member hg fun s hs m hm =>
          hrows s (mem_group.mp hs).1 m (List.mem_cons_of_mem _ hm)
    refine ⟨hmembers, fun _ hincomplete => ?_⟩
    obtain ⟨e, he, hitem⟩ := exists_isIncomplete_of_mapM (isIncomplete_map.mp hincomplete)
    exact (hmembers e he).2 hitem
  | .indexed index origin member =>
    have hmembers := (members_of_addAll_indexed hf).complete (v := index)
      (fun s k hk hnone => by simp [positionOf?, hnone] at hk)
      (fun s hs => hrows s hs _ List.mem_cons_self) fun k g hg =>
        completedBy_of_addAll member hg fun s hs m hm =>
          hrows s (mem_group.mp hs).1 m (List.mem_cons_of_mem _ hm)
    have hslots := allMembers_map.mp hmembers
    refine ⟨hslots, fun _ hincomplete => ?_⟩
    obtain ⟨e, he, hitem⟩ := exists_isIncomplete_of_indexedResult hincomplete
    exact (hslots e he).2 hitem
  | .linked list slot rest member =>
    have hmembers := (members_of_addAll_linked hf).complete (v := slot) (fun s k hk => by simp [hk])
      (fun s hs => hrows s hs _ List.mem_cons_self) fun k g hg =>
        completedBy_of_addAll member hg fun s hs m hm =>
          hrows s (mem_group.mp hs).1 m (List.mem_cons_of_mem _ hm)
    have hslots := allMembers_map.mp hmembers
    refine ⟨hslots, fun hbound hincomplete => ?_⟩
    have hhead : Chain.head f ≠ none := by
      obtain ⟨s, hs, hsome⟩ := hbound list (List.mem_singleton_self list)
      rw [(addAll_linked.mp hf).1]
      exact fun hnone => hsome (List.findSome?_eq_none_iff.mp hnone s hs)
    obtain ⟨e, he, hitem⟩ := exists_isIncomplete_of_linkedResult hincomplete hhead
    exact (hslots e he).2 hitem
  | .unwrapped key inner =>
    obtain ⟨hmembers, hresult⟩ := completedBy_of_addAll inner hf hrows
    exact ⟨hmembers, fun hbound hincomplete => hresult hbound (isIncomplete_unwrap hincomplete)⟩

lemma entriesCompletedBy_of_addAll (entries : List (String × Template)) {rows : List Solution}
    {fs : Template.Fillings entries}
    (hfs : addAllEntries entries rows (startEntries entries) = .ok fs)
    (hrows : ∀ s ∈ rows, ∀ m ∈ entriesMemberTemplates entries,
      s.get? m.1 ≠ none → ∀ x ∈ m.2.awaited, s.get? x ≠ none) :
    EntriesMembersComplete entries fs ∧
      ((∀ x ∈ entriesAwaited entries, ∃ s ∈ rows, s.get? x ≠ none) →
        ∀ before, ¬ IsIncomplete (resultEntries entries fs before)) := by
  match entries with
  | [] => exact ⟨trivial, fun _ before => not_isIncomplete_ok before⟩
  | (key, t) :: rest =>
    obtain ⟨hf, hrest⟩ := addAllEntries_cons.mp hfs
    obtain ⟨hmembers, hresult⟩ := completedBy_of_addAll t hf fun s hs m hm =>
      hrows s hs m (List.mem_append_left _ hm)
    obtain ⟨hmembers', hresult'⟩ := entriesCompletedBy_of_addAll rest hrest fun s hs m hm =>
      hrows s hs m (List.mem_append_right _ hm)
    refine ⟨⟨hmembers, hmembers'⟩, fun hbound before hincomplete => ?_⟩
    rcases isIncomplete_bind.mp hincomplete with hentry | ⟨value, -, hentries⟩
    · exact hresult (fun x hx => hbound x (List.mem_append_left _ hx)) hentry
    · exact hresult' (fun x hx => hbound x (List.mem_append_right _ hx)) _ hentries

end

end Template

end Exemplar
