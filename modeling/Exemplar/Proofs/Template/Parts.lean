import Exemplar.Proofs.Template.Folding
import Exemplar.Proofs.Template.Unfilled

/-!
# Parts of results

Which solutions a part of a result comes from: an entry of an object from all of them, an item of
an array from those of one member.
-/

namespace Exemplar.Template

/-- Whether a document is the result of a template for some solutions. -/
def Gives (t : Template) (rows : List Solution) (d : Json) : Prop :=
  ∃ f, t.addAll rows t.start = .ok f ∧ t.result f = .ok d

/-! ### Entries -/

lemma lookup_entry {entries : List (String × Template)} {rows : List Solution}
    {fs : Template.Fillings entries} {before as : Entries} {key : String} {d : Json}
    (hfs : addAllEntries entries rows (startEntries entries) = .ok fs)
    (has : resultEntries entries fs before = .ok as) (hd : as.lookup key = some d) :
    (∃ t, (key, t) ∈ entries ∧ t.Gives rows d) ∨ before.lookup key = some d := by
  induction entries generalizing before with
  | nil =>
    cases has
    exact .inr hd
  | cons e rest ih =>
    obtain ⟨k, t⟩ := e
    obtain ⟨hf, hrest⟩ := addAllEntries_cons.mp hfs
    obtain ⟨value, hvalue, has⟩ := bind_eq_ok.mp has
    rcases ih hrest has with ⟨t', ht', hgives⟩ | hbefore
    · exact .inl ⟨t', List.mem_cons_of_mem _ ht', hgives⟩
    · rw [Entries.lookup_insert] at hbefore
      split at hbefore
      · next hkey =>
        cases hbefore
        exact .inl ⟨t, by simp [hkey], fs.1, hf, hvalue⟩
      · exact .inr hbefore

/-- An entry of an object is the result of a template with its key. -/
lemma Gives.lookup {entries : List (String × Template)} {rows : List Solution} {as : Entries}
    {key : String} {d : Json} (h : (Template.object none entries).Gives rows (.object as))
    (hd : as.lookup key = some d) : ∃ t, (key, t) ∈ entries ∧ t.Gives rows d := by
  obtain ⟨fs, hfs, hresult⟩ := h
  obtain ⟨as', has, heq⟩ := map_eq_ok.mp hresult
  cases heq
  rcases lookup_entry hfs has hd with hentry | hbefore
  · exact hentry
  · simp [declarationEntries] at hbefore

/-! ### Items -/

/-- An item of a set is the result of its member for the solutions of one term. -/
lemma Gives.set_item {v : Variable} {member : Template} {rows : List Solution}
    {items : List Json} {item : Json} (h : (Template.set v member).Gives rows (.array items))
    (hitem : item ∈ items) :
    ∃ k, (∃ s ∈ rows, s.get? v = some k) ∧ member.Gives (group (·.get? v) k rows) item := by
  obtain ⟨(f : List (Term × member.Filling)), hf, hresult⟩ := h
  have hmembers := members_of_addAll_set hf
  obtain ⟨items', hitems, heq⟩ := map_eq_ok.mp hresult
  cases heq
  obtain ⟨⟨k, g⟩, hmem, hg⟩ := exists_mem_left (mapM_eq_ok.mp hitems) hitem
  have hlookup := (mem_iff_lookup_eq_some hmembers.nodup).mp hmem
  exact ⟨k, (hmembers.mem_keys k).mp (List.mem_map_of_mem hmem), g, hmembers.filled k g hlookup, hg⟩

/-- A chain ends at the empty list, or has an item and a successor from which it goes on. -/
lemma walkChain_eq_ok {α : Type} {result : α → Except AnswerError Json}
    {slots : List (Term × LinkedSlot α)} {n : Nat} {current : Term} {items : List Json} :
    walkChain result slots n current = .ok items ↔
      (current = .iri Iri.rdfNil ∧ items = []) ∨
      (current ≠ .iri Iri.rdfNil ∧ ∃ m node slot next item rest, n = m + 1 ∧
        current = .node node ∧ slots.lookup current = some slot ∧
        result slot.item = .ok item ∧ slot.rest = some next ∧
        walkChain result slots m next = .ok rest ∧ items = item :: rest) := by
  rw [walkChain.eq_def]
  dsimp only
  by_cases hnil : current = .iri Iri.rdfNil
  · simp [hnil, eq_comm]
  · rw [if_neg hnil]
    simp only [hnil, false_and, false_or, not_false_eq_true, true_and, ne_eq]
    cases current with
    | literal l => simp
    | node node =>
      cases hslot : slots.lookup (.node node) with
      | none => simp
      | some slot =>
        cases n with
        | zero => simp
        | succ m =>
          simp only [bind_eq_ok]
          cases hrest : slot.rest with
          | none => simp [throw, throwThe, MonadExceptOf.throw, hrest]
          | some next =>
            simp only [bind_eq_ok]
            simp [pure, Except.pure, hrest, eq_comm (b := items)]

lemma mem_walkChain {α : Type} {result : α → Except AnswerError Json}
    {slots : List (Term × LinkedSlot α)} {n : Nat} {current : Term} {items : List Json}
    (h : walkChain result slots n current = .ok items) {item : Json} (hitem : item ∈ items) :
    ∃ k slot, slots.lookup k = some slot ∧ result slot.item = .ok item := by
  induction n generalizing current items with
  | zero =>
    rcases walkChain_eq_ok.mp h with ⟨-, rfl⟩ | ⟨-, m, node, slot, next, first, rest, hm, -⟩
    · cases hitem
    · cases hm
  | succ n ih =>
    rcases walkChain_eq_ok.mp h with
      ⟨-, rfl⟩ | ⟨-, m, node, slot, next, first, rest, hm, -, hslot, hfirst, -, hrest, rfl⟩
    · cases hitem
    · cases hm
      rcases List.mem_cons.mp hitem with rfl | hitem
      · exact ⟨_, slot, hslot, hfirst⟩
      · exact ih hrest hitem

/-- An item of a chain is the result of its member for the solutions of one slot. -/
lemma Gives.linked_item {list slot rest : Variable} {member : Template} {rows : List Solution}
    {items : List Json} {item : Json}
    (h : (Template.linked list slot rest member).Gives rows (.array items))
    (hitem : item ∈ items) :
    ∃ k, (∃ s ∈ rows, s.get? slot = some k) ∧ member.Gives (group (·.get? slot) k rows) item := by
  obtain ⟨(chain : Chain member.Filling), hchain, hresult⟩ := h
  have hmembers := members_of_addAll_linked hchain
  change linkedResult member.result list chain = .ok (.array items) at hresult
  unfold linkedResult at hresult
  split at hresult
  · cases hresult
  · obtain ⟨items', hitems, heq⟩ := map_eq_ok.mp hresult
    cases heq
    obtain ⟨k, s, hs, hresult⟩ := mem_walkChain hitems hitem
    have hlookup : (chain.slots.map fun e => (e.1, e.2.item)).lookup k = some s.item := by
      rw [lookup_map_snd, hs]
      rfl
    have hkey : k ∈ (chain.slots.map fun e => (e.1, e.2.item)).map Prod.fst := by
      rw [mem_keys_iff_lookup_isSome, hlookup]
      rfl
    exact ⟨k, (hmembers.mem_keys k).mp hkey, s.item, hmembers.filled k _ hlookup, hresult⟩

/-- The last position is that of a slot, and no slot is behind it. -/
lemma lastPosition?_spec {α : Type} (slots : List (Nat × IndexedSlot α)) :
    (lastPosition? slots = none ↔ slots = []) ∧
      ∀ e, lastPosition? slots = some e → e ∈ slots ∧ ∀ e' ∈ slots, e'.1 ≤ e.1 := by
  induction slots with
  | nil => simp [lastPosition?]
  | cons slot rest ih =>
    cases hlast : lastPosition? rest with
    | none =>
      have hrest := ih.1.mp hlast
      subst hrest
      simp [lastPosition?]
    | some other =>
      obtain ⟨hmem, hle⟩ := ih.2 other hlast
      refine ⟨by simp [lastPosition?, hlast], fun e he => ?_⟩
      simp only [lastPosition?, hlast, Option.some.injEq] at he
      by_cases hlt : slot.1 < other.1
      · rw [if_pos hlt] at he
        subst he
        refine ⟨List.mem_cons_of_mem _ hmem, List.forall_mem_cons.mpr ⟨Nat.le_of_lt hlt, hle⟩⟩
      · rw [if_neg hlt] at he
        subst he
        refine ⟨List.mem_cons_self, List.forall_mem_cons.mpr ⟨Nat.le_refl _, fun e' he' => ?_⟩⟩
        exact Nat.le_trans (hle e' he') (Nat.not_lt.mp hlt)

/-- The item at a position, an empty object where there is none. -/
def itemAt {α : Type} (result : α → Except AnswerError Json) (slots : List (Nat × IndexedSlot α))
    (position : Nat) : Except AnswerError Json :=
  match slots.lookup position with
  | some slot => result slot.item
  | none => .ok (.object [])

lemma indexedResult_eq_ok {α : Type} {result : α → Except AnswerError Json} {index : Variable}
    {slots : List (Nat × IndexedSlot α)} {d : Json} :
    indexedResult result index slots = .ok d ↔
      (lastPosition? slots = none ∧ d = .array []) ∨
      ∃ e, lastPosition? slots = some e ∧ e.1 + 1 - slots.length ≤ maxMissing ∧
        ∃ as, (List.range (e.1 + 1)).mapM (itemAt result slots) = .ok as ∧ d = .array as := by
  unfold indexedResult
  cases lastPosition? slots with
  | none => simp [eq_comm]
  | some e =>
    by_cases h : maxMissing < e.1 + 1 - slots.length
    · simp only [if_pos h, Option.some.injEq, exists_eq_left', reduceCtorEq, false_and, false_or,
        Nat.not_le.mpr h]
    · simp only [if_neg h, map_eq_ok, Option.some.injEq, exists_eq_left', reduceCtorEq, false_and,
        false_or, Nat.not_lt.mp h, true_and]
      exact exists_congr fun as => and_congr_right fun _ => eq_comm

/-! ### Placeholders -/

/-- The value of a placeholder is that of the first term of its variable. -/
lemma placeholder_value {v : Variable} {value : Term → Except AnswerError Json}
    {rows : List Solution} {f : Option Json} {d : Json}
    (hf : rows.foldlM (fun f s => fillPlaceholder v value s f) none = .ok f)
    (hd : placeholderResult v f = .ok d) :
    ∃ t, firstTerm? v rows = some t ∧ value t = .ok d := by
  rw [foldlM_fillPlaceholder] at hf
  split at hf
  · cases hf
    cases hd
  · next t ht =>
    obtain ⟨j, hj, rfl⟩ := map_eq_ok.mp hf
    cases hd
    exact ⟨t, ht, hj⟩

lemma Gives.name {v : Variable} {context : Context} {mode : IriMode} {rows : List Solution}
    {d : Json} (h : (Template.name v context mode).Gives rows d) :
    ∃ iri, firstTerm? v rows = some (.iri iri) ∧ d = .string (context.compact mode iri.text) := by
  obtain ⟨f, hf, hd⟩ := h
  obtain ⟨t, ht, hvalue⟩ := placeholder_value hf hd
  unfold nameValue at hvalue
  split at hvalue
  · next iri =>
    cases hvalue
    exact ⟨iri, ht, rfl⟩
  · cases hvalue

end Exemplar.Template
