import Exemplar.Proofs.Template.Parts
import Mathlib.Data.List.Nodup
import Mathlib.Data.List.Perm.Subperm

/-!
# Walks along chains

A chain is walked from its head along the successors of its slots. A walk that comes to an end
never visits a slot twice, so the number of slots is a bound that only a cycle exceeds.
-/

namespace Exemplar

namespace Chain

variable {α : Type} {slots : List (Term × LinkedSlot α)} {a b c k : Term} {ks ls : List Term}

/-- Whether a walk goes on from one term to another: the first one is a node with a slot, other than
the empty list, and the second one is the successor of this slot. -/
structure Next (slots : List (Term × LinkedSlot α)) (a b : Term) : Prop where
  node : ∃ n, a = .node n
  ne_nil : a ≠ .iri Iri.rdfNil
  successor : ∃ slot, slots.lookup a = some slot ∧ slot.rest = some b

/-- Whether a walk leads from one term to another through the slots of some terms. -/
inductive Walk (slots : List (Term × LinkedSlot α)) : Term → List Term → Term → Prop
  | here (a : Term) : Walk slots a [] a
  | step {a b c : Term} {ks : List Term} (hab : Next slots a b) (hbc : Walk slots b ks c) :
    Walk slots a (a :: ks) c

/-- Whether a walk comes to an end at a term: the empty list, or a literal. -/
def IsEnd (c : Term) : Prop := c = .iri Iri.rdfNil ∨ ∃ l, c = .literal l

lemma Next.unique (hab : Next slots a b) (hac : Next slots a c) : b = c := by
  obtain ⟨slot, hslot, hb⟩ := hab.successor
  obtain ⟨slot', hslot', hc⟩ := hac.successor
  obtain rfl := Option.some.inj (hslot.symm.trans hslot')
  exact Option.some.inj (hb.symm.trans hc)

lemma Next.mem_keys (hab : Next slots a b) : a ∈ slots.map Prod.fst := by
  obtain ⟨slot, hslot, -⟩ := hab.successor
  rw [mem_keys_iff_lookup_isSome, hslot]
  rfl

lemma IsEnd.not_next (hc : IsEnd c) : ¬ Next slots c b := by
  rintro ⟨⟨n, hn⟩, hne, -⟩
  rcases hc with hnil | ⟨l, hl⟩
  · exact hne hnil
  · cases hn.symm.trans hl

namespace Walk

lemma append (hab : Walk slots a ks b) (hbc : Walk slots b ls c) : Walk slots a (ks ++ ls) c := by
  induction hab with
  | here => exact hbc
  | step hnext _ ih => exact .step hnext (ih hbc)

lemma mem_keys (h : Walk slots a ks b) (hk : k ∈ ks) : k ∈ slots.map Prod.fst := by
  induction h with
  | here => cases hk
  | step hnext _ ih =>
    rcases List.mem_cons.mp hk with rfl | hk
    · exact hnext.mem_keys
    · exact ih hk

/-- The part of a walk that leads to a term on the way, and the part behind it. -/
lemma split (h : Walk slots a (ks ++ k :: ls) b) :
    Walk slots a ks k ∧ Walk slots k (k :: ls) b := by
  induction ks generalizing a with
  | nil =>
    cases h with
    | step hnext hwalk => exact ⟨.here _, .step hnext hwalk⟩
  | cons j ks ih =>
    cases h with
    | step hnext hwalk =>
      obtain ⟨hleft, hright⟩ := ih hwalk
      exact ⟨.step hnext hleft, hright⟩

/-- A slot on the way is reached by a walk. -/
lemma exists_slot (h : Walk slots a ks b) (hk : k ∈ ks) :
    ∃ ls slot, Walk slots a ls k ∧ slots.lookup k = some slot := by
  obtain ⟨before, after, rfl⟩ := List.append_of_mem hk
  obtain ⟨hleft, hright⟩ := h.split
  cases hright with
  | step hnext _ =>
    obtain ⟨slot, hslot, -⟩ := hnext.successor
    exact ⟨before, slot, hleft, hslot⟩

/-- Of two walks from a term, one goes on where the other one is. -/
lemma comparable (hb : Walk slots a ks b) (hc : Walk slots a ls c) :
    (∃ ms, ls = ks ++ ms ∧ Walk slots b ms c) ∨ ∃ ms, ks = ls ++ ms ∧ Walk slots c ms b := by
  induction hb generalizing ls with
  | here => exact .inl ⟨ls, rfl, hc⟩
  | step hnext hwalk ih =>
    cases hc with
    | here => exact .inr ⟨_, rfl, .step hnext hwalk⟩
    | step hnext' hwalk' =>
      obtain rfl := hnext.unique hnext'
      rcases ih hwalk' with ⟨ms, rfl, hms⟩ | ⟨ms, rfl, hms⟩
      · exact .inl ⟨ms, rfl, hms⟩
      · exact .inr ⟨ms, rfl, hms⟩

/-- A walk that comes to an end begins with every other one. -/
lemma prefix_of_isEnd (h : Walk slots a ls c) (hc : IsEnd c) (hb : Walk slots a ks b) :
    ∃ ms, ls = ks ++ ms ∧ Walk slots b ms c := by
  rcases hb.comparable h with hms | ⟨ms, rfl, hms⟩
  · exact hms
  · cases hms with
    | here => exact ⟨[], by simp, .here _⟩
    | step hnext _ => exact (hc.not_next hnext).elim

end Walk

/-! ### Cycles -/

/-- Whether a chain that starts at a term comes back to a slot. -/
def Cyclic (slots : List (Term × LinkedSlot α)) (a : Term) : Prop :=
  ∃ ks k ls, Walk slots a ks k ∧ Walk slots k (k :: ls) k

namespace Walk

/-- Behind a cycle the walk would be as long as before it. -/
lemma not_cyclic (h : Walk slots a ls c) (hc : IsEnd c) : ¬ Cyclic slots a := by
  rintro ⟨ks, k, ms, hk, hcycle⟩
  obtain ⟨rest, -, hrest⟩ := h.prefix_of_isEnd hc hk
  obtain ⟨rest', rfl, hrest'⟩ := hrest.prefix_of_isEnd hc hcycle
  obtain ⟨_, heq, -⟩ := hrest'.prefix_of_isEnd hc hrest
  have hlength := congrArg List.length heq
  simp only [List.length_append, List.length_cons] at hlength
  omega

lemma nodup_or_cyclic (h : Walk slots a ks b) : ks.Nodup ∨ Cyclic slots a := by
  induction h with
  | here => exact .inl List.nodup_nil
  | @step a m b ks hnext hwalk ih =>
    rcases ih with hnodup | ⟨ks', k, ls, hk, hcycle⟩
    · by_cases ha : a ∈ ks
      · obtain ⟨before, after, rfl⟩ := List.append_of_mem ha
        exact .inr ⟨[], a, before, .here a, .step hnext hwalk.split.1⟩
      · exact .inl (List.nodup_cons.mpr ⟨ha, hnodup⟩)
    · exact .inr ⟨a :: ks', k, ls, .step hnext hk, hcycle⟩

/-- A walk that comes to an end visits no slot twice. -/
lemma nodup (h : Walk slots a ks c) (hc : IsEnd c) : ks.Nodup :=
  h.nodup_or_cyclic.resolve_right (h.not_cyclic hc)

/-- There are at least as many slots as different ones that a walk visits. -/
lemma length_le (h : Walk slots a ks b) (hnodup : ks.Nodup) : ks.length ≤ slots.length := by
  have hsub : ks ⊆ slots.map Prod.fst := fun _ hk => h.mem_keys hk
  simpa using (List.subperm_of_subset hnodup hsub).length_le

/-- A walk that visits as many slots as there are and then finds one more has come back. -/
lemma cyclic_of_length_le (h : Walk slots a ks k) (hlength : slots.length ≤ ks.length)
    (hk : k ∈ slots.map Prod.fst) : Cyclic slots a := by
  rcases h.nodup_or_cyclic with hnodup | hcyclic
  · have hmem : k ∈ ks := by
      by_contra hnot
      have hsub : k :: ks ⊆ slots.map Prod.fst :=
        List.cons_subset.mpr ⟨hk, fun _ hj => h.mem_keys hj⟩
      have hle := (List.subperm_of_subset (List.nodup_cons.mpr ⟨hnot, hnodup⟩) hsub).length_le
      simp only [List.length_cons, List.length_map] at hle
      omega
    obtain ⟨before, after, rfl⟩ := List.append_of_mem hmem
    obtain ⟨hleft, hright⟩ := h.split
    exact ⟨before, k, after, hleft, hright⟩
  · exact hcyclic

end Walk

/-! ### Where a walk stops -/

variable (result : α → Except AnswerError Json)

/-- Whether a slot has an item. -/
def Gives (slots : List (Term × LinkedSlot α)) (k : Term) (item : Json) : Prop :=
  ∃ slot, slots.lookup k = some slot ∧ result slot.item = .ok item

/-- Why a walk that has visited some slots, for their items, stops at a term, and what it gives. It
visits the slot of this term only if there are more slots than it has visited. -/
inductive Stops (slots : List (Term × LinkedSlot α)) (total : Nat) (k : Term) (items : List Json) :
    Except AnswerError (List Json) → Prop
  | complete (hk : k = .iri Iri.rdfNil) : Stops slots total k items (.ok items)
  | literal {l : Literal} (hk : k = .literal l) :
    Stops slots total k items (.error (.badName k))
  | missing (hk : ¬ IsEnd k) (hslot : slots.lookup k = none) :
    Stops slots total k items (.error (.brokenChain k))
  | cyclic (hk : ¬ IsEnd k) (hslot : k ∈ slots.map Prod.fst) (htotal : items.length = total) :
    Stops slots total k items (.error (.brokenChain k))
  | incomplete {slot : LinkedSlot α} {error : AnswerError} (hk : ¬ IsEnd k)
    (hslot : slots.lookup k = some slot) (htotal : items.length < total)
    (hitem : result slot.item = .error error) : Stops slots total k items (.error error)
  | unfinished {slot : LinkedSlot α} {item : Json} (hk : ¬ IsEnd k)
    (hslot : slots.lookup k = some slot) (htotal : items.length < total)
    (hitem : result slot.item = .ok item) (hrest : slot.rest = none) :
    Stops slots total k items (.error (.brokenChain k))

variable {result}

lemma gives_unique : Relator.RightUnique (Gives result slots) := by
  rintro k item item' ⟨slot, hslot, hitem⟩ ⟨slot', hslot', hitem'⟩
  obtain rfl := Option.some.inj (hslot.symm.trans hslot')
  exact Except.ok.inj (hitem.symm.trans hitem')

/-- The slot that a walk visits first. -/
lemma Stops.cons {total : Nat} {items : List Json} {outcome : Except AnswerError (List Json)}
    (h : Stops result slots total k items outcome) (item : Json) :
    Stops result slots (total + 1) k (item :: items) (outcome.map (item :: ·)) := by
  cases h with
  | complete hk => exact .complete hk
  | literal hk => exact .literal hk
  | missing hk hslot => exact .missing hk hslot
  | cyclic hk hslot htotal => exact .cyclic hk hslot (by simp [htotal])
  | incomplete hk hslot htotal hitem => exact .incomplete hk hslot (by simpa using htotal) hitem
  | unfinished hk hslot htotal hitem hrest =>
    exact .unfinished hk hslot (by simpa using htotal) hitem hrest

/-- A walk stops at once, or visits a slot and goes on at its successor. -/
lemma walkChain_step (result : α → Except AnswerError Json) (slots : List (Term × LinkedSlot α))
    (total : Nat) (a : Term) :
    Stops result slots total a [] (walkChain result slots total a) ∨
      ∃ rest b item, total = rest + 1 ∧ Next slots a b ∧ Gives result slots a item ∧
        walkChain result slots total a = (walkChain result slots rest b).map (item :: ·) := by
  rw [walkChain.eq_def]
  dsimp only
  by_cases hnil : a = .iri Iri.rdfNil
  · rw [if_pos hnil]
    exact .inl (.complete hnil)
  rw [if_neg hnil]
  cases a with
  | literal l => exact .inl (.literal rfl)
  | node n =>
    have hnode : ¬ IsEnd (.node n) := by
      rintro (h | ⟨l, h⟩)
      · exact hnil h
      · cases h
    cases hslot : slots.lookup (.node n) with
    | none => exact .inl (.missing hnode hslot)
    | some slot =>
      cases total with
      | zero =>
        refine .inl (.cyclic hnode ?_ rfl)
        rw [mem_keys_iff_lookup_isSome, hslot]
        rfl
      | succ total =>
        cases hitem : result slot.item with
        | error error =>
          simp only [hitem]
          exact .inl (.incomplete hnode hslot (Nat.succ_pos total) hitem)
        | ok item =>
          cases hrest : slot.rest with
          | none =>
            simp only [hitem, hrest]
            exact .inl (.unfinished hnode hslot (Nat.succ_pos total) hitem hrest)
          | some next =>
            refine .inr ⟨total, next, item, rfl, ⟨⟨n, rfl⟩, hnil, slot, hslot, hrest⟩,
              ⟨slot, hslot, hitem⟩, ?_⟩
            simp only [hitem, hrest]
            cases walkChain result slots total next <;> rfl

/-- A walk visits no more slots than it may, and collects their items until it stops. -/
lemma exists_stops (result : α → Except AnswerError Json) (slots : List (Term × LinkedSlot α))
    (total : Nat) (a : Term) :
    ∃ ks k items, Walk slots a ks k ∧ ks.length ≤ total ∧
      List.Forall₂ (Gives result slots) ks items ∧
      Stops result slots total k items (walkChain result slots total a) := by
  induction total generalizing a with
  | zero =>
    rcases walkChain_step result slots 0 a with hstops | ⟨rest, _, _, h, -⟩
    · exact ⟨[], a, [], .here a, Nat.le_refl 0, .nil, hstops⟩
    · cases h
  | succ total ih =>
    rcases walkChain_step result slots (total + 1) a with
      hstops | ⟨rest, b, item, htotal, hnext, hitem, hwalk⟩
    · exact ⟨[], a, [], .here a, Nat.zero_le _, .nil, hstops⟩
    · cases htotal
      obtain ⟨ks, k, items, hks, hle, hitems, hstops⟩ := ih b
      refine ⟨a :: ks, k, item :: items, .step hnext hks, Nat.succ_le_succ hle,
        .cons hitem hitems, ?_⟩
      rw [hwalk]
      exact hstops.cons item

/-- A walk with items that comes to an end goes all the way there. -/
lemma stops_of_isEnd (h : Walk slots a ls c) (hc : IsEnd c)
    (hitems : ∀ k ∈ ls, ∃ item, Gives result slots k item) :
    ∃ items, List.Forall₂ (Gives result slots) ls items ∧
      Stops result slots slots.length c items (walkChain result slots slots.length a) := by
  obtain ⟨ks, k, items, hks, -, hgives, hstops⟩ := exists_stops result slots slots.length a
  obtain ⟨ms, rfl, hms⟩ := h.prefix_of_isEnd hc hks
  cases hms with
  | here => exact ⟨items, by simpa using hgives, hstops⟩
  | @step _ b _ ms hnext hrest =>
    exfalso
    obtain ⟨slot, hslot, hsuccessor⟩ := hnext.successor
    obtain ⟨item, slot', hslot', hitem⟩ := hitems k (by simp)
    obtain rfl := Option.some.inj (hslot.symm.trans hslot')
    generalize walkChain result slots slots.length a = outcome at hstops
    cases hstops with
    | complete hk => exact hnext.ne_nil hk
    | literal hk => exact IsEnd.not_next (.inr ⟨_, hk⟩) hnext
    | missing _ hnone => cases hslot.symm.trans hnone
    | cyclic _ _ htotal =>
      -- there are not enough slots for the rest of the walk
      have hle := h.length_le (h.nodup hc)
      rw [List.length_append, hgives.length_eq, htotal, List.length_cons] at hle
      omega
    | incomplete _ hslot' _ herror =>
      obtain rfl := Option.some.inj (hslot.symm.trans hslot')
      cases hitem.symm.trans herror
    | unfinished _ hslot' _ _ hnone =>
      obtain rfl := Option.some.inj (hslot.symm.trans hslot')
      cases hsuccessor.symm.trans hnone

/-- A walk gives the items of its slots exactly if it comes to the empty list. -/
lemma walkChain_eq_ok_iff {items : List Json} :
    walkChain result slots slots.length a = .ok items ↔
      ∃ ks, Walk slots a ks (.iri Iri.rdfNil) ∧ List.Forall₂ (Gives result slots) ks items := by
  constructor
  · intro h
    obtain ⟨ks, k, items', hks, -, hgives, hstops⟩ := exists_stops result slots slots.length a
    rw [h] at hstops
    cases hstops with
    | complete hk => exact ⟨ks, hk ▸ hks, hgives⟩
  · rintro ⟨ks, hks, hgives⟩
    obtain ⟨items', hgives', hstops⟩ := stops_of_isEnd hks (.inl rfl) fun k hk => by
      obtain ⟨item, -, hitem⟩ := exists_mem_right hgives hk
      exact ⟨item, hitem⟩
    obtain rfl : items = items' := Relator.RightUnique.forall₂ gives_unique hgives hgives'
    generalize walkChain result slots slots.length a = outcome at hstops
    cases hstops with
    | complete => rfl
    | literal hk => cases hk
    | missing hk | cyclic hk | incomplete hk | unfinished hk => exact (hk (.inl rfl)).elim

/-- A walk with items that comes to a literal fails with its name. -/
lemma walkChain_literal {l : Literal} (h : Walk slots a ls (.literal l))
    (hitems : ∀ k ∈ ls, ∃ item, Gives result slots k item) :
    walkChain result slots slots.length a = .error (.badName (.literal l)) := by
  obtain ⟨items, -, hstops⟩ := stops_of_isEnd h (.inr ⟨l, rfl⟩) hitems
  generalize walkChain result slots slots.length a = outcome at hstops
  cases hstops with
  | complete hk => cases hk
  | literal => rfl
  | missing hk | cyclic hk | incomplete hk | unfinished hk => exact (hk (.inr ⟨l, rfl⟩)).elim

/-- Why a chain that starts at a term cannot be walked on from one of its terms: this has no slot,
or no successor, or the chain is a cycle. -/
def BrokenAt (slots : List (Term × LinkedSlot α)) (a k : Term) : Prop :=
  slots.lookup k = none ∨ (∃ slot, slots.lookup k = some slot ∧ slot.rest = none) ∨ Cyclic slots a

/-- A walk with items that never comes to an end is broken at one of its terms. -/
lemma walkChain_brokenChain (hend : ∀ ks k, Walk slots a ks k → ¬ IsEnd k)
    (hitems : ∀ ks k slot, Walk slots a ks k → slots.lookup k = some slot →
      ∃ item, result slot.item = .ok item) :
    ∃ ks k, Walk slots a ks k ∧ BrokenAt slots a k ∧
      walkChain result slots slots.length a = .error (.brokenChain k) := by
  obtain ⟨ks, k, items, hks, -, hgives, hstops⟩ := exists_stops result slots slots.length a
  generalize walkChain result slots slots.length a = outcome at hstops ⊢
  refine ⟨ks, k, hks, ?_⟩
  cases hstops with
  | complete hk => exact (hend ks k hks (.inl hk)).elim
  | literal hk => exact (hend ks k hks (.inr ⟨_, hk⟩)).elim
  | missing _ hslot => exact ⟨.inl hslot, rfl⟩
  | cyclic _ hslot htotal =>
    have hlength : slots.length ≤ ks.length := Nat.le_of_eq (hgives.length_eq.trans htotal).symm
    exact ⟨.inr (.inr (hks.cyclic_of_length_le hlength hslot)), rfl⟩
  | incomplete _ hslot _ herror =>
    obtain ⟨item, hitem⟩ := hitems ks k _ hks hslot
    cases hitem.symm.trans herror
  | unfinished _ hslot _ _ hrest => exact ⟨.inr (.inl ⟨_, hslot, hrest⟩), rfl⟩

end Chain

namespace Template

/-- The result of a linked list. Without a head it is incomplete. Otherwise a walk visits at most as
many slots as there are until it stops; it gives the items of these slots if and only if it comes to
the empty list. If the slots on its way have items, a literal at its end is a bad name, and without
an end the chain is broken where a slot or a successor is missing, or because it is a cycle. -/
theorem linked_result_exact (list slot rest : Variable) (member : Template)
    (chain : Chain member.Filling) :
    (chain.head = none →
      (Template.linked list slot rest member).result chain = .error (.incomplete list)) ∧
    ∀ head, chain.head = some head →
      (∃ ks k items outcome, Chain.Walk chain.slots head ks k ∧
        ks.length ≤ chain.slots.length ∧
        List.Forall₂ (Chain.Gives member.result chain.slots) ks items ∧
        Chain.Stops member.result chain.slots chain.slots.length k items outcome ∧
        (Template.linked list slot rest member).result chain = outcome.map .array) ∧
      (∀ d, (Template.linked list slot rest member).result chain = .ok d ↔
        ∃ ks items, Chain.Walk chain.slots head ks (.iri Iri.rdfNil) ∧
          List.Forall₂ (Chain.Gives member.result chain.slots) ks items ∧ d = .array items) ∧
      ((∀ ks k s, Chain.Walk chain.slots head ks k → chain.slots.lookup k = some s →
          ∃ item, member.result s.item = .ok item) →
        (∀ ks l, Chain.Walk chain.slots head ks (.literal l) →
          (Template.linked list slot rest member).result chain =
            .error (.badName (.literal l))) ∧
        ((∀ ks k, Chain.Walk chain.slots head ks k → ¬ Chain.IsEnd k) →
          ∃ ks k, Chain.Walk chain.slots head ks k ∧ Chain.BrokenAt chain.slots head k ∧
            (Template.linked list slot rest member).result chain = .error (.brokenChain k))) := by
  refine ⟨fun hhead => ?_, fun head hhead => ?_⟩
  · change linkedResult member.result list chain = _
    rw [linkedResult, hhead]
  · have hresult : (Template.linked list slot rest member).result chain =
        (walkChain member.result chain.slots chain.slots.length head).map .array := by
      change linkedResult member.result list chain = _
      rw [linkedResult, hhead]
    refine ⟨?_, fun d => ?_, fun hitems => ⟨fun ks l hks => ?_, fun hend => ?_⟩⟩
    · obtain ⟨ks, k, items, hks, hle, hgives, hstops⟩ :=
        Chain.exists_stops member.result chain.slots chain.slots.length head
      exact ⟨ks, k, items, _, hks, hle, hgives, hstops, hresult⟩
    · rw [hresult, map_eq_ok]
      simp only [Chain.walkChain_eq_ok_iff]
      constructor
      · rintro ⟨items, ⟨ks, hks, hgives⟩, rfl⟩
        exact ⟨ks, items, hks, hgives, rfl⟩
      · rintro ⟨ks, items, hks, hgives, rfl⟩
        exact ⟨items, ⟨ks, hks, hgives⟩, rfl⟩
    · rw [hresult, Chain.walkChain_literal hks fun k hk => ?_]
      · rfl
      · obtain ⟨ls, s, hls, hs⟩ := hks.exists_slot hk
        obtain ⟨item, hitem⟩ := hitems ls k s hls hs
        exact ⟨item, s, hs, hitem⟩
    · obtain ⟨ks, k, hks, hbroken, hwalk⟩ := Chain.walkChain_brokenChain hend hitems
      exact ⟨ks, k, hks, hbroken, by rw [hresult, hwalk]; rfl⟩

/-- A chain of two slots beside a slot that is not part of it. -/
def twoSlots (last : Term) : Chain (native ⟨"v"⟩).Filling :=
  ⟨some (.iri ⟨"ex:a"⟩),
    [(.iri ⟨"ex:b"⟩, ⟨some last, some (.string "second")⟩),
      (.iri ⟨"ex:c"⟩, ⟨some (.iri ⟨"ex:c"⟩), some (.string "third")⟩),
      (.iri ⟨"ex:a"⟩, ⟨some (.iri ⟨"ex:b"⟩), some (.string "first")⟩)]⟩

/-- A chain without a head, one that is complete, one that leads to a literal and one that comes
back to its head. -/
theorem linked_result_exact_two_slots :
    let t : Template := .linked ⟨"l"⟩ ⟨"l.slot"⟩ ⟨"l.rest"⟩ (.native ⟨"v"⟩)
    t.result (⟨none, []⟩ : Chain (native ⟨"v"⟩).Filling) = .error (.incomplete ⟨"l"⟩) ∧
      t.result (twoSlots (.iri Iri.rdfNil)) =
        .ok (.array [.string "first", .string "second"]) ∧
      t.result (twoSlots (.literal (.simple "x"))) =
        .error (.badName (.literal (.simple "x"))) ∧
      ∃ k, t.result (twoSlots (.iri ⟨"ex:a"⟩)) = .error (.brokenChain k) := by
  intro t
  have hexact := linked_result_exact ⟨"l"⟩ ⟨"l.slot"⟩ ⟨"l.rest"⟩ (.native ⟨"v"⟩)
  have hwalk : ∀ last, Chain.Walk (twoSlots last).slots (.iri ⟨"ex:a"⟩)
      [.iri ⟨"ex:a"⟩, .iri ⟨"ex:b"⟩] last := by
    intro last
    refine .step ⟨⟨_, rfl⟩, by decide, _, rfl, rfl⟩ ?_
    exact .step ⟨⟨_, rfl⟩, by decide, _, rfl, rfl⟩ (.here last)
  have hitems : ∀ last ks k s, Chain.Walk (twoSlots last).slots (.iri ⟨"ex:a"⟩) ks k →
      (twoSlots last).slots.lookup k = some s →
        ∃ item, (native ⟨"v"⟩).result s.item = .ok item := by
    intro last ks k s _ hs
    have hmem := mem_of_lookup_eq_some hs
    simp only [twoSlots, List.mem_cons, List.not_mem_nil, or_false, Prod.mk.injEq] at hmem
    rcases hmem with ⟨-, rfl⟩ | ⟨-, rfl⟩ | ⟨-, rfl⟩ <;> exact ⟨_, rfl⟩
  refine ⟨(hexact ⟨none, []⟩).1 rfl, ?_, ?_, ?_⟩
  · refine (((hexact (twoSlots (.iri Iri.rdfNil))).2 _ rfl).2.1 _).mpr ⟨_, _, hwalk _, ?_, rfl⟩
    exact .cons ⟨_, rfl, rfl⟩ (.cons ⟨_, rfl, rfl⟩ .nil)
  · exact (((hexact (twoSlots (.literal (.simple "x")))).2 _ rfl).2.2 (hitems _)).1 _ _ (hwalk _)
  · have hcyclic : Chain.Cyclic (twoSlots (.iri ⟨"ex:a"⟩)).slots (.iri ⟨"ex:a"⟩) :=
      ⟨[], _, _, .here _, hwalk _⟩
    obtain ⟨ks, k, -, -, hbroken⟩ :=
      (((hexact (twoSlots (.iri ⟨"ex:a"⟩))).2 _ rfl).2.2 (hitems _)).2
        fun ks k hks hend => hks.not_cyclic hend hcyclic
    exact ⟨k, hbroken⟩

end Template

end Exemplar
