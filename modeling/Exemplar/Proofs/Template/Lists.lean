import Exemplar.Proofs.Template.Parts
import Mathlib.Data.List.Nodup
import Mathlib.Data.List.Perm.Subperm

/-!
# Lists from solutions

The array that a list of scalars gives, from the solutions of its slots. A chain is walked from the
list along the successors of its slots; a list with positions is read from its first position to its
last.
-/

namespace Exemplar

/-- The JSON scalar of the term of a variable. -/
def Solution.native? (s : Solution) (v : Variable) : Option Json := (s.get? v).bind Term.native?

/-- The slot of a chain at a position. Behind the last slot, the chain ends at the empty list. -/
def chainNode (nodes : List Node) (i : Nat) : Term :=
  (nodes[i]?.map Term.node).getD (.iri Iri.rdfNil)

lemma chainNode_of_getElem? {nodes : List Node} {i : Nat} {n : Node} (hn : nodes[i]? = some n) :
    chainNode nodes i = .node n := by
  rw [chainNode, hn]
  rfl

lemma chainNode_of_le {nodes : List Node} {i : Nat} (hi : nodes.length ≤ i) :
    chainNode nodes i = .iri Iri.rdfNil := by
  rw [chainNode, List.getElem?_eq_none hi]
  rfl

/-- The term of a position that is counted from `origin`. -/
def positionTerm (origin : Int) (i : Nat) : Term :=
  .literal (.ofNumber (.integer (origin + i)))

namespace Template

section

variable {rows : List Solution} {v : Variable} {t : Term}

lemma firstTerm?_of_forall (hrows : rows ≠ []) (h : ∀ row ∈ rows, row.get? v = some t) :
    firstTerm? v rows = some t := by
  cases rows with
  | nil => exact absurd rfl hrows
  | cons row rest => simp [firstTerm?, h row List.mem_cons_self]

lemma lastTerm?_of_forall (hrows : rows ≠ []) (h : ∀ row ∈ rows, row.get? v = some t) :
    lastTerm? v rows = some t := by
  refine firstTerm?_of_forall (by simpa using hrows) fun row hrow => h row ?_
  exact List.mem_reverse.mp hrow

/-- Solutions that agree on the scalar of a placeholder fill it in. -/
lemma addAll_native {j : Json} (hrows : rows ≠ []) (h : ∀ row ∈ rows, row.native? v = some j) :
    (Template.native v).addAll rows none = .ok (some j) := by
  change rows.foldlM (fun f s => fillPlaceholder v (nativeValue v) s f) none = .ok (some j)
  obtain ⟨row, rest, rfl⟩ := List.exists_cons_of_ne_nil hrows
  obtain ⟨t, ht, hj⟩ := Option.bind_eq_some_iff.mp (h row List.mem_cons_self)
  have hfirst : firstTerm? v (row :: rest) = some t := by simp [firstTerm?, ht]
  rw [foldlM_fillPlaceholder, hfirst]
  simp only [nativeValue, hj]
  rfl

end

/-! ### Chains -/

/-- The solutions of a chain: each is about the list, and about a slot with its item and its
successor if it binds a slot at all. -/
structure ChainRows (list slot rest item : Variable) (nodes : List Node) (values : List Json)
    (rows : List Solution) : Prop where
  length : nodes.length = values.length
  distinct : nodes.Nodup
  ne_nil (n : Node) (hn : n ∈ nodes) : Term.node n ≠ .iri Iri.rdfNil
  nonempty : rows ≠ []
  head (row : Solution) (hrow : row ∈ rows) : row.get? list = some (chainNode nodes 0)
  exists_slot (row : Solution) (hrow : row ∈ rows) (k : Term) (hk : row.get? slot = some k) :
    ∃ i n, nodes[i]? = some n ∧ k = .node n ∧ row.native? item = values[i]? ∧
      row.get? rest = some (chainNode nodes (i + 1))
  exists_row (n : Node) (hn : n ∈ nodes) : ∃ row ∈ rows, row.get? slot = some (.node n)

namespace ChainRows

variable {list slot rest item : Variable} {nodes : List Node} {values : List Json}
  {rows : List Solution} {i : Nat} {n : Node} {j : Json}
  (h : ChainRows list slot rest item nodes values rows)

include h

/-- The solutions of one slot agree on its item and its successor. -/
lemma get?_of_mem_group (hn : nodes[i]? = some n) {row : Solution}
    (hrow : row ∈ group (·.get? slot) (.node n) rows) :
    row.native? item = values[i]? ∧ row.get? rest = some (chainNode nodes (i + 1)) := by
  obtain ⟨hmem, hslot⟩ := mem_group.mp hrow
  obtain ⟨i', n', hn', heq, hitem, hrest⟩ := h.exists_slot row hmem _ hslot
  cases heq
  have hi : i < nodes.length := (List.getElem?_eq_some_iff.mp hn).1
  obtain rfl : i = i' := (List.getElem?_inj hi h.distinct).mp (hn.trans hn'.symm)
  exact ⟨hitem, hrest⟩

lemma group_ne_nil (hn : n ∈ nodes) : group (·.get? slot) (.node n) rows ≠ [] := by
  obtain ⟨row, hrow, hslot⟩ := h.exists_row n hn
  exact List.ne_nil_of_mem (mem_group.mpr ⟨hrow, hslot⟩)

/-- The item of a slot. -/
lemma addAll_item (hn : nodes[i]? = some n) (hj : values[i]? = some j) :
    (Template.native item).addAll (group (·.get? slot) (.node n) rows) none = .ok (some j) := by
  refine addAll_native (h.group_ne_nil (List.mem_of_getElem? hn)) fun row hrow => ?_
  rw [(h.get?_of_mem_group hn hrow).1, hj]

lemma exists_chain : ∃ chain,
    (Template.linked list slot rest (.native item)).addAll rows ⟨none, []⟩ = .ok chain := by
  refine exists_addAll_linked list rest fun row hrow k hk => ?_
  obtain ⟨i, n, hn, rfl, -, -⟩ := h.exists_slot row hrow k hk
  have hi : i < values.length := h.length ▸ (List.getElem?_eq_some_iff.mp hn).1
  exact ⟨_, h.addAll_item hn (List.getElem?_eq_getElem hi)⟩

section

variable {chain : Chain (Template.native item).Filling}
  (hchain : (Template.linked list slot rest (.native item)).addAll rows ⟨none, []⟩ = .ok chain)

include hchain

/-- What a slot has been filled with. -/
lemma lookup_slot (hn : nodes[i]? = some n) (hj : values[i]? = some j) :
    chain.slots.lookup (.node n) = some ⟨some (chainNode nodes (i + 1)), some j⟩ := by
  have hmem := List.mem_of_getElem? hn
  have hmembers := members_of_addAll_linked hchain
  have hkey := (hmembers.mem_keys (.node n)).mpr (h.exists_row n hmem)
  rw [mem_keys_iff_lookup_isSome, lookup_map_snd, Option.isSome_map] at hkey
  obtain ⟨s, hs⟩ := Option.isSome_iff_exists.mp hkey
  have hitem : s.item = some j := by
    have hfilled := hmembers.filled (.node n) s.item (by rw [lookup_map_snd, hs]; rfl)
    exact Except.ok.inj (hfilled.symm.trans (h.addAll_item hn hj))
  have hrest : s.rest = some (chainNode nodes (i + 1)) := by
    rw [rest_of_addAll_linked hchain hs]
    exact lastTerm?_of_forall (h.group_ne_nil hmem) fun _ hrow => (h.get?_of_mem_group hn hrow).2
  rw [hs, ← hitem, ← hrest]

/-- There are enough slots to visit each of the chain. -/
lemma length_le : nodes.length ≤ chain.slots.length := by
  have hmembers := members_of_addAll_linked hchain
  have hsub : nodes.map Term.node ⊆ (chain.slots.map fun e => (e.1, e.2.item)).map Prod.fst := by
    intro k hk
    obtain ⟨n, hn, rfl⟩ := List.mem_map.mp hk
    exact (hmembers.mem_keys _).mpr (h.exists_row n hn)
  have hdistinct : (nodes.map Term.node).Nodup :=
    List.Nodup.map (fun _ _ heq => Term.node.inj heq) h.distinct
  simpa using (List.subperm_of_subset hdistinct hsub).length_le

/-- From a position on, the walk finds the values of the remaining slots. -/
lemma walkChain_drop {unvisited : Nat} (hle : nodes.length - i ≤ unvisited) :
    walkChain (Template.native item).result chain.slots unvisited (chainNode nodes i) =
      .ok (values.drop i) := by
  induction unvisited generalizing i with
  | zero =>
    have hi : nodes.length ≤ i := by omega
    exact walkChain_eq_ok.mpr
      (.inl ⟨chainNode_of_le hi, List.drop_of_length_le (h.length ▸ hi)⟩)
  | succ unvisited ih =>
    rcases Nat.lt_or_ge i nodes.length with hi | hi
    · have hn : nodes[i]? = some nodes[i] := List.getElem?_eq_getElem hi
      have hj := List.getElem?_eq_getElem (h.length ▸ hi : i < values.length)
      rw [List.drop_eq_getElem_cons (h.length ▸ hi), chainNode_of_getElem? hn]
      refine walkChain_eq_ok.mpr (.inr ⟨h.ne_nil _ (List.getElem_mem hi), ?_⟩)
      exact ⟨unvisited, _, _, _, _, _, rfl, rfl, h.lookup_slot hchain hn hj, rfl, rfl,
        ih (by omega), rfl⟩
    · exact walkChain_eq_ok.mpr
        (.inl ⟨chainNode_of_le hi, List.drop_of_length_le (h.length ▸ hi)⟩)

end

/-- A chain gives the values of its items in their order. -/
theorem gives : (Template.linked list slot rest (.native item)).Gives rows (.array values) := by
  obtain ⟨chain, hchain⟩ := h.exists_chain
  refine ⟨chain, hchain, ?_⟩
  have hhead : chain.head = some (chainNode nodes 0) :=
    (addAll_linked.mp hchain).1.trans (firstTerm?_of_forall h.nonempty h.head)
  change linkedResult (Template.native item).result list chain = .ok (.array values)
  unfold linkedResult
  rw [hhead]
  exact map_eq_ok.mpr ⟨values, h.walkChain_drop hchain (h.length_le hchain), rfl⟩

end ChainRows

/-! ### Positions -/

/-- The solutions of a list with positions: each that binds an index is about a position of the list
and its item. -/
structure PositionRows (index item : Variable) (origin : Int) (values : List Json)
    (rows : List Solution) : Prop where
  position (i : Nat) (hi : i < values.length) : position? origin (positionTerm origin i) = some i
  exists_position (row : Solution) (hrow : row ∈ rows) (k : Term) (hk : row.get? index = some k) :
    ∃ i < values.length, k = positionTerm origin i ∧ row.native? item = values[i]?
  exists_row (i : Nat) (hi : i < values.length) :
    ∃ row ∈ rows, row.get? index = some (positionTerm origin i)

namespace PositionRows

variable {index item : Variable} {origin : Int} {values : List Json} {rows : List Solution}
  {i : Nat} {j : Json} (h : PositionRows index item origin values rows)

include h

lemma positionOf?_eq_some {row : Solution} (hrow : row ∈ rows)
    (hi : positionOf? index origin row = some i) : row.native? item = values[i]? ∧
      i < values.length := by
  obtain ⟨k, hk, hposition⟩ := Option.bind_eq_some_iff.mp hi
  obtain ⟨i', hi', rfl, hitem⟩ := h.exists_position row hrow k hk
  cases (h.position i' hi').symm.trans hposition
  exact ⟨hitem, hi'⟩

lemma exists_positionOf? (hi : i < values.length) :
    ∃ row ∈ rows, positionOf? index origin row = some i := by
  obtain ⟨row, hrow, hk⟩ := h.exists_row i hi
  exact ⟨row, hrow, by simp [positionOf?, hk, h.position i hi]⟩

/-- The item of a position. -/
lemma addAll_item (hj : values[i]? = some j) :
    (Template.native item).addAll (group (positionOf? index origin) i rows) none =
      .ok (some j) := by
  have hi : i < values.length := (List.getElem?_eq_some_iff.mp hj).1
  obtain ⟨row, hrow, hposition⟩ := h.exists_positionOf? hi
  refine addAll_native (List.ne_nil_of_mem (mem_group.mpr ⟨hrow, hposition⟩)) fun row hrow => ?_
  obtain ⟨hmem, hposition⟩ := mem_group.mp hrow
  rw [(h.positionOf?_eq_some hmem hposition).1, hj]

lemma exists_slots : ∃ slots,
    (Template.indexed index origin (.native item)).addAll rows [] = .ok slots := by
  refine exists_addAll_indexed (fun row hrow hsome => ?_) fun row hrow i hposition => ?_
  · obtain ⟨k, hk⟩ := Option.isSome_iff_exists.mp hsome
    obtain ⟨i, hi, rfl, -⟩ := h.exists_position row hrow k hk
    simp [positionOf?, hk, h.position i hi]
  · obtain ⟨-, hi⟩ := h.positionOf?_eq_some hrow hposition
    exact ⟨_, h.addAll_item (List.getElem?_eq_getElem hi)⟩

section

variable {slots : List (Nat × IndexedSlot (Template.native item).Filling)}
  (hslots : (Template.indexed index origin (.native item)).addAll rows [] = .ok slots)

include hslots

/-- The positions that are filled are those of the list. -/
lemma perm_range : (slots.map Prod.fst).Perm (List.range values.length) := by
  have hmembers := members_of_addAll_indexed hslots
  have hkeys : (slots.map fun e => (e.1, e.2.item)).map Prod.fst = slots.map Prod.fst := by simp
  rw [← hkeys]
  refine (List.perm_ext_iff_of_nodup hmembers.nodup List.nodup_range).mpr fun i => ?_
  rw [hmembers.mem_keys, List.mem_range]
  constructor
  · rintro ⟨row, hrow, hposition⟩
    exact (h.positionOf?_eq_some hrow hposition).2
  · exact h.exists_positionOf?

/-- The item that a position has been filled with. -/
lemma itemAt_eq (hj : values[i]? = some j) :
    itemAt (Template.native item).result slots i = .ok j := by
  have hi : i < values.length := (List.getElem?_eq_some_iff.mp hj).1
  have hkey := (h.perm_range hslots).mem_iff.mpr (List.mem_range.mpr hi)
  rw [mem_keys_iff_lookup_isSome] at hkey
  obtain ⟨slot, hslot⟩ := Option.isSome_iff_exists.mp hkey
  have hfilled := (members_of_addAll_indexed hslots).filled i slot.item
    (by rw [lookup_map_snd, hslot]; rfl)
  have hitem : slot.item = some j := Except.ok.inj (hfilled.symm.trans (h.addAll_item hj))
  rw [itemAt, hslot]
  change (Template.native item).result slot.item = .ok j
  rw [hitem]
  rfl

/-- A list with positions gives the values of its items in their order. -/
lemma indexedResult_eq : indexedResult (Template.native item).result index slots =
    .ok (.array values) := by
  have hperm := h.perm_range hslots
  have hlength : slots.length = values.length := by simpa using hperm.length_eq
  refine indexedResult_eq_ok.mpr ?_
  cases hlast : lastPosition? slots with
  | none =>
    obtain rfl := (lastPosition?_spec slots).1.mp hlast
    exact .inl ⟨rfl, by rw [List.eq_nil_of_length_eq_zero hlength.symm]⟩
  | some e =>
    obtain ⟨hmem, hgreatest⟩ := (lastPosition?_spec slots).2 e hlast
    have hlt : e.1 < values.length :=
      List.mem_range.mp (hperm.mem_iff.mp (List.mem_map_of_mem hmem))
    have hle : values.length - 1 ≤ e.1 := by
      obtain ⟨e', he', hposition⟩ := List.mem_map.mp
        (hperm.mem_iff.mpr (List.mem_range.mpr (by omega : values.length - 1 < values.length)))
      exact hposition ▸ hgreatest e' he'
    have hend : e.1 + 1 = values.length := by omega
    refine .inr ⟨e, rfl, by omega, values, mapM_eq_ok.mpr ?_, rfl⟩
    rw [hend]
    refine List.forall₂_iff_get.mpr ⟨List.length_range, fun i hi hi' => ?_⟩
    simp only [List.get_eq_getElem, List.getElem_range]
    exact h.itemAt_eq hslots (List.getElem?_eq_getElem hi')

end

theorem gives : (Template.indexed index origin (.native item)).Gives rows (.array values) := by
  obtain ⟨slots, hslots⟩ := h.exists_slots
  exact ⟨slots, hslots, h.indexedResult_eq hslots⟩

end PositionRows

end Template

end Exemplar
