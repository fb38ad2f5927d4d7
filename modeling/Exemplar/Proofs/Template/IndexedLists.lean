import Exemplar.Proofs.Rdf.Integers
import Exemplar.Proofs.Template.Parts
import Mathlib.Data.Finset.Card
import Mathlib.Data.Finset.Max

/-!
# Indexed lists

Index terms stand for positions, and positions for the places of an array. The difference of an
index and the origin is a position if it is not negative and has no more than 63 bits, whatever the
two are. Positions are distinct, so there are no more of them than places up to the last one.
-/

namespace Exemplar

/-! ### Positions -/

/-- Whether an index term stands for a position that is counted from `origin`. -/
def StandsFor (origin : Int) (t : Term) (k : Nat) : Prop :=
  ∃ i, t.native? = some (.number (.integer i)) ∧ Number.isInt64 i ∧
    (k : Int) = i - origin ∧ k ≤ 9223372036854775807

lemma position?_eq_bind (origin : Int) (t : Term) :
    position? origin t = (t.native?.bind Json.int64?).bind fun i =>
      if 0 ≤ i - origin ∧ i - origin ≤ 9223372036854775807 then some (i - origin).toNat
      else none := by
  rw [Option.bind_assoc]
  rfl

lemma position?_eq_some_iff {origin : Int} {t : Term} {k : Nat} :
    position? origin t = some k ↔ StandsFor origin t k := by
  simp only [position?_eq_bind, Option.bind_eq_some_iff (x := t.native?.bind _),
    int64?_eq_some_iff, StandsFor, and_assoc]
  refine exists_congr fun i => and_congr_right fun _ => and_congr_right fun _ => ?_
  rw [Option.ite_none_right_eq_some, Option.some.injEq]
  omega

/-! #### Words of 64 bits -/

/-- The difference of two words, unless it takes more bits. It wraps around if the signs of the
words differ and it has not that of the first one. -/
def checkedSub? (a b : Int64) : Option Int64 :=
  if decide (a < 0) ≠ decide (b < 0) ∧ decide (a - b < 0) ≠ decide (a < 0) then none
  else some (a - b)

lemma checkedSub?_eq_some_iff {a b d : Int64} :
    checkedSub? a b = some d ↔ d.toInt = a.toInt - b.toInt := by
  have ha := a.toInt_lt
  have ha' := a.le_toInt
  have hb := b.toInt_lt
  have hb' := b.le_toInt
  have hsub : (a - b).toInt = (a.toInt - b.toInt).bmod 18446744073709551616 := Int64.toInt_sub a b
  rw [Int.bmod_def] at hsub
  -- the difference is exact or misses by a power of two, and the signs tell which
  simp only [checkedSub?, Int64.lt_iff_toInt_lt, Int64.toInt_zero]
  by_cases hoverflow : -2 ^ 63 ≤ a.toInt - b.toInt ∧ a.toInt - b.toInt < 2 ^ 63
  · have hexact : (a - b).toInt = a.toInt - b.toInt := by split_ifs at hsub <;> omega
    rw [if_neg (by simp only [ne_eq, decide_eq_decide]; omega), Option.some.injEq,
      ← Int64.toInt_inj, hexact, eq_comm]
  · have hd := d.toInt_lt
    have hd' := d.le_toInt
    have hsigns : ¬ (a.toInt < 0 ↔ b.toInt < 0) ∧ ¬ ((a - b).toInt < 0 ↔ a.toInt < 0) := by
      split_ifs at hsub <;> omega
    rw [if_pos (by simpa only [ne_eq, decide_eq_decide] using hsigns)]
    constructor
    · exact fun h => nomatch h
    · omega

/-- The position that an index term stands for, computed with words alone. -/
def wordPosition? (origin : Int64) (t : Term) : Option UInt64 := do
  let index ← t.native?.bind Json.int64?
  let difference ← checkedSub? (.ofInt index) origin
  if difference < 0 then none else some difference.toUInt64

lemma toNat_wordPosition? (origin : Int64) (t : Term) :
    (wordPosition? origin t).map UInt64.toNat = position? origin.toInt t := by
  rw [position?_eq_bind]
  unfold wordPosition?
  cases hindex : t.native?.bind Json.int64? with
  | none => rfl
  | some i =>
    have hi := (int64?_eq_some_iff.mp hindex).2
    simp only [Number.isInt64, Bool.and_eq_true, decide_eq_true_eq] at hi
    have hword : (Int64.ofInt i).toInt = i := Int64.toInt_ofInt_of_le (by omega) (by omega)
    simp only [bind, Option.bind_some]
    cases hsub : checkedSub? (.ofInt i) origin with
    | none =>
      -- a difference in range would be a word
      have hrange : ¬ (0 ≤ i - origin.toInt ∧ i - origin.toInt ≤ 9223372036854775807) := by
        intro hrange
        have hexact := Int64.toInt_ofInt_of_le (n := i - origin.toInt) (by omega) (by omega)
        have hsome := checkedSub?_eq_some_iff.mpr (hexact.trans (congrArg (· - _) hword.symm))
        cases hsub.symm.trans hsome
      rw [if_neg hrange]
      rfl
    | some d =>
      have hd : d.toInt = i - origin.toInt := hword ▸ checkedSub?_eq_some_iff.mp hsub
      have hlt := d.toInt_lt
      simp only [Option.bind_some, Int64.lt_iff_toInt_lt, Int64.toInt_zero]
      by_cases hnegative : d.toInt < 0
      · rw [if_pos hnegative, if_neg (by omega)]
        rfl
      · have hle : 0 ≤ d := by
          rw [Int64.le_iff_toInt_le]
          simpa using hnegative
        rw [if_neg hnegative, if_pos (by omega), Option.map_some, Int64.toNat_toUInt64_of_le hle,
          ← hd]
        rfl

namespace Template

variable {index : Variable} {origin : Int} {member : Template} {rows : List Solution}

lemma positionOf?_eq_some_iff {s : Solution} {k : Nat} :
    positionOf? index origin s = some k ↔
      ∃ t, s.get? index = some t ∧ StandsFor origin t k := by
  simp only [positionOf?, Option.bind_eq_some_iff, position?_eq_some_iff]

/-- The positions of the solutions of an indexed list. -/
def positions (index : Variable) (origin : Int) (rows : List Solution) : Finset Nat :=
  (rows.filterMap (positionOf? index origin)).toFinset

lemma mem_positions {k : Nat} :
    k ∈ positions index origin rows ↔ ∃ s ∈ rows, positionOf? index origin s = some k := by
  rw [positions, List.mem_toFinset, List.mem_filterMap]

/-- There are no more positions than places up to the last one. -/
lemma card_positions_le (hP : (positions index origin rows).Nonempty) :
    (positions index origin rows).card ≤ (positions index origin rows).max' hP + 1 := by
  rw [← Finset.card_range (_ + 1)]
  refine Finset.card_le_card fun k hk => Finset.mem_range.mpr ?_
  exact Nat.lt_succ_of_le (Finset.le_max' _ k hk)

lemma max'_positions_le (hP : (positions index origin rows).Nonempty) :
    (positions index origin rows).max' hP ≤ 9223372036854775807 := by
  obtain ⟨s, -, hs⟩ := mem_positions.mp (Finset.max'_mem _ hP)
  obtain ⟨t, -, i, -, -, -, hle⟩ := positionOf?_eq_some_iff.mp hs
  exact hle

/-! ### Single solutions -/

section

variable {α : Type} {fresh : α} {s : Solution} {t : Term} {k : Nat}

/-- A solution with a position changes the item there, and keeps its first index term. -/
lemma addIndexed_of_standsFor (ht : s.get? index = some t) (hk : StandsFor origin t k)
    (add : α → Except AnswerError α) (slots : List (Nat × IndexedSlot α)) :
    addIndexed index origin fresh add s slots =
      (add ((slots.lookup k).elim fresh IndexedSlot.item)).map fun item =>
        putAt k ⟨(slots.lookup k).elim t IndexedSlot.index, item⟩ slots := by
  simp only [addIndexed, ht, position?_eq_some_iff.mpr hk, updateAt_eq]
  cases slots.lookup k with
  | none => cases h : add fresh <;> simp [h, Except.map]
  | some slot => cases h : add slot.item <;> simp [h, Except.map]

/-- A solution is rejected before any item takes it exactly if its index has no position. -/
lemma addIndexed_rejects_iff (ht : s.get? index = some t) :
    (∀ (add : α → Except AnswerError α) slots,
        addIndexed index origin fresh add s slots = .error (.badNativeValue index t)) ↔
      ¬ ∃ k, StandsFor origin t k := by
  constructor
  · rintro h ⟨k, hk⟩
    -- an item that takes every solution takes this one
    have hok := h .ok []
    rw [addIndexed_of_standsFor ht hk] at hok
    cases hok
  · intro h add slots
    have hnone : position? origin t = none :=
      Option.eq_none_iff_forall_ne_some.mpr fun k hk => h ⟨k, position?_eq_some_iff.mp hk⟩
    simp only [addIndexed, ht, hnone]

end

/-! ### All solutions -/

section

variable {slots : List (Nat × IndexedSlot member.Filling)}
  (h : (Template.indexed index origin member).addAll rows [] = .ok slots)

include h

lemma nodup_keys : (slots.map Prod.fst).Nodup :=
  (grouped_of_foldlM (addAll_indexed.mp h).2).nodup

/-- The slots are at the positions of the solutions. -/
lemma mem_keys_iff_mem_positions {k : Nat} :
    k ∈ slots.map Prod.fst ↔ k ∈ positions index origin rows := by
  rw [mem_positions, ← (members_of_addAll_indexed h).mem_keys]
  simp

lemma length_eq_card_positions : slots.length = (positions index origin rows).card := by
  have hkeys : (slots.map Prod.fst).toFinset = positions index origin rows := by
    ext k
    rw [List.mem_toFinset, mem_keys_iff_mem_positions h]
  rw [← hkeys, List.toFinset_card_of_nodup (nodup_keys h), List.length_map]

lemma eq_nil_of_positions (hempty : positions index origin rows = ∅) : slots = [] := by
  rw [← List.length_eq_zero_iff, length_eq_card_positions h, hempty, Finset.card_empty]

/-- The last slot is at the greatest position. -/
lemma lastPosition?_eq_max' (hP : (positions index origin rows).Nonempty) :
    ∃ slot, lastPosition? slots = some ((positions index origin rows).max' hP, slot) ∧
      slots.lookup ((positions index origin rows).max' hP) = some slot := by
  obtain ⟨hnone, hsome⟩ := lastPosition?_spec slots
  cases hlast : lastPosition? slots with
  | none =>
    have hlength := length_eq_card_positions h
    rw [hnone.mp hlast, List.length_nil, eq_comm, Finset.card_eq_zero] at hlength
    exact absurd hlength hP.ne_empty
  | some e =>
    obtain ⟨last, slot⟩ := e
    obtain ⟨hmem, hle⟩ := hsome _ hlast
    have hmax : (positions index origin rows).max' hP = last := by
      refine (Finset.max'_eq_iff _ hP last).mpr ⟨?_, fun k hk => ?_⟩
      · exact (mem_keys_iff_mem_positions h).mp (List.mem_map_of_mem hmem)
      · obtain ⟨e, he, rfl⟩ := List.mem_map.mp ((mem_keys_iff_mem_positions h).mpr hk)
        exact hle e he
    rw [hmax]
    exact ⟨slot, rfl, (mem_iff_lookup_eq_some (nodup_keys h)).mp hmem⟩

/-- The item of a position is what the solutions of the position give. -/
lemma itemAt_of_mem_positions {k : Nat} {d : Json} (hk : k ∈ positions index origin rows)
    (hd : member.Gives (group (positionOf? index origin) k rows) d) :
    itemAt member.result slots k = .ok d := by
  have hkey := (mem_keys_iff_mem_positions h).mpr hk
  rw [mem_keys_iff_lookup_isSome] at hkey
  obtain ⟨slot, hslot⟩ := Option.isSome_iff_exists.mp hkey
  have hfilled := (members_of_addAll_indexed h).filled k slot.item
    (by rw [lookup_map_snd, hslot]; rfl)
  obtain ⟨f, hf, hresult⟩ := hd
  obtain rfl := Except.ok.inj (hfilled.symm.trans hf)
  rw [itemAt, hslot]
  exact hresult

lemma itemAt_of_not_mem_positions {k : Nat} (hk : k ∉ positions index origin rows) :
    itemAt member.result slots k = .ok (.object []) := by
  have hlookup : slots.lookup k = none := by
    rwa [← mem_keys_iff_mem_positions h, mem_keys_iff_lookup_isSome,
      Option.not_isSome_iff_eq_none] at hk
  rw [itemAt, hlookup]

/-- A list with too many places that are missing is rejected with the index of its last slot. -/
lemma indexedResult_of_sparse (hP : (positions index origin rows).Nonempty)
    (hsparse : maxMissing < (positions index origin rows).max' hP + 1 -
      (positions index origin rows).card) :
    ∃ t, firstTerm? index (group (positionOf? index origin)
        ((positions index origin rows).max' hP) rows) = some t ∧
      indexedResult member.result index slots = .error (.badNativeValue index t) := by
  obtain ⟨slot, hlast, hslot⟩ := lastPosition?_eq_max' h hP
  refine ⟨slot.index, index_of_addAll_indexed h hslot, ?_⟩
  rw [← length_eq_card_positions h] at hsparse
  simp only [indexedResult, hlast, if_pos hsparse]

/-- A list that is dense enough has the items of the positions at their places. -/
lemma indexedResult_of_dense (hP : (positions index origin rows).Nonempty)
    (hdense : (positions index origin rows).max' hP + 1 - (positions index origin rows).card ≤
      maxMissing) {item : Nat → Json} (hitem : ∀ k ∈ positions index origin rows,
      member.Gives (group (positionOf? index origin) k rows) (item k)) :
    indexedResult member.result index slots =
      .ok (.array ((List.range ((positions index origin rows).max' hP + 1)).map fun k =>
        if k ∈ positions index origin rows then item k else .object [])) := by
  obtain ⟨slot, hlast, -⟩ := lastPosition?_eq_max' h hP
  rw [← length_eq_card_positions h] at hdense
  refine indexedResult_eq_ok.mpr (.inr ⟨_, hlast, hdense, _, mapM_eq_ok.mpr ?_, rfl⟩)
  refine List.forall₂_map_right_iff.mpr (List.forall₂_same.mpr fun k _ => ?_)
  by_cases hk : k ∈ positions index origin rows
  · rw [if_pos hk]
    exact itemAt_of_mem_positions h hk (hitem k hk)
  · rw [if_neg hk]
    exact itemAt_of_not_mem_positions h hk

end

/-- The positions and the array of an indexed list. A solution has a position if its index is an
integer of 64 bits whose difference to the origin is not negative and has no more than 63 bits; this
is what the words compute, without wrapping around. Without a position it is rejected before any
item takes it, and with one it changes the item there. The array has the items at their positions
and empty objects between them, unless more than 1024 positions are missing. -/
theorem indexed_list_exact (index : Variable) (origin : Int64) (member : Template) :
    (∀ s k, positionOf? index origin.toInt s = some k ↔
      ∃ t, s.get? index = some t ∧ StandsFor origin.toInt t k) ∧
    (∀ t, (wordPosition? origin t).map UInt64.toNat = position? origin.toInt t) ∧
    (∀ s t, s.get? index = some t →
      ((∀ (add : member.Filling → Except AnswerError member.Filling) slots,
          addIndexed index origin.toInt member.start add s slots =
            .error (.badNativeValue index t)) ↔ ¬ ∃ k, StandsFor origin.toInt t k) ∧
      ∀ k, StandsFor origin.toInt t k →
        ∀ slots : List (Nat × IndexedSlot member.Filling),
          (Template.indexed index origin.toInt member).add s slots =
            (member.add s ((slots.lookup k).elim member.start IndexedSlot.item)).map fun item =>
              putAt k ⟨(slots.lookup k).elim t IndexedSlot.index, item⟩ slots) ∧
    ∀ rows (slots : List (Nat × IndexedSlot member.Filling)),
      (Template.indexed index origin.toInt member).addAll rows [] = .ok slots →
      let P := positions index origin.toInt rows
      (P = ∅ →
        (Template.indexed index origin.toInt member).result slots = .ok (.array [])) ∧
      ∀ hP : P.Nonempty,
        slots.length = P.card ∧ 1 ≤ slots.length ∧ slots.length - 1 ≤ P.max' hP ∧
        P.max' hP ≤ 9223372036854775807 ∧
        (1024 < P.max' hP + 1 - P.card → ∃ t,
          firstTerm? index (group (positionOf? index origin.toInt) (P.max' hP) rows) = some t ∧
          (Template.indexed index origin.toInt member).result slots =
            .error (.badNativeValue index t)) ∧
        (P.max' hP + 1 - P.card ≤ 1024 →
          P.max' hP + 1 ≤ P.card + 1024 ∧
          ∀ item : Nat → Json,
            (∀ k ∈ P, member.Gives (group (positionOf? index origin.toInt) k rows) (item k)) →
            (Template.indexed index origin.toInt member).result slots =
              .ok (.array ((List.range (P.max' hP + 1)).map fun k =>
                if k ∈ P then item k else .object []))) := by
  refine ⟨fun s k => positionOf?_eq_some_iff, toNat_wordPosition? origin, fun s t ht => ?_,
    fun rows slots h => ⟨fun hempty => ?_, fun hP => ?_⟩⟩
  · exact ⟨addIndexed_rejects_iff ht, fun k hk => addIndexed_of_standsFor ht hk (member.add s)⟩
  · rw [eq_nil_of_positions h hempty]
    rfl
  · have hcard := length_eq_card_positions h
    have hpositive := hP.card_pos
    have hle := card_positions_le hP
    refine ⟨hcard, by omega, by omega, max'_positions_le hP, fun hsparse => ?_, fun hdense => ?_⟩
    · exact indexedResult_of_sparse h hP hsparse
    · exact ⟨by omega, fun item hitem => indexedResult_of_dense h hP hdense hitem⟩

/-- A solution with an index and an item. -/
def indexedRow (index item : String) : Solution :=
  [(⟨"i"⟩, .literal (.typed index Iri.xsdInteger)), (⟨"v"⟩, .literal (.simple item))]

/-- An index that is too far from an origin, a list with a gap whose first index is written in two
ways, and a list with a gap that is too wide. -/
theorem indexed_list_exact_gaps :
    (∀ (add : Option Json → Except AnswerError (Option Json)) slots,
      addIndexed ⟨"i"⟩ Int64.minValue.toInt none add (indexedRow "0" "x") slots =
        .error (.badNativeValue ⟨"i"⟩ (.literal (.typed "0" Iri.xsdInteger)))) ∧
    (∃ slots, (Template.indexed ⟨"i"⟩ 1 (.native ⟨"v"⟩)).addAll
        [indexedRow "3" "third", indexedRow "1" "first", indexedRow "+01" "other"] [] = .ok slots ∧
      (Template.indexed ⟨"i"⟩ 1 (.native ⟨"v"⟩)).result slots =
        .ok (.array [.string "first", .object [], .string "third"])) ∧
    ∃ slots, (Template.indexed ⟨"i"⟩ 1 (.native ⟨"v"⟩)).addAll
        [indexedRow "1" "first", indexedRow "1000000000000" "last"] [] = .ok slots ∧
      (Template.indexed ⟨"i"⟩ 1 (.native ⟨"v"⟩)).result slots =
        .error (.badNativeValue ⟨"i"⟩ (.literal (.typed "1000000000000" Iri.xsdInteger))) := by
  refine ⟨?_, ?_, ?_⟩
  · refine (((indexed_list_exact ⟨"i"⟩ Int64.minValue (.native ⟨"v"⟩)).2.2.1
      (indexedRow "0" "x") _ rfl).1).mpr ?_
    rintro ⟨k, i, hi, -, hk, hle⟩
    have hzero : (Term.literal (.typed "0" Iri.xsdInteger)).native? =
        some (.number (.integer 0)) := rfl
    cases hzero.symm.trans hi
    have hmin : Int64.minValue.toInt = -9223372036854775808 := rfl
    omega
  · obtain ⟨slots, hslots⟩ : ∃ slots, (Template.indexed ⟨"i"⟩ 1 (.native ⟨"v"⟩)).addAll
        [indexedRow "3" "third", indexedRow "1" "first", indexedRow "+01" "other"] [] =
          .ok slots := ⟨_, rfl⟩
    have hP : positions ⟨"i"⟩ (1 : Int64).toInt
        [indexedRow "3" "third", indexedRow "1" "first", indexedRow "+01" "other"] = {0, 2} := by
      decide +kernel
    have hexact := ((indexed_list_exact ⟨"i"⟩ 1 (.native ⟨"v"⟩)).2.2.2 _ slots hslots).2
    have hmax : ∀ hP, ({0, 2} : Finset Nat).max' hP = 2 := fun _ => rfl
    simp only [hP, hmax] at hexact
    obtain ⟨-, hdense⟩ := (hexact (Finset.insert_nonempty _ _)).2.2.2.2.2 (by decide)
    refine ⟨slots, hslots, hdense
      (fun k => if k = 0 then .string "first" else .string "third") fun k hk => ?_⟩
    rcases Finset.mem_insert.mp hk with rfl | hk
    · exact ⟨_, rfl, rfl⟩
    · obtain rfl := Finset.mem_singleton.mp hk
      exact ⟨_, rfl, rfl⟩
  · obtain ⟨slots, hslots⟩ : ∃ slots, (Template.indexed ⟨"i"⟩ 1 (.native ⟨"v"⟩)).addAll
        [indexedRow "1" "first", indexedRow "1000000000000" "last"] [] = .ok slots := ⟨_, rfl⟩
    have hP : positions ⟨"i"⟩ (1 : Int64).toInt
        [indexedRow "1" "first", indexedRow "1000000000000" "last"] = {0, 999999999999} := by
      decide +kernel
    have hexact := ((indexed_list_exact ⟨"i"⟩ 1 (.native ⟨"v"⟩)).2.2.2 _ slots hslots).2
    have hmax : ∀ hP, ({0, 999999999999} : Finset Nat).max' hP = 999999999999 := fun _ => rfl
    simp only [hP, hmax] at hexact
    obtain ⟨t, ht, hresult⟩ := (hexact (Finset.insert_nonempty _ _)).2.2.2.2.1 (by decide)
    cases ht
    exact ⟨slots, hslots, hresult⟩

end Template

end Exemplar
