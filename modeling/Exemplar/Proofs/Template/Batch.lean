import Exemplar.Answer
import Exemplar.Proofs.Template.IndexedLists

/-!
# All rows at once

What is filled in for a template by all solutions at once: they are grouped by key for each array,
and each group is filled in on its own. Adding the solutions one after the other comes to the same,
at any depth, and fails exactly if this does.
-/

namespace Exemplar

/-! ### Groups in order -/

section

variable {κ α ε σ : Type} [DecidableEq κ] {key? : σ → Option κ} {fresh : σ → α}
  {change : σ → α → Except ε α} {rows : List σ}

/-- The keys of some rows, each where it comes first. -/
def keysOf (key? : σ → Option κ) (rows : List σ) : List κ := (rows.filterMap key?).eraseDups

lemma mem_keysOf {k : κ} : k ∈ keysOf key? rows ↔ ∃ s ∈ rows, key? s = some k := by
  rw [keysOf, List.mem_eraseDups, List.mem_filterMap]

lemma group_ne_nil {k : κ} (hk : k ∈ keysOf key? rows) : group key? k rows ≠ [] := by
  obtain ⟨s, hs⟩ := mem_keysOf.mp hk
  exact List.ne_nil_of_mem (mem_group.mpr hs)

lemma keys_putAt (key : κ) (a : α) (l : List (κ × α)) :
    (putAt key a l).map Prod.fst =
      if key ∈ l.map Prod.fst then l.map Prod.fst else l.map Prod.fst ++ [key] := by
  induction l with
  | nil => simp [putAt]
  | cons e rest ih =>
    obtain ⟨k, b⟩ := e
    by_cases hk : k = key
    · simp [putAt, hk]
    · rw [putAt, if_neg hk, List.map_cons, ih]
      by_cases hmem : key ∈ rest.map Prod.fst <;> simp [hmem, Ne.symm hk]

lemma eraseDups_concat (keys : List κ) (k : κ) :
    (keys ++ [k]).eraseDups = if k ∈ keys then keys.eraseDups else keys.eraseDups ++ [k] := by
  rw [List.eraseDups_append]
  by_cases hk : k ∈ keys <;> simp [List.removeAll, List.eraseDups_cons, hk]

/-- Keys are kept in the order in which they come first. -/
lemma keys_of_foldlM {l : List (κ × α)}
    (h : rows.foldlM (addToGroup key? fresh change) [] = .ok l) :
    l.map Prod.fst = keysOf key? rows := by
  induction rows using List.reverseRecOn generalizing l with
  | nil => cases h; rfl
  | append_singleton rows s ih =>
    obtain ⟨m, hm, hs⟩ := foldlM_concat_eq_ok.mp h
    cases hkey : key? s with
    | none =>
      simp only [addToGroup, hkey, Except.ok.injEq] at hs
      simp [← hs, ih hm, keysOf, hkey]
    | some key =>
      simp only [addToGroup, hkey, updateAt_eq, map_eq_ok] at hs
      obtain ⟨a, -, rfl⟩ := hs
      have hkeys : keysOf key? (rows ++ [s]) = (rows.filterMap key? ++ [key]).eraseDups := by
        simp [keysOf, hkey]
      rw [keys_putAt, ih hm, hkeys, eraseDups_concat, keysOf]
      simp only [List.mem_eraseDups]

/-- The values of the groups, in the order of their keys. -/
def eachGroup (key? : σ → Option κ) (value : List σ → Except ε α) (rows : List σ) :
    Except ε (List (κ × α)) :=
  (keysOf key? rows).mapM fun k => (value (group key? k rows)).map fun a => (k, a)

/-- If each group gives what its value is, all rows give the values of the groups. -/
lemma foldlM_addToGroup_eq_ok_iff {value : List σ → Except ε α} {l : List (κ × α)}
    (hvalue : ∀ k ∈ keysOf key? rows, ∀ a,
      (group key? k rows).foldlM (addToOne fresh change) none = .ok (some a) ↔
        value (group key? k rows) = .ok a) :
    rows.foldlM (addToGroup key? fresh change) [] = .ok l ↔
      eachGroup key? value rows = .ok l := by
  have heach : ∀ {l}, rows.foldlM (addToGroup key? fresh change) [] = .ok l →
      eachGroup key? value rows = .ok l := by
    intro l h
    have hgrouped := grouped_of_foldlM h
    rw [eachGroup, ← keys_of_foldlM h, mapM_eq_ok, List.forall₂_map_left_iff, List.forall₂_same]
    intro e he
    have hlookup := (mem_iff_lookup_eq_some hgrouped.nodup).mp he
    have hkey : e.1 ∈ keysOf key? rows := keys_of_foldlM h ▸ List.mem_map_of_mem he
    exact map_eq_ok.mpr ⟨e.2, (hvalue _ hkey _).mp (hlookup ▸ hgrouped.lookup e.1), rfl⟩
  refine ⟨heach, fun h => ?_⟩
  -- the values of the groups let all rows be added, and what these give is known by now
  obtain ⟨m, hm⟩ : ∃ m, rows.foldlM (addToGroup key? fresh change) [] = .ok m := by
    refine exists_foldlM_addToGroup fun k => ?_
    by_cases hk : k ∈ keysOf key? rows
    · obtain ⟨e, -, he⟩ := exists_mem_right (mapM_eq_ok.mp h) hk
      obtain ⟨a, ha, -⟩ := map_eq_ok.mp he
      exact ⟨some a, (hvalue k hk a).mpr ha⟩
    · have hempty : group key? k rows = [] := by
        refine List.eq_nil_iff_forall_not_mem.mpr fun s hs => hk (mem_keysOf.mpr ?_)
        exact ⟨s, mem_group.mp hs⟩
      exact ⟨none, by rw [hempty]; rfl⟩
  rw [hm, ← h, heach hm]

end

namespace Template

/-! ### Templates -/

/-- The value of the first term of a variable. -/
def firstValue (v : Variable) (value : Term → Except AnswerError Json) (rows : List Solution) :
    Except AnswerError (Option Json) :=
  match firstTerm? v rows with
  | none => .ok none
  | some t => (value t).map some

/-- Fails for the first index term that has no place. -/
def requirePlaces (index : Variable) (place? : Term → Option Nat) (rows : List Solution) :
    Except AnswerError Unit :=
  match (rows.filterMap (·.get? index)).find? fun t => (place? t).isNone with
  | none => .ok ()
  | some t => .error (.badNativeValue index t)

/-- The positions of an indexed list: the first index term and the value of each group. -/
def batchIndexed {α : Type} (index : Variable) (place? : Term → Option Nat)
    (value : List Solution → Except AnswerError α) (rows : List Solution) :
    Except AnswerError (List (Nat × IndexedSlot α)) := do
  requirePlaces index place? rows
  eachGroup (fun s => (s.get? index).bind place?) (fun own =>
    match firstTerm? index own with
    | none => .error (.incomplete index)
    | some t => (value own).map fun item => ⟨t, item⟩) rows

/-- A chain: its first head, and the last successor and the value of each group. -/
def batchLinked {α : Type} (list slot rest : Variable)
    (value : List Solution → Except AnswerError α) (rows : List Solution) :
    Except AnswerError (Chain α) :=
  (eachGroup (·.get? slot) (fun own =>
    (value own).map fun item => ⟨lastTerm? rest own, item⟩) rows).map
      fun slots => ⟨firstTerm? list rows, slots⟩

section

-- the place that an index term has in a list, counted from an origin
variable (place? : Int → Term → Option Nat)

mutual

/-- What solutions fill in for a template, all at once. -/
def batch : (t : Template) → List Solution → Except AnswerError t.Filling
  | .constant _, _ => .ok ()
  | .native v, rows => firstValue v (nativeValue v) rows
  | .name v context mode, rows => firstValue v (nameValue v context mode) rows
  | .typed v datatype, rows => firstValue v (typedValue v datatype) rows
  | .object _ entries, rows => batchEntries entries rows
  | .set v member, rows => eachGroup (·.get? v) (fun own => member.batch own) rows
  | .indexed index origin member, rows =>
    batchIndexed index (place? origin) (fun own => member.batch own) rows
  | .linked list slot rest member, rows =>
    batchLinked list slot rest (fun own => member.batch own) rows
  | .unwrapped _ inner, rows => inner.batch rows

/-- What solutions fill in for the entries of an object: each takes all of them. -/
def batchEntries : (entries : List (String × Template)) → List Solution →
    Except AnswerError (Template.Fillings entries)
  | [], _ => .ok ()
  | (_, entry) :: rest, rows => do
    let f ← entry.batch rows
    let fs ← batchEntries rest rows
    return (f, fs)

end

end

lemma requirePlaces_eq_ok_iff {index : Variable} {place? : Term → Option Nat}
    {rows : List Solution} : requirePlaces index place? rows = .ok () ↔
      ∀ s ∈ rows, (s.get? index).isSome → ((s.get? index).bind place?).isSome := by
  have hplace : ∀ s : Solution, ((s.get? index).isSome → ((s.get? index).bind place?).isSome) ↔
      ∀ t, s.get? index = some t → ¬ (place? t).isNone := by
    intro s
    cases s.get? index <;> simp [Option.isSome_iff_ne_none]
  have hfind : (rows.filterMap (·.get? index)).find? (fun t => (place? t).isNone) = none ↔
      ∀ s ∈ rows, (s.get? index).isSome → ((s.get? index).bind place?).isSome := by
    simp only [List.find?_eq_none, List.mem_filterMap, forall_exists_index, and_imp, hplace]
    exact ⟨fun h s hs t => h t s hs, fun h t s hs => h s hs t⟩
  rw [← hfind, requirePlaces]
  split <;> simp [*]

/-! ### One group -/

section

variable {member : Template} {rows : List Solution}

/-- The slot of a chain: its item is filled in on its own, and its successor is the last one. -/
lemma foldlM_changeSlot_eq_ok_iff {rest : Variable} {slot : LinkedSlot member.Filling} :
    rows.foldlM (fun slot s => changeSlot rest member s slot) ⟨none, member.start⟩ = .ok slot ↔
      member.addAll rows member.start = .ok slot.item ∧ slot.rest = lastTerm? rest rows := by
  refine foldlM_eq_ok_iff_part LinkedSlot.item LinkedSlot.rest
    (fun (s : Solution) slot item => ⟨(s.get? rest).or slot.rest, item⟩) (fun _ _ => rfl)
    (fun _ _ _ => rfl) ?_ fun slot h => ?_
  · rintro ⟨r, f⟩ ⟨r', f'⟩ rfl rfl
    rfl
  · simpa using rest_of_foldlM_changeSlot h

lemma foldlM_changeItem_eq_ok_iff {t : Term} {slot : IndexedSlot member.Filling} :
    rows.foldlM (fun slot s => changeItem member s slot) ⟨t, member.start⟩ = .ok slot ↔
      member.addAll rows member.start = .ok slot.item ∧ slot.index = t := by
  refine foldlM_eq_ok_iff_part IndexedSlot.item IndexedSlot.index
    (fun _ slot item => { slot with item }) (fun _ _ => rfl) (fun _ _ _ => rfl) ?_
    fun slot h => index_of_foldlM_changeItem h
  rintro ⟨i, f⟩ ⟨i', f'⟩ rfl rfl
  rfl

end

/-! ### One after the other -/

section

variable {member : Template} {rows : List Solution}
  -- what is to be shown of the template of the members
  (ih : ∀ rows f, member.addAll rows member.start = .ok f ↔ member.batch position? rows = .ok f)

include ih

lemma addAll_set_eq_ok_iff {v : Variable} {members : List (Term × member.Filling)} :
    (Template.set v member).addAll rows [] = .ok members ↔
      (Template.set v member).batch position? rows = .ok members := by
  rw [addAll_set]
  refine foldlM_addToGroup_eq_ok_iff fun k hk f => ?_
  rw [foldlM_addToOne_const, ← ih]
  exact and_iff_right (group_ne_nil hk)

/-- What the solutions of a position give: their first index term and their item. -/
lemma foldlM_freshSlot_eq_ok_iff {index : Variable} {origin : Int} {k : Nat}
    (hk : k ∈ keysOf (positionOf? index origin) rows) {slot : IndexedSlot member.Filling} :
    (group (positionOf? index origin) k rows).foldlM
        (addToOne (freshSlot index member) (changeItem member)) none = .ok (some slot) ↔
      member.batch position? (group (positionOf? index origin) k rows) = .ok slot.item ∧
        firstTerm? index (group (positionOf? index origin) k rows) = some slot.index := by
  obtain ⟨s, own, hown⟩ := List.exists_cons_of_ne_nil (group_ne_nil hk)
  obtain ⟨t, ht, hfresh⟩ := exists_freshSlot member hown
  rw [hown, foldlM_addToOne_cons, hfresh, map_eq_ok, ht, ← ih]
  simp only [Option.some.injEq, exists_eq_right, foldlM_changeItem_eq_ok_iff]
  exact and_congr_right fun _ => eq_comm

lemma addAll_indexed_eq_ok_iff {index : Variable} {origin : Int}
    {slots : List (Nat × IndexedSlot member.Filling)} :
    (Template.indexed index origin member).addAll rows [] = .ok slots ↔
      batchIndexed index (position? origin) (member.batch position?) rows = .ok slots := by
  rw [addAll_indexed, batchIndexed, bind_eq_ok, Unique.exists_iff]
  refine and_congr requirePlaces_eq_ok_iff.symm (foldlM_addToGroup_eq_ok_iff fun k hk slot => ?_)
  rw [foldlM_freshSlot_eq_ok_iff ih hk]
  obtain ⟨i, item⟩ := slot
  cases firstTerm? index (group (positionOf? index origin) k rows) with
  | none => simp
  | some t => simp [map_eq_ok, and_comm]

lemma addAll_linked_eq_ok_iff {list slot rest : Variable} {chain : Chain member.Filling} :
    (Template.linked list slot rest member).addAll rows ⟨none, []⟩ = .ok chain ↔
      batchLinked list slot rest (member.batch position?) rows = .ok chain := by
  obtain ⟨head, slots⟩ := chain
  have hslots : rows.foldlM (addToGroup (·.get? slot) (fun _ => ⟨none, member.start⟩)
      (changeSlot rest member)) [] = .ok slots ↔ eachGroup (·.get? slot) (fun own =>
        (member.batch position? own).map fun item => ⟨lastTerm? rest own, item⟩) rows =
          .ok slots := by
    refine foldlM_addToGroup_eq_ok_iff fun k hk s => ?_
    obtain ⟨next, item⟩ := s
    rw [foldlM_addToOne_const, foldlM_changeSlot_eq_ok_iff, and_iff_right (group_ne_nil hk), ih,
      map_eq_ok]
    simp [eq_comm, and_comm]
  rw [addAll_linked, batchLinked, map_eq_ok]
  simp [hslots, eq_comm, and_comm]

end

mutual

/-- What solutions fill in one after the other is what they fill in all at once. -/
theorem addAll_start_eq_ok_iff (t : Template) (rows : List Solution) (f : t.Filling) :
    t.addAll rows t.start = .ok f ↔ t.batch position? rows = .ok f := by
  match t with
  | .constant value => exact Eq.congr_left (addAll_constant value rows ())
  | .native v => exact Eq.congr_left (foldlM_fillPlaceholder v (nativeValue v) rows)
  | .name v context mode =>
    exact Eq.congr_left (foldlM_fillPlaceholder v (nameValue v context mode) rows)
  | .typed v datatype =>
    exact Eq.congr_left (foldlM_fillPlaceholder v (typedValue v datatype) rows)
  | .object declaration entries => exact addAllEntries_start_eq_ok_iff entries rows f
  | .set v member => exact addAll_set_eq_ok_iff (addAll_start_eq_ok_iff member)
  | .indexed index origin member => exact addAll_indexed_eq_ok_iff (addAll_start_eq_ok_iff member)
  | .linked list slot rest member => exact addAll_linked_eq_ok_iff (addAll_start_eq_ok_iff member)
  | .unwrapped key inner => exact addAll_start_eq_ok_iff inner rows f

theorem addAllEntries_start_eq_ok_iff (entries : List (String × Template)) (rows : List Solution)
    (fs : Template.Fillings entries) :
    addAllEntries entries rows (startEntries entries) = .ok fs ↔
      batchEntries position? entries rows = .ok fs := by
  match entries with
  | [] => exact Eq.congr_left (addAllEntries_nil rows)
  | (key, entry) :: rest =>
    obtain ⟨f, fs⟩ := fs
    refine addAllEntries_cons.trans ((and_congr (addAll_start_eq_ok_iff entry rows f)
      (addAllEntries_start_eq_ok_iff rest rows fs)).trans ⟨?_, fun h => ?_⟩)
    · rintro ⟨hf, hfs⟩
      exact bind_eq_ok.mpr ⟨f, hf, bind_eq_ok.mpr ⟨fs, hfs, rfl⟩⟩
    · obtain ⟨f', hf, htail⟩ := bind_eq_ok.mp h
      obtain ⟨fs', hfs, heq⟩ := bind_eq_ok.mp htail
      cases heq
      exact ⟨hf, hfs⟩

end

/-- Adding solutions one after the other to a template that nothing is filled in for succeeds
exactly if they can be filled in all at once, and then comes to the same: the filling, and with it
the document, are those of the groups. An index term has a place if it is an integer of 64 bits
whose difference to the origin is not negative and has no more than 63 bits. -/
theorem answer_eq_batch (t : Template) (rows : List Solution) :
    ((∃ f, t.addAll rows t.start = .ok f) ↔ ∃ f, t.batch position? rows = .ok f) ∧
    (∀ f, t.batch position? rows = .ok f →
      t.addAll rows t.start = .ok f ∧ t.answer rows = t.result f) ∧
    ∀ origin term k, position? origin term = some k ↔ StandsFor origin term k := by
  refine ⟨exists_congr (addAll_start_eq_ok_iff t rows), fun f hf => ?_,
    fun _ _ _ => position?_eq_some_iff⟩
  have hadd := (addAll_start_eq_ok_iff t rows f).mpr hf
  refine ⟨hadd, ?_⟩
  rw [answer, hadd]
  rfl

/-- A set whose members have a list each, filled in by solutions that take turns. -/
theorem answer_eq_batch_turns :
    let row (p index item : String) : Solution :=
      (⟨"p"⟩, .iri ⟨p⟩) :: indexedRow index item
    let t : Template := .set ⟨"p"⟩ (.object none
      [("id", .name ⟨"p"⟩ .empty .base), ("list", .indexed ⟨"i"⟩ 1 (.native ⟨"v"⟩))])
    t.answer [row "ex:b" "2" "d", row "ex:a" "1" "a", row "ex:b" "1" "c", row "ex:b" "02" "e"] =
      .ok (.array
        [.object [("id", .string "ex:b"), ("list", .array [.string "c", .string "d"])],
          .object [("id", .string "ex:a"), ("list", .array [.string "a"])]]) := by
  intro row t
  obtain ⟨f, hf, hresult⟩ : ∃ f, t.batch position?
      [row "ex:b" "2" "d", row "ex:a" "1" "a", row "ex:b" "1" "c", row "ex:b" "02" "e"] = .ok f ∧
    t.result f = .ok (.array
        [.object [("id", .string "ex:b"), ("list", .array [.string "c", .string "d"])],
          .object [("id", .string "ex:a"), ("list", .array [.string "a"])]]) := ⟨_, rfl, rfl⟩
  exact ((answer_eq_batch t _).2.1 f hf).2.trans hresult

/-- The place of an index term that is an integer from `origin` on, however far behind it. -/
def placeFrom? (origin : Int) (t : Term) : Option Nat :=
  match t.native? with
  | some (.number (.integer i)) => if origin ≤ i then some (i - origin).toNat else none
  | _ => none

/-- Not each integer from the origin on is a position: some are too far behind it, and some have too
many bits themselves. -/
theorem far_indexes_rejected :
    let least : Template := .indexed ⟨"i"⟩ Int64.minValue.toInt (.native ⟨"v"⟩)
    let greatest : Template := .indexed ⟨"i"⟩ Int64.maxValue.toInt (.native ⟨"v"⟩)
    (least.addAll [indexedRow "0" "x"] least.start =
        .error (.badNativeValue ⟨"i"⟩ (.literal (.typed "0" Iri.xsdInteger))) ∧
      ∃ f, least.batch placeFrom? [indexedRow "0" "x"] = .ok f) ∧
    greatest.addAll [indexedRow "9223372036854775808" "x"] greatest.start =
        .error (.badNativeValue ⟨"i"⟩ (.literal (.typed "9223372036854775808" Iri.xsdInteger))) ∧
      ∃ f, greatest.batch placeFrom? [indexedRow "9223372036854775808" "x"] = .ok f ∧
        greatest.result f = .ok (.array [.object [], .string "x"]) := by
  exact ⟨⟨rfl, _, rfl⟩, rfl, _, rfl, rfl⟩

end Template

end Exemplar
