import Exemplar.Answer
import Exemplar.Proofs.Template.Parts
import Mathlib.Data.List.Perm.Basic

/-!
# The order of solutions

The answer to the same solutions in another order, or with other repetitions, is the same except
for the order in which the members of sets are listed. Placeholders keep the first term and chains
the last successor that they see, so solutions have to agree on what they give for the same members
of the arrays around.
-/

namespace Exemplar

/-! ### The same rows -/

/-- Whether two solutions give a variable the same term, if both bind it. -/
def AgreeOn (v : Variable) (r s : Solution) : Prop :=
  ∀ a b, r.get? v = some a → s.get? v = some b → a = b

/-- Whether every solution of one list is in the other one, in any order and any number. -/
def SameRows (rows rows' : List Solution) : Prop :=
  (∀ r ∈ rows, ∃ r' ∈ rows', r.get? = r'.get?) ∧ ∀ r' ∈ rows', ∃ r ∈ rows, r.get? = r'.get?

section

variable {v : Variable} {rows rows' : List Solution}

lemma firstTerm?_eq_some (h : ∀ r ∈ rows, ∀ s ∈ rows, AgreeOn v r s) {t : Term} :
    firstTerm? v rows = some t ↔ ∃ r ∈ rows, r.get? v = some t := by
  constructor
  · exact List.exists_of_findSome?_eq_some
  · rintro ⟨r, hr, ht⟩
    have hsome : (firstTerm? v rows).isSome :=
      List.findSome?_isSome_iff.mpr ⟨r, hr, by simp [ht]⟩
    obtain ⟨u, hu⟩ := Option.isSome_iff_exists.mp hsome
    obtain ⟨s, hs, hsu⟩ := List.exists_of_findSome?_eq_some hu
    rw [hu, h s hs r hr u t hsu ht]

lemma lastTerm?_eq_some (h : ∀ r ∈ rows, ∀ s ∈ rows, AgreeOn v r s) {t : Term} :
    lastTerm? v rows = some t ↔ ∃ r ∈ rows, r.get? v = some t := by
  have hreverse : ∀ r ∈ rows.reverse, ∀ s ∈ rows.reverse, AgreeOn v r s :=
    fun r hr s hs => h r (List.mem_reverse.mp hr) s (List.mem_reverse.mp hs)
  simpa [firstTerm?, lastTerm?] using firstTerm?_eq_some hreverse (t := t)

lemma SameRows.exists_get? (h : SameRows rows rows') {t : Term} :
    (∃ r ∈ rows, r.get? v = some t) ↔ ∃ r ∈ rows', r.get? v = some t := by
  constructor
  · rintro ⟨r, hr, ht⟩
    obtain ⟨r', hr', heq⟩ := h.1 r hr
    exact ⟨r', hr', heq ▸ ht⟩
  · rintro ⟨r', hr', ht⟩
    obtain ⟨r, hr, heq⟩ := h.2 r' hr'
    exact ⟨r, hr, heq ▸ ht⟩

lemma SameRows.agreeOn (h : SameRows rows rows') (hagree : ∀ r ∈ rows, ∀ s ∈ rows, AgreeOn v r s) :
    ∀ r ∈ rows', ∀ s ∈ rows', AgreeOn v r s := by
  intro r' hr' s' hs' a b ha hb
  obtain ⟨r, hr, hreq⟩ := h.2 r' hr'
  obtain ⟨s, hs, hseq⟩ := h.2 s' hs'
  exact hagree r hr s hs a b (hreq ▸ ha) (hseq ▸ hb)

lemma SameRows.firstTerm?_eq (h : SameRows rows rows')
    (hagree : ∀ r ∈ rows, ∀ s ∈ rows, AgreeOn v r s) :
    firstTerm? v rows = firstTerm? v rows' :=
  Option.ext fun t => by
    rw [firstTerm?_eq_some hagree, h.exists_get?, firstTerm?_eq_some (h.agreeOn hagree)]

lemma SameRows.lastTerm?_eq (h : SameRows rows rows')
    (hagree : ∀ r ∈ rows, ∀ s ∈ rows, AgreeOn v r s) :
    lastTerm? v rows = lastTerm? v rows' :=
  Option.ext fun t => by
    rw [lastTerm?_eq_some hagree, h.exists_get?, lastTerm?_eq_some (h.agreeOn hagree)]

lemma SameRows.group {κ : Type} [DecidableEq κ] {key? : Solution → Option κ}
    (hkey : ∀ r s, r.get? = s.get? → key? r = key? s) (h : SameRows rows rows') (k : κ) :
    SameRows (group key? k rows) (group key? k rows') := by
  constructor
  · intro r hr
    obtain ⟨hrows, hk⟩ := mem_group.mp hr
    obtain ⟨r', hr', heq⟩ := h.1 r hrows
    exact ⟨r', mem_group.mpr ⟨hr', hkey r r' heq ▸ hk⟩, heq⟩
  · intro r' hr'
    obtain ⟨hrows, hk⟩ := mem_group.mp hr'
    obtain ⟨r, hr, heq⟩ := h.2 r' hrows
    exact ⟨r, mem_group.mpr ⟨hr, hkey r r' heq ▸ hk⟩, heq⟩

end

/-! ### Lists side by side -/

/-- What two lists have at the same places is carried over to what is computed from them. -/
lemma exists_forall₂ {α α' β β' : Type} {q : α → α' → Prop} {r : α → β → Prop}
    {r' : α' → β' → Prop} {S : β → β' → Prop}
    (h : ∀ a a' b, q a a' → r a b → ∃ b', r' a' b' ∧ S b b') {as : List α} {as' : List α'}
    {bs : List β} (hq : List.Forall₂ q as as') (hr : List.Forall₂ r as bs) :
    ∃ bs', List.Forall₂ r' as' bs' ∧ List.Forall₂ S bs bs' := by
  induction hq generalizing bs with
  | nil => cases hr; exact ⟨[], .nil, .nil⟩
  | cons hhead _ ih =>
    cases hr with
    | cons hb hbs =>
      obtain ⟨b', hb', hS⟩ := h _ _ _ hhead hb
      obtain ⟨bs', hbs', hSs⟩ := ih hbs
      exact ⟨b' :: bs', .cons hb' hbs', .cons hS hSs⟩

section

variable {κ α β : Type} [DecidableEq κ]

/-- Whether two tables have the same keys, with values that correspond. -/
def Corresponding (P : α → β → Prop) (l : List (κ × α)) (l' : List (κ × β)) : Prop :=
  ∀ k, Option.Rel P (l.lookup k) (l'.lookup k)

variable {P : α → β → Prop} {l : List (κ × α)} {l' : List (κ × β)}

lemma Corresponding.mem_keys (h : Corresponding P l l') (k : κ) :
    k ∈ l.map Prod.fst ↔ k ∈ l'.map Prod.fst := by
  rw [mem_keys_iff_lookup_isSome, mem_keys_iff_lookup_isSome]
  have hk := h k
  revert hk
  cases l.lookup k <;> cases l'.lookup k <;> simp

lemma corresponding_of_map {γ δ : Type} {Q : γ → δ → Prop} {f : α → γ} {g : β → δ}
    (h : Corresponding Q (l.map fun e => (e.1, f e.2)) (l'.map fun e => (e.1, g e.2)))
    (hP : ∀ k a b, l.lookup k = some a → l'.lookup k = some b → Q (f a) (g b) → P a b) :
    Corresponding P l l' := by
  intro k
  have hk := h k
  rw [lookup_map_snd, lookup_map_snd] at hk
  cases ha : l.lookup k with
  | none =>
    cases hb : l'.lookup k with
    | none => exact .none
    | some b => simp [ha, hb] at hk
  | some a =>
    cases hb : l'.lookup k with
    | none => simp [ha, hb] at hk
    | some b =>
      rw [ha, hb] at hk
      exact .some (hP k a b ha hb (Option.rel_some_some.mp hk))

lemma Corresponding.perm_keys (h : Corresponding P l l') (hl : (l.map Prod.fst).Nodup)
    (hl' : (l'.map Prod.fst).Nodup) : (l.map Prod.fst).Perm (l'.map Prod.fst) :=
  (List.perm_ext_iff_of_nodup hl hl').mpr h.mem_keys

/-- One table can be rearranged so that it has the same keys at the same places as the other. -/
lemma Corresponding.exists_perm (h : Corresponding P l l') (hl : (l.map Prod.fst).Nodup)
    (hl' : (l'.map Prod.fst).Nodup) :
    ∃ m, m.Perm l ∧ List.Forall₂ (fun e e' => P e.2 e'.2) m l' := by
  have hrel : List.Forall₂ (fun k e => k = e.1) (l.map Prod.fst) l := by
    rw [List.forall₂_map_left_iff, List.forall₂_same]
    exact fun _ _ => rfl
  obtain ⟨m, hm, hperm⟩ := List.perm_comp_forall₂ (h.perm_keys hl hl').symm hrel
  rw [List.forall₂_map_left_iff] at hm
  have hmem : ∀ e ∈ m, ∀ e' ∈ l', e'.1 = e.1 → P e.2 e'.2 := by
    intro e he e' he' heq
    have hP := h e.1
    rw [(mem_iff_lookup_eq_some hl).mp (hperm.mem_iff.mp he), ← heq,
      (mem_iff_lookup_eq_some hl').mp he'] at hP
    exact Option.rel_some_some.mp hP
  refine ⟨m, hperm, ?_⟩
  clear hperm hrel hl' h
  induction hm with
  | nil => exact .nil
  | cons heq _ ih =>
    refine .cons (hmem _ (by simp) _ (by simp) heq) (ih ?_)
    exact fun e he e' he' => hmem e (by simp [he]) e' (by simp [he'])

end

/-! ### Rearranged documents -/

mutual

/-- The document without the items of its arrays. -/
def Json.outline : Json → Json
  | .array _ => .array []
  | .object entries => .object (outlineEntries entries)
  | value => value

def Json.outlineEntries : Entries → Entries
  | [] => []
  | (key, value) :: rest => (key, value.outline) :: outlineEntries rest

end

namespace Template

mutual

/-- Whether two documents of a template are equal up to the order of the members of its sets. -/
def Rearranged : Template → Json → Json → Prop
  | .constant _, a, b => a = b
  | .native _, a, b => a = b
  | .name _ _ _, a, b => a = b
  | .typed _ _, a, b => a = b
  | .object declaration entries, a, b =>
    ∃ as bs, a = .object as ∧ b = .object bs ∧
      RearrangedEntries entries (declarationEntries declaration) (declarationEntries declaration)
        as bs
  | .set _ member, a, b =>
    ∃ as mid bs, a = .array as ∧ b = .array bs ∧ mid.Perm as ∧
      List.Forall₂ member.Rearranged mid bs
  | .indexed _ _ member, a, b =>
    -- a position without a solution is an empty object in both
    ∃ as bs, a = .array as ∧ b = .array bs ∧
      List.Forall₂ (fun a b => a = b ∨ member.Rearranged a b) as bs
  | .linked _ _ _ member, a, b =>
    ∃ as bs, a = .array as ∧ b = .array bs ∧ List.Forall₂ member.Rearranged as bs
  | .unwrapped key inner, a, b =>
    ∃ as bs, inner.Rearranged (.object as) (.object bs) ∧ as.lookup key = some a ∧
      bs.lookup key = some b

/-- Whether two lists of entries come from those before by entries that are rearranged. -/
def RearrangedEntries : List (String × Template) → Entries → Entries → Entries → Entries → Prop
  | [], before, before', as, bs => as = before ∧ bs = before'
  | (key, entry) :: rest, before, before', as, bs =>
    ∃ a b, entry.Rearranged a b ∧
      RearrangedEntries rest (before.insert key a) (before'.insert key b) as bs

end

mutual

/-- Whether two solutions agree on what a template takes from both: on its placeholders and on the
head of a chain, on the successor of a slot that both bind, and inside an array if they have the
same member. -/
def Agree : Template → Solution → Solution → Prop
  | .constant _, _, _ => True
  | .native v, r, s => AgreeOn v r s
  | .name v _ _, r, s => AgreeOn v r s
  | .typed v _, r, s => AgreeOn v r s
  | .object _ entries, r, s => AgreeEntries entries r s
  | .set v member, r, s =>
    (∃ k, r.get? v = some k ∧ s.get? v = some k) → member.Agree r s
  | .indexed index origin member, r, s =>
    (∃ k, positionOf? index origin r = some k ∧ positionOf? index origin s = some k) →
      member.Agree r s
  | .linked list slot rest member, r, s =>
    AgreeOn list r s ∧
      ((∃ k, r.get? slot = some k ∧ s.get? slot = some k) → AgreeOn rest r s ∧ member.Agree r s)
  | .unwrapped _ inner, r, s => inner.Agree r s

def AgreeEntries : List (String × Template) → Solution → Solution → Prop
  | [], _, _ => True
  | (_, entry) :: rest, r, s => entry.Agree r s ∧ AgreeEntries rest r s

end

end Template

lemma Json.outlineEntries_insert (entries : Entries) (key : String) (value : Json) :
    outlineEntries (entries.insert key value) =
      (outlineEntries entries).insert key value.outline := by
  induction entries with
  | nil => rfl
  | cons e rest ih =>
    obtain ⟨k, v⟩ := e
    by_cases hk : k = key <;> simp [Entries.insert, outlineEntries, hk, ih]

lemma Json.lookup_outlineEntries (entries : Entries) (key : String) :
    (outlineEntries entries).lookup key = (entries.lookup key).map outline := by
  induction entries with
  | nil => rfl
  | cons e rest ih =>
    rw [outlineEntries, List.lookup_cons, List.lookup_cons, ih]
    cases key == e.1 <;> rfl

namespace Template

mutual

lemma Rearranged.outline_eq {t : Template} {a b : Json} (h : t.Rearranged a b) :
    a.outline = b.outline := by
  match t with
  | .constant _ | .native _ | .name _ _ _ | .typed _ _ =>
    exact congrArg Json.outline h
  | .object declaration entries =>
    obtain ⟨as, bs, rfl, rfl, hentries⟩ := h
    rw [Json.outline, Json.outline, hentries.outline_eq rfl]
  | .set _ _ =>
    obtain ⟨as, mid, bs, rfl, rfl, -⟩ := h
    rfl
  | .indexed _ _ _ | .linked _ _ _ _ =>
    obtain ⟨as, bs, rfl, rfl, -⟩ := h
    rfl
  | .unwrapped key inner =>
    obtain ⟨as, bs, hinner, ha, hb⟩ := h
    have hkey := congrArg (fun entries => List.lookup key entries)
      (Json.object.inj (hinner.outline_eq))
    simpa [Json.lookup_outlineEntries, ha, hb] using hkey

lemma RearrangedEntries.outline_eq {entries : List (String × Template)}
    {before before' as bs : Entries} (h : RearrangedEntries entries before before' as bs)
    (hbefore : Json.outlineEntries before = Json.outlineEntries before') :
    Json.outlineEntries as = Json.outlineEntries bs := by
  match entries with
  | [] =>
    obtain ⟨rfl, rfl⟩ := h
    exact hbefore
  | (key, entry) :: rest =>
    obtain ⟨a, b, hentry, hrest⟩ := h
    refine hrest.outline_eq ?_
    rw [Json.outlineEntries_insert, Json.outlineEntries_insert, hbefore, hentry.outline_eq]

end

/-! ### Folding in another order -/

/-- Whether a second filling has a document wherever the first one has, up to the order of the
members of sets. -/
def Follows (t : Template) (f f' : t.Filling) : Prop :=
  ∀ d, t.result f = .ok d → ∃ d', t.result f' = .ok d' ∧ t.Rearranged d d'

/-- Whether the order of solutions that agree does not matter to a template. -/
def OrderFree (t : Template) : Prop :=
  ∀ rows rows', SameRows rows rows' → (∀ r ∈ rows, ∀ s ∈ rows, t.Agree r s) →
    ∀ f, t.addAll rows t.start = .ok f → ∃ f', t.addAll rows' t.start = .ok f' ∧ t.Follows f f'

/-- Whether the order of solutions that agree does not matter to the entries of an object. -/
def OrderFreeEntries (entries : List (String × Template)) : Prop :=
  ∀ rows rows', SameRows rows rows' → (∀ r ∈ rows, ∀ s ∈ rows, AgreeEntries entries r s) →
    ∀ fs, addAllEntries entries rows (startEntries entries) = .ok fs →
      ∃ fs', addAllEntries entries rows' (startEntries entries) = .ok fs' ∧
        ∀ before before' as, resultEntries entries fs before = .ok as →
          ∃ bs, resultEntries entries fs' before' = .ok bs ∧
            RearrangedEntries entries before before' as bs

lemma orderFree_constant (value : Json) : (Template.constant value).OrderFree := by
  intro rows rows' _ _ f _
  exact ⟨(), addAll_constant value rows' (), fun d hd => ⟨d, hd, rfl⟩⟩

/-- A placeholder has the same value if solutions agree on its variable. -/
lemma foldlM_fillPlaceholder_eq {v : Variable} {value : Term → Except AnswerError Json}
    {rows rows' : List Solution} (h : SameRows rows rows')
    (hagree : ∀ r ∈ rows, ∀ s ∈ rows, AgreeOn v r s) :
    rows.foldlM (fun f s => fillPlaceholder v value s f) none =
      rows'.foldlM (fun f s => fillPlaceholder v value s f) none := by
  rw [foldlM_fillPlaceholder, foldlM_fillPlaceholder, h.firstTerm?_eq hagree]

lemma orderFree_native (v : Variable) : (Template.native v).OrderFree := by
  intro rows rows' hsame hagree f hf
  exact ⟨f, (foldlM_fillPlaceholder_eq hsame hagree).symm.trans hf, fun d hd => ⟨d, hd, rfl⟩⟩

lemma orderFree_name (v : Variable) (context : Context) (mode : IriMode) :
    (Template.name v context mode).OrderFree := by
  intro rows rows' hsame hagree f hf
  exact ⟨f, (foldlM_fillPlaceholder_eq hsame hagree).symm.trans hf, fun d hd => ⟨d, hd, rfl⟩⟩

lemma orderFree_typed (v : Variable) (datatype : Iri) : (Template.typed v datatype).OrderFree := by
  intro rows rows' hsame hagree f hf
  exact ⟨f, (foldlM_fillPlaceholder_eq hsame hagree).symm.trans hf, fun d hd => ⟨d, hd, rfl⟩⟩

lemma orderFree_object {entries : List (String × Template)} (h : OrderFreeEntries entries)
    (declaration : Option Json) : (Template.object declaration entries).OrderFree := by
  intro rows rows' hsame hagree f hf
  obtain ⟨f', hf', hresult⟩ := h rows rows' hsame hagree f hf
  refine ⟨f', hf', fun d hd => ?_⟩
  obtain ⟨as, has, rfl⟩ := map_eq_ok.mp hd
  obtain ⟨bs, hbs, hentries⟩ := hresult _ (declarationEntries declaration) as has
  exact ⟨.object bs, map_eq_ok.mpr ⟨bs, hbs, rfl⟩, as, bs, rfl, rfl, hentries⟩

lemma orderFreeEntries_nil : OrderFreeEntries [] := by
  intro rows rows' _ _ fs _
  refine ⟨(), addAllEntries_nil rows', fun before before' as has => ?_⟩
  cases has
  exact ⟨before', rfl, rfl, rfl⟩

lemma orderFreeEntries_cons {key : String} {t : Template} {entries : List (String × Template)}
    (ht : t.OrderFree) (hentries : OrderFreeEntries entries) :
    OrderFreeEntries ((key, t) :: entries) := by
  intro rows rows' hsame hagree fs hfs
  obtain ⟨hhead, htail⟩ := addAllEntries_cons.mp hfs
  obtain ⟨f', hf', hfollows⟩ := ht rows rows' hsame (fun r hr s hs => (hagree r hr s hs).1) _ hhead
  obtain ⟨fs', hfs', hresult⟩ :=
    hentries rows rows' hsame (fun r hr s hs => (hagree r hr s hs).2) _ htail
  refine ⟨(f', fs'), addAllEntries_cons.mpr ⟨hf', hfs'⟩, fun before before' as has => ?_⟩
  obtain ⟨a, ha, hrest⟩ := bind_eq_ok.mp has
  obtain ⟨b, hb, hab⟩ := hfollows a ha
  obtain ⟨bs, hbs, hrearranged⟩ := hresult _ (before'.insert key b) as hrest
  exact ⟨bs, bind_eq_ok.mpr ⟨b, hb, hbs⟩, a, b, hab, hrearranged⟩

/-- A member takes its own solutions in another order, so the members of an array correspond. -/
lemma OrderFree.members {κ : Type} [DecidableEq κ] {key? : Solution → Option κ}
    {member : Template} (hmember : member.OrderFree)
    (hkey : ∀ r s, r.get? = s.get? → key? r = key? s) {rows rows' : List Solution}
    (hsame : SameRows rows rows')
    (hagree : ∀ r ∈ rows, ∀ s ∈ rows, (∃ k, key? r = some k ∧ key? s = some k) →
      member.Agree r s)
    {members : List (κ × member.Filling)} (h : Members key? member rows members) :
    (∀ s ∈ rows', ∀ k, key? s = some k →
      ∃ f, member.addAll (group key? k rows') member.start = .ok f) ∧
    ∀ members', Members key? member rows' members' →
      Corresponding member.Follows members members' := by
  have hgroup : ∀ k f, members.lookup k = some f →
      ∃ f', member.addAll (group key? k rows') member.start = .ok f' ∧ member.Follows f f' := by
    intro k f hf
    refine hmember _ _ (hsame.group hkey k) (fun r hr s hs => ?_) f (h.filled k f hf)
    obtain ⟨hr, hrk⟩ := mem_group.mp hr
    obtain ⟨hs, hsk⟩ := mem_group.mp hs
    exact hagree r hr s hs ⟨k, hrk, hsk⟩
  have hkeys : ∀ k, (∃ s ∈ rows', key? s = some k) ↔ (members.lookup k).isSome := by
    intro k
    rw [← mem_keys_iff_lookup_isSome, h.mem_keys]
    constructor
    · rintro ⟨s', hs', hk⟩
      obtain ⟨s, hs, heq⟩ := hsame.2 s' hs'
      exact ⟨s, hs, hkey s s' heq ▸ hk⟩
    · rintro ⟨s, hs, hk⟩
      obtain ⟨s', hs', heq⟩ := hsame.1 s hs
      exact ⟨s', hs', hkey s s' heq ▸ hk⟩
  constructor
  · intro s hs k hk
    obtain ⟨f, hf⟩ := Option.isSome_iff_exists.mp ((hkeys k).mp ⟨s, hs, hk⟩)
    obtain ⟨f', hf', -⟩ := hgroup k f hf
    exact ⟨f', hf'⟩
  · intro members' h' k
    have hiff : (members.lookup k).isSome ↔ (members'.lookup k).isSome := by
      rw [← hkeys, ← mem_keys_iff_lookup_isSome, h'.mem_keys]
    cases hf : members.lookup k with
    | none =>
      cases hf' : members'.lookup k with
      | none => exact .none
      | some f' => simp [hf, hf'] at hiff
    | some f =>
      cases hf' : members'.lookup k with
      | none => simp [hf, hf'] at hiff
      | some f' =>
        obtain ⟨g, hg, hfollows⟩ := hgroup k f hf
        rw [h'.filled k f' hf'] at hg
        cases hg
        exact .some hfollows

lemma orderFree_set (v : Variable) {member : Template} (h : member.OrderFree) :
    (Template.set v member).OrderFree := by
  intro rows rows' hsame hagree f hf
  have hmembers := members_of_addAll_set hf
  obtain ⟨hexists, hcorr⟩ :=
    h.members (fun r s heq => congrFun heq v) hsame hagree hmembers
  obtain ⟨f', hf'⟩ := exists_addAll_set hexists
  have hmembers' := members_of_addAll_set hf'
  refine ⟨f', hf', fun d hd => ?_⟩
  obtain ⟨as, has, rfl⟩ := map_eq_ok.mp hd
  obtain ⟨m, hperm, hm⟩ := (hcorr f' hmembers').exists_perm hmembers.nodup hmembers'.nodup
  obtain ⟨mid, hmid, hmidperm⟩ := List.perm_comp_forall₂ hperm (mapM_eq_ok.mp has)
  obtain ⟨bs, hbs, hrearranged⟩ := exists_forall₂ (S := member.Rearranged)
    (fun e e' b (hP : member.Follows e.2 e'.2) (hb : member.result e.2 = .ok b) => hP b hb) hm hmid
  exact ⟨.array bs, map_eq_ok.mpr ⟨bs, mapM_eq_ok.mpr hbs, rfl⟩, as, mid, bs, rfl, rfl, hmidperm,
    hrearranged⟩

/-! ### Chains -/

/-- A chain is walked in the same way if its slots correspond and have the same successors. -/
lemma walkChain_follows {member : Template} {slots slots' : List (Term × LinkedSlot member.Filling)}
    (h : Corresponding (fun a b => a.rest = b.rest ∧ member.Follows a.item b.item) slots slots')
    {n : Nat} {current : Term} {as : List Json}
    (hwalk : walkChain member.result slots n current = .ok as) :
    ∃ bs, walkChain member.result slots' n current = .ok bs ∧
      List.Forall₂ member.Rearranged as bs := by
  induction n generalizing current as with
  | zero =>
    rcases walkChain_eq_ok.mp hwalk with ⟨hnil, rfl⟩ | ⟨-, m, _, _, _, _, _, hm, -⟩
    · exact ⟨[], walkChain_eq_ok.mpr (.inl ⟨hnil, rfl⟩), .nil⟩
    · cases hm
  | succ n ih =>
    rcases walkChain_eq_ok.mp hwalk with ⟨hnil, rfl⟩ |
      ⟨hne, m, node, slot, next, a, as, hm, rfl, hslot, ha, hnext, has, rfl⟩
    · exact ⟨[], walkChain_eq_ok.mpr (.inl ⟨hnil, rfl⟩), .nil⟩
    · cases hm
      have hk := h (.node node)
      rw [hslot] at hk
      cases hslot' : slots'.lookup (.node node) with
      | none => simp [hslot'] at hk
      | some slot' =>
        rw [hslot'] at hk
        obtain ⟨hrest, hitem⟩ := Option.rel_some_some.mp hk
        obtain ⟨b, hb, hab⟩ := hitem a ha
        obtain ⟨bs, hbs, hrearranged⟩ := ih has
        exact ⟨b :: bs, walkChain_eq_ok.mpr (.inr ⟨hne, n, node, slot', next, b, bs, rfl, rfl,
          hslot', hb, hrest ▸ hnext, hbs, rfl⟩), .cons hab hrearranged⟩

lemma orderFree_linked (list slot rest : Variable) {member : Template} (h : member.OrderFree) :
    (Template.linked list slot rest member).OrderFree := by
  intro rows rows' hsame hagree chain hchain
  have hmembers := members_of_addAll_linked hchain
  obtain ⟨hexists, hcorr⟩ := h.members (fun r s heq => congrFun heq slot) hsame
    (fun r hr s hs hk => ((hagree r hr s hs).2 hk).2) hmembers
  obtain ⟨chain', hchain'⟩ := exists_addAll_linked list rest hexists
  have hmembers' := members_of_addAll_linked hchain'
  have hitems := hcorr _ hmembers'
  have hhead : chain.head = chain'.head := by
    rw [(addAll_linked.mp hchain).1, (addAll_linked.mp hchain').1,
      hsame.firstTerm?_eq fun r hr s hs => (hagree r hr s hs).1]
    rfl
  have hslots : Corresponding (fun a b => a.rest = b.rest ∧ member.Follows a.item b.item)
      chain.slots chain'.slots := by
    refine corresponding_of_map hitems fun k s s' hs hs' hfollows => ⟨?_, hfollows⟩
    rw [rest_of_addAll_linked hchain hs, rest_of_addAll_linked hchain' hs']
    refine (hsame.group (fun r s heq => congrFun heq slot) k).lastTerm?_eq fun r hr s hs => ?_
    obtain ⟨hr, hrk⟩ := mem_group.mp hr
    obtain ⟨hs, hsk⟩ := mem_group.mp hs
    exact ((hagree r hr s hs).2 ⟨k, hrk, hsk⟩).1
  have hlength : chain.slots.length = chain'.slots.length := by
    simpa using (hitems.perm_keys hmembers.nodup hmembers'.nodup).length_eq
  refine ⟨chain', hchain', fun d hd => ?_⟩
  change linkedResult member.result list chain = .ok d at hd
  change ∃ d', linkedResult member.result list chain' = .ok d' ∧ _
  unfold linkedResult at hd ⊢
  rw [← hhead]
  cases hhead' : chain.head with
  | none => simp [hhead'] at hd
  | some head =>
    simp only [hhead'] at hd ⊢
    obtain ⟨as, has, rfl⟩ := map_eq_ok.mp hd
    obtain ⟨bs, hbs, hrearranged⟩ := walkChain_follows hslots has
    exact ⟨.array bs, map_eq_ok.mpr ⟨bs, hlength ▸ hbs, rfl⟩, as, bs, rfl, rfl, hrearranged⟩

/-! ### Positions -/

/-- The last position only depends on the positions that there are. -/
lemma lastPosition?_eq {α β : Type} {slots : List (Nat × IndexedSlot α)}
    {slots' : List (Nat × IndexedSlot β)}
    (h : ∀ k, k ∈ slots.map Prod.fst ↔ k ∈ slots'.map Prod.fst) :
    (lastPosition? slots).map Prod.fst = (lastPosition? slots').map Prod.fst := by
  have hle : ∀ {γ δ : Type} {m : List (Nat × IndexedSlot γ)} {m' : List (Nat × IndexedSlot δ)},
      (∀ k, k ∈ m.map Prod.fst → k ∈ m'.map Prod.fst) → ∀ e, lastPosition? m = some e →
        ∃ e', lastPosition? m' = some e' ∧ e.1 ≤ e'.1 := by
    intro γ δ m m' hsub e he
    obtain ⟨e', he', heq⟩ :=
      List.mem_map.mp (hsub _ (List.mem_map_of_mem ((lastPosition?_spec m).2 e he).1))
    cases hlast : lastPosition? m' with
    | none =>
      rw [(lastPosition?_spec m').1.mp hlast] at he'
      cases he'
    | some last => exact ⟨last, rfl, heq ▸ ((lastPosition?_spec m').2 last hlast).2 e' he'⟩
  cases he : lastPosition? slots with
  | none =>
    cases he' : lastPosition? slots' with
    | none => rfl
    | some e' =>
      obtain ⟨e, hlast, -⟩ := hle (fun k => (h k).mpr) e' he'
      rw [he] at hlast
      cases hlast
  | some e =>
    obtain ⟨e', he', hee'⟩ := hle (fun k => (h k).mp) e he
    obtain ⟨e₂, he₂, he'e₂⟩ := hle (fun k => (h k).mpr) e' he'
    rw [he] at he₂
    cases he₂
    rw [he', Option.map_some, Option.map_some, Nat.le_antisymm hee' he'e₂]

lemma itemAt_follows {member : Template} {slots slots' : List (Nat × IndexedSlot member.Filling)}
    (h : Corresponding (fun a b => member.Follows a.item b.item) slots slots') {position : Nat}
    {a : Json} (ha : itemAt member.result slots position = .ok a) :
    ∃ b, itemAt member.result slots' position = .ok b ∧ (a = b ∨ member.Rearranged a b) := by
  have hk := h position
  unfold itemAt at ha ⊢
  cases hs : slots.lookup position with
  | none =>
    cases hs' : slots'.lookup position with
    | some s' => simp [hs, hs'] at hk
    | none =>
      simp only [hs] at ha
      exact ⟨a, ha, .inl rfl⟩
  | some s =>
    cases hs' : slots'.lookup position with
    | none => simp [hs, hs'] at hk
    | some s' =>
      rw [hs, hs'] at hk
      simp only [hs] at ha
      obtain ⟨b, hb, hab⟩ := Option.rel_some_some.mp hk a ha
      exact ⟨b, hb, .inr hab⟩

lemma indexedResult_follows {member : Template} (index : Variable)
    {slots slots' : List (Nat × IndexedSlot member.Filling)}
    (h : Corresponding (fun a b => member.Follows a.item b.item) slots slots')
    (hlength : slots.length = slots'.length) {d : Json}
    (hd : indexedResult member.result index slots = .ok d) :
    ∃ d', indexedResult member.result index slots' = .ok d' ∧
      ∃ as bs, d = .array as ∧ d' = .array bs ∧
        List.Forall₂ (fun a b => a = b ∨ member.Rearranged a b) as bs := by
  have hlast := lastPosition?_eq h.mem_keys
  rcases indexedResult_eq_ok.mp hd with ⟨hnone, rfl⟩ | ⟨e, he, hmissing, as, has, rfl⟩
  · rw [hnone, Option.map_none, eq_comm, Option.map_eq_none_iff] at hlast
    exact ⟨_, indexedResult_eq_ok.mpr (.inl ⟨hlast, rfl⟩), [], [], rfl, rfl, .nil⟩
  · rw [he, Option.map_some, eq_comm, Option.map_eq_some_iff] at hlast
    obtain ⟨e', he', heq⟩ := hlast
    obtain ⟨bs, hbs, hrearranged⟩ := exists_forall₂ (q := Eq)
      (fun position position' a hposition ha => itemAt_follows h (hposition ▸ ha))
      (List.forall₂_same.mpr fun _ _ => rfl) (mapM_eq_ok.mp has)
    refine ⟨.array bs, indexedResult_eq_ok.mpr (.inr ⟨e', he', ?_, bs, ?_, rfl⟩), as, bs, rfl, rfl,
      hrearranged⟩
    · rw [heq, ← hlength]
      exact hmissing
    · rw [heq]
      exact mapM_eq_ok.mpr hbs

lemma orderFree_indexed (index : Variable) (origin : Int) {member : Template}
    (h : member.OrderFree) : (Template.indexed index origin member).OrderFree := by
  intro rows rows' hsame hagree (slots : List (Nat × IndexedSlot member.Filling)) hslots
  have hmembers := members_of_addAll_indexed hslots
  have hkey : ∀ r s : Solution, r.get? = s.get? →
      positionOf? index origin r = positionOf? index origin s := by
    intro r s heq
    rw [positionOf?, positionOf?, heq]
  obtain ⟨hexists, hcorr⟩ := h.members hkey hsame hagree hmembers
  have hpositions : ∀ s ∈ rows', (s.get? index).isSome → (positionOf? index origin s).isSome := by
    intro s' hs'
    obtain ⟨s, hs, heq⟩ := hsame.2 s' hs'
    rw [← heq, ← hkey s s' heq]
    exact (addAll_indexed.mp hslots).1 s hs
  obtain ⟨(slots' : List (Nat × IndexedSlot member.Filling)), hslots'⟩ :=
    exists_addAll_indexed hpositions hexists
  have hmembers' := members_of_addAll_indexed hslots'
  have hitems := hcorr _ hmembers'
  have hlength : slots.length = slots'.length := by
    simpa using (hitems.perm_keys hmembers.nodup hmembers'.nodup).length_eq
  exact ⟨slots', hslots', fun d hd => indexedResult_follows index
    (corresponding_of_map hitems fun _ _ _ _ _ hfollows => hfollows) hlength hd⟩

lemma orderFree_unwrapped (key : String) {inner : Template} (h : inner.OrderFree) :
    (Template.unwrapped key inner).OrderFree := by
  intro rows rows' hsame hagree f hf
  obtain ⟨f', hf', hfollows⟩ := h rows rows' hsame hagree f hf
  refine ⟨f', hf', fun d hd => ?_⟩
  obtain ⟨a, ha, hunwrap⟩ := bind_eq_ok.mp hd
  obtain ⟨b, hb, hab⟩ := hfollows a ha
  obtain ⟨as, rfl, hd⟩ : ∃ as, a = .object as ∧ as.lookup key = some d := by
    unfold unwrap at hunwrap
    split at hunwrap
    · next as =>
      split at hunwrap
      · next value hvalue =>
        cases hunwrap
        exact ⟨as, rfl, hvalue⟩
      · cases hunwrap
    · cases hunwrap
  -- the other document has the same outline, so it is an object with the same keys
  have houtline := hab.outline_eq
  cases b with
  | object bs =>
    have hkey := congrArg (fun entries => List.lookup key entries) (Json.object.inj houtline)
    simp only [Json.lookup_outlineEntries, hd, Option.map_some] at hkey
    obtain ⟨d', hd', -⟩ := Option.map_eq_some_iff.mp hkey.symm
    refine ⟨d', bind_eq_ok.mpr ⟨_, hb, ?_⟩, as, bs, hab, hd, hd'⟩
    simp only [unwrap, hd']
  | _ => simp [Json.outline] at houtline

mutual

lemma orderFree (t : Template) : t.OrderFree := by
  match t with
  | .constant value => exact orderFree_constant value
  | .native v => exact orderFree_native v
  | .name v context mode => exact orderFree_name v context mode
  | .typed v datatype => exact orderFree_typed v datatype
  | .object declaration entries => exact orderFree_object (orderFreeEntries entries) declaration
  | .set v member => exact orderFree_set v (orderFree member)
  | .indexed index origin member => exact orderFree_indexed index origin (orderFree member)
  | .linked list slot rest member => exact orderFree_linked list slot rest (orderFree member)
  | .unwrapped key inner => exact orderFree_unwrapped key (orderFree inner)

lemma orderFreeEntries (entries : List (String × Template)) : OrderFreeEntries entries := by
  match entries with
  | [] => exact orderFreeEntries_nil
  | (_, t) :: rest => exact orderFreeEntries_cons (orderFree t) (orderFreeEntries rest)

end

/-- The same solutions in any order and any number have the same answer, except for the order in
which the members of sets are listed. Solutions have to agree on what they give for the same
members of the arrays around. -/
theorem answer_rearranged (t : Template) {rows rows' : List Solution}
    (hsame : SameRows rows rows') (hagree : ∀ r ∈ rows, ∀ s ∈ rows, t.Agree r s) {d : Json}
    (hd : t.answer rows = .ok d) : ∃ d', t.answer rows' = .ok d' ∧ t.Rearranged d d' := by
  obtain ⟨f, hf, hresult⟩ := bind_eq_ok.mp hd
  obtain ⟨f', hf', hfollows⟩ := t.orderFree rows rows' hsame hagree f hf
  obtain ⟨d', hd', hrearranged⟩ := hfollows d hresult
  exact ⟨d', bind_eq_ok.mpr ⟨f', hf', hd'⟩, hrearranged⟩

/-- Two members that are found in either order, one of them twice. -/
theorem answer_rearranged_two_members :
    let v : Variable := ⟨"root"⟩
    let row (text : String) : Solution := [(v, .literal (.simple text))]
    ∃ d', (Template.set v (.native v)).answer [row "b", row "a", row "b"] = .ok d' ∧
      (Template.set v (.native v)).Rearranged (.array [.string "a", .string "b"]) d' := by
  intro v row
  refine answer_rearranged _ (?_ : SameRows [row "a", row "b"] _) ?_ rfl
  · simp [SameRows]
  · rintro r - s - ⟨k, hr, hs⟩ a b ha hb
    rw [hr] at ha
    rw [hs] at hb
    cases ha
    cases hb
    rfl

end Template

end Exemplar
