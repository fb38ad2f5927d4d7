import Exemplar.Proofs.Template.Parts

/-!
# Complete results

When the result of a template has to exist, and what it then says. A placeholder is complete if a
solution binds its variable, an object if its entries are, and an array if each of its members is.
-/

namespace Exemplar

/-- Whether a document is an array with one member for each term of a kind. -/
def OneEach (admitted : Term → Prop) (answers : Term → Json → Prop) (d : Json) : Prop :=
  ∃ (ks : List Term) (answer : Term → Json), ks.Nodup ∧ (∀ k, k ∈ ks ↔ admitted k) ∧
    (∀ k ∈ ks, answers k (answer k)) ∧ d = .array (ks.map answer)

lemma OneEach.imp {admitted admitted' : Term → Prop} {answers answers' : Term → Json → Prop}
    {d : Json} (h : OneEach admitted answers d) (hadmitted : ∀ k, admitted k ↔ admitted' k)
    (hanswers : ∀ k d, admitted k → answers k d → answers' k d) :
    OneEach admitted' answers' d := by
  obtain ⟨ks, answer, hnodup, hks, hanswer, rfl⟩ := h
  exact ⟨ks, answer, hnodup, fun k => (hks k).trans (hadmitted k),
    fun k hk => hanswers k _ ((hks k).mp hk) (hanswer k hk), rfl⟩

namespace Template

/-- Whether the solutions that are added to a template make it complete, with a result of a
kind. -/
def Completes (t : Template) (rows : List Solution) (P : Json → Prop) : Prop :=
  ∀ f, t.addAll rows t.start = .ok f → ∃ d, t.result f = .ok d ∧ P d

lemma Completes.imp {t : Template} {rows : List Solution} {P Q : Json → Prop}
    (h : t.Completes rows P) (hPQ : ∀ d, P d → Q d) : t.Completes rows Q := by
  intro f hf
  obtain ⟨d, hd, hP⟩ := h f hf
  exact ⟨d, hd, hPQ d hP⟩

/-! ### Placeholders -/

lemma completes_constant (value : Json) (rows : List Solution) :
    (constant value).Completes rows (· = value) :=
  fun _ _ => ⟨value, rfl, rfl⟩

section

variable {v : Variable} {rows : List Solution} {s : Solution} {t : Term}

/-- A placeholder whose variable is bound takes the value of one of its terms. -/
lemma placeholder_of_mem {value : Term → Except AnswerError Json} {f : Option Json}
    (hs : s ∈ rows) (ht : s.get? v = some t)
    (hf : rows.foldlM (fun f s => fillPlaceholder v value s f) none = .ok f) :
    ∃ d t, placeholderResult v f = .ok d ∧ value t = .ok d ∧ ∃ s ∈ rows, s.get? v = some t := by
  rw [foldlM_fillPlaceholder] at hf
  split at hf
  · next hnone =>
    have hunbound := List.findSome?_eq_none_iff.mp hnone s hs
    rw [ht] at hunbound
    cases hunbound
  · next t hfirst =>
    obtain ⟨d, hd, rfl⟩ := map_eq_ok.mp hf
    exact ⟨d, t, rfl, hd, List.exists_of_findSome?_eq_some hfirst⟩

lemma completes_native (hs : s ∈ rows) (ht : s.get? v = some t) :
    (native v).Completes rows fun d =>
      ∃ t, (∃ s ∈ rows, s.get? v = some t) ∧ t.native? = some d := by
  intro f hf
  obtain ⟨d, t, hd, hvalue, hrow⟩ := placeholder_of_mem hs ht hf
  refine ⟨d, hd, t, hrow, ?_⟩
  unfold nativeValue at hvalue
  split at hvalue
  · next heq =>
    cases hvalue
    exact heq
  · cases hvalue

lemma completes_name (context : Context) (mode : IriMode) (hs : s ∈ rows)
    (ht : s.get? v = some t) : (name v context mode).Completes rows fun d =>
      ∃ iri, (∃ s ∈ rows, s.get? v = some (.iri iri)) ∧
        d = .string (context.compact mode iri.text) := by
  intro f hf
  obtain ⟨d, t, hd, hvalue, hrow⟩ := placeholder_of_mem hs ht hf
  unfold nameValue at hvalue
  split at hvalue
  · next iri =>
    cases hvalue
    exact ⟨_, hd, iri, hrow, rfl⟩
  · cases hvalue

end

/-! ### Objects -/

/-- Whether the solutions that are added to entries make them complete. Their results go behind
those that are there. -/
def EntriesComplete (entries : List (String × Template)) (rows : List Solution)
    (P : Entries → Prop) : Prop :=
  ∀ fs, addAllEntries entries rows (startEntries entries) = .ok fs → ∃ as, P as ∧
    ∀ before : Entries, (∀ e ∈ entries, before.lookup e.1 = none) →
      resultEntries entries fs before = .ok (before ++ as)

lemma insert_of_lookup_eq_none {before : Entries} {key : String} {d : Json}
    (h : before.lookup key = none) : before.insert key d = before ++ [(key, d)] := by
  induction before with
  | nil => rfl
  | cons e rest ih =>
    obtain ⟨k, d'⟩ := e
    rw [List.lookup_cons] at h
    cases hk : key == k with
    | true =>
      rw [hk] at h
      cases h
    | false =>
      rw [hk] at h
      have hne : k ≠ key := fun heq => by simp [heq] at hk
      rw [Entries.insert, if_neg hne, ih h]
      rfl

/-- The results of entries with different keys go behind those that are there. -/
lemma resultEntries_cons_of_new {key : String} {t : Template} {entries : List (String × Template)}
    {f : t.Filling} {fs : Template.Fillings entries} {before as : Entries} {d : Json}
    (hd : t.result f = .ok d) (hbefore : before.lookup key = none)
    (h : resultEntries entries fs (before ++ [(key, d)]) = .ok (before ++ [(key, d)] ++ as)) :
    resultEntries ((key, t) :: entries) (f, fs) before = .ok (before ++ (key, d) :: as) := by
  refine bind_eq_ok.mpr ⟨d, hd, ?_⟩
  rw [insert_of_lookup_eq_none hbefore, h, List.append_assoc]
  rfl

lemma lookup_concat_eq_none {before : Entries} {key key' : String} {d : Json}
    (h : before.lookup key' = none) (hne : key' ≠ key) :
    (before ++ [(key, d)]).lookup key' = none := by
  have hbeq : (key' == key) = false := by simpa using hne
  rw [List.lookup_append, h, Option.none_or, List.lookup_cons, hbeq]
  rfl

lemma entriesComplete_nil (rows : List Solution) : EntriesComplete [] rows (· = []) :=
  fun _ _ => ⟨[], rfl, fun before _ => by rw [List.append_nil]; rfl⟩

lemma EntriesComplete.imp {entries : List (String × Template)} {rows : List Solution}
    {P Q : Entries → Prop} (h : EntriesComplete entries rows P) (hPQ : ∀ as, P as → Q as) :
    EntriesComplete entries rows Q := by
  intro fs hfs
  obtain ⟨as, hP, has⟩ := h fs hfs
  exact ⟨as, hPQ as hP, has⟩

/-- An entry with a key of its own comes in front of the others. -/
lemma entriesComplete_cons {key : String} {t : Template} {entries : List (String × Template)}
    {rows : List Solution} {P : Json → Prop} {Q : Entries → Prop}
    (hkey : key ∉ entries.map Prod.fst) (ht : t.Completes rows P)
    (hentries : EntriesComplete entries rows Q) :
    EntriesComplete ((key, t) :: entries) rows fun as =>
      ∃ d as', as = (key, d) :: as' ∧ P d ∧ Q as' := by
  intro fs hfs
  obtain ⟨hf, hrest⟩ := addAllEntries_cons.mp hfs
  obtain ⟨d, hd, hP⟩ := ht _ hf
  obtain ⟨as, hQ, has⟩ := hentries _ hrest
  refine ⟨(key, d) :: as, ⟨d, as, rfl, hP, hQ⟩, fun before hbefore => ?_⟩
  rw [List.forall_mem_cons] at hbefore
  refine resultEntries_cons_of_new hd hbefore.1 (has _ fun e he => ?_)
  exact lookup_concat_eq_none (hbefore.2 e he)
    fun heq => hkey (List.mem_map.mpr ⟨e, he, heq⟩)

lemma completes_object {entries : List (String × Template)} {rows : List Solution}
    {P : Entries → Prop} (h : EntriesComplete entries rows P) :
    (object none entries).Completes rows fun d => ∃ as, d = .object as ∧ P as := by
  intro fs hfs
  obtain ⟨as, hP, has⟩ := h fs hfs
  exact ⟨_, map_eq_ok.mpr ⟨as, has [] fun _ _ => rfl, rfl⟩, as, rfl, hP⟩

/-- Entries with different keys give the entries of an object. -/
lemma gives_object {entries : List (String × Template)} {rows : List Solution} {as : Entries}
    (hkeys : (as.map Prod.fst).Nodup)
    (h : List.Forall₂ (fun e a => e.1 = a.1 ∧ e.2.Gives rows a.2) entries as) :
    (object none entries).Gives rows (.object as) := by
  have hentries : ∃ fs, addAllEntries entries rows (startEntries entries) = .ok fs ∧
      ∀ before : Entries, (∀ a ∈ as, before.lookup a.1 = none) →
        resultEntries entries fs before = .ok (before ++ as) := by
    induction h with
    | nil => exact ⟨(), addAllEntries_nil rows, fun before _ => by rw [List.append_nil]; rfl⟩
    | @cons e a entries as he _ ih =>
      obtain ⟨key, t⟩ := e
      obtain ⟨rfl, f, hf, hd⟩ := he
      rw [List.map_cons, List.nodup_cons] at hkeys
      obtain ⟨fs, hfs, hresult⟩ := ih hkeys.2
      refine ⟨(f, fs), addAllEntries_cons.mpr ⟨hf, hfs⟩, fun before hbefore => ?_⟩
      rw [List.forall_mem_cons] at hbefore
      refine resultEntries_cons_of_new hd hbefore.1 (hresult _ fun a' ha' => ?_)
      exact lookup_concat_eq_none (hbefore.2 a' ha')
        fun heq => hkeys.1 (List.mem_map.mpr ⟨a', ha', heq⟩)
  obtain ⟨fs, hfs, hresult⟩ := hentries
  exact ⟨fs, hfs, map_eq_ok.mpr ⟨as, hresult [] fun _ _ => rfl, rfl⟩⟩

/-! ### Arrays -/

/-- An array has one member for each term of its variable. -/
lemma completes_set {v : Variable} {member : Template} {rows : List Solution}
    {P : Term → Json → Prop}
    (h : ∀ k, (∃ s ∈ rows, s.get? v = some k) →
      member.Completes (group (·.get? v) k rows) (P k)) :
    (set v member).Completes rows (OneEach (fun k => ∃ s ∈ rows, s.get? v = some k) P) := by
  intro (members : List (Term × member.Filling)) hmembers
  have hspec := members_of_addAll_set hmembers
  have hmember : ∀ k ∈ members.map Prod.fst, ∃ d, P k d ∧
      ∀ f, members.lookup k = some f → member.result f = .ok d := by
    intro k hk
    obtain ⟨f, hf⟩ := Option.isSome_iff_exists.mp ((mem_keys_iff_lookup_isSome members k).mp hk)
    obtain ⟨d, hd, hP⟩ := h k ((hspec.mem_keys k).mp hk) f (hspec.filled k f hf)
    refine ⟨d, hP, fun f' hf' => ?_⟩
    obtain rfl : f = f' := Option.some.inj (hf.symm.trans hf')
    exact hd
  choose! answer hanswer hresult using hmember
  refine ⟨.array ((members.map Prod.fst).map answer), map_eq_ok.mpr ⟨_, mapM_eq_ok.mpr ?_, rfl⟩,
    members.map Prod.fst, answer, hspec.nodup, hspec.mem_keys, hanswer, rfl⟩
  rw [List.map_map, List.forall₂_map_right_iff, List.forall₂_same]
  intro e he
  exact hresult e.1 (List.mem_map_of_mem he) e.2 ((mem_iff_lookup_eq_some hspec.nodup).mp he)

/-- An array whose variable always has the same term has one member, from all solutions. -/
lemma gives_set {v : Variable} {member : Template} {rows : List Solution} {t : Term} {d : Json}
    (hrows : rows ≠ []) (hv : ∀ s ∈ rows, s.get? v = some t) (h : member.Gives rows d) :
    (set v member).Gives rows (.array [d]) := by
  obtain ⟨f, hf, hd⟩ := h
  have hgroup : group (·.get? v) t rows = rows :=
    List.filter_eq_self.mpr fun s hs => by simp [hv s hs]
  obtain ⟨members, hmembers⟩ : ∃ members, (set v member).addAll rows [] = .ok members := by
    refine exists_addAll_set fun s hs k hk => ?_
    obtain rfl := Option.some.inj ((hv s hs).symm.trans hk)
    exact ⟨f, by rwa [hgroup]⟩
  have hspec := members_of_addAll_set hmembers
  have hkeys : members.map Prod.fst = [t] := by
    refine List.perm_singleton.mp ((List.perm_ext_iff_of_nodup hspec.nodup (by simp)).mpr ?_)
    intro k
    rw [hspec.mem_keys, List.mem_singleton]
    constructor
    · rintro ⟨s, hs, hk⟩
      exact Option.some.inj (hk.symm.trans (hv s hs))
    · rintro rfl
      obtain ⟨s, hs⟩ := List.exists_mem_of_ne_nil _ hrows
      exact ⟨s, hs, hv s hs⟩
  obtain ⟨⟨k, f'⟩, rfl, rfl⟩ := List.map_eq_singleton_iff.mp hkeys
  have hf' := hspec.filled k f' (by simp)
  rw [hgroup, hf] at hf'
  cases hf'
  exact ⟨_, hmembers, map_eq_ok.mpr ⟨[d], mapM_eq_ok.mpr (.cons hd .nil), rfl⟩⟩

end Template

end Exemplar
