import Exemplar.Proofs.Context.Dependencies

/-!
# Definitions on demand

A term is defined after the terms that its definition needs, while the terms that need it wait. What
is defined on the way is what the declaration settles, and a term with a settled definition is
defined whenever none of the waiting terms is reached from it.
-/

namespace Exemplar

namespace Declaration

/-! ### States -/

/-- The states in which the terms that are defined have the definitions that the declaration
settles, all other terms mean what they mean around it, and the terms on a path wait. -/
structure Sound (entries : Entries) (c : Context) (path : List String) (st : Progress) : Prop where
  base : st.context.base = c.base
  vocabulary : st.context.vocabulary = c.vocabulary
  settled : ∀ u ∈ st.defined, Settled entries c u (st.context.term? u)
  untouched : ∀ u ∉ st.defined, st.context.term? u = c.term? u
  closed : ∀ u ∈ st.defined, ∀ w, DependsOn entries u w → w ∈ st.defined
  waiting : ∀ u ∈ path, u ∉ st.defined

/-- A step after which some terms are defined, and what they depend on. -/
structure Completes (entries : Entries) (c : Context) (path us : List String)
    (st st' : Progress) : Prop where
  sound : Sound entries c path st'
  kept : ∀ u ∈ st.defined, u ∈ st'.defined
  done : ∀ u ∈ us, entries.has u → u ∈ st'.defined
  reached : ∀ u ∈ st'.defined, u ∈ st.defined ∨ ∃ w ∈ us, Reaches entries w u

/-- Defines some terms one after the other. -/
abbrev defineAll (entries : Entries) (path us : List String) (st : Progress) :
    Except ContextError Progress :=
  us.foldlM (fun st u => define entries path u st) st

section

variable {entries : Entries} {c : Context} {path us us' : List String} {term u name : String}
  {value : Json} {definition : Option TermDefinition} {st m st' : Progress}

lemma sound_start : Sound entries c [] ⟨c, []⟩ where
  base := rfl
  vocabulary := rfl
  settled := fun _ hu => absurd hu List.not_mem_nil
  untouched := fun _ _ => rfl
  closed := fun _ hu => absurd hu List.not_mem_nil
  waiting := fun _ hu => absurd hu List.not_mem_nil

/-- A term starts to wait for what its definition needs. -/
lemma Sound.push (hst : Sound entries c path st) (hterm : term ∉ st.defined) :
    Sound entries c (term :: path) st :=
  { hst with waiting := List.forall_mem_cons.mpr ⟨hterm, hst.waiting⟩ }

lemma Sound.completes (hst : Sound entries c path st)
    (hus : ∀ u ∈ us, entries.has u → u ∈ st.defined) : Completes entries c path us st st where
  sound := hst
  kept := fun _ hu => hu
  done := hus
  reached := fun _ hu => .inl hu

lemma Completes.append (h : Completes entries c path us st m)
    (h' : Completes entries c path us' m st') : Completes entries c path (us ++ us') st st' where
  sound := h'.sound
  kept := fun u hu => h'.kept u (h.kept u hu)
  done := by
    intro u hu hhas
    rcases List.mem_append.mp hu with hu | hu
    · exact h'.kept u (h.done u hu hhas)
    · exact h'.done u hu hhas
  reached := by
    intro u hu
    rcases h'.reached u hu with hu | ⟨w, hw, hreaches⟩
    · refine (h.reached u hu).imp_right ?_
      rintro ⟨w, hw, hreaches⟩
      exact ⟨w, List.mem_append_left _ hw, hreaches⟩
    · exact .inr ⟨w, List.mem_append_right _ hw, hreaches⟩

/-- What is not defined on demand means what it means around the declaration. -/
lemma Sound.term?_eq (hst : Sound entries c path st) (hterm : term ∈ path)
    (hu : ¬ (u ≠ term ∧ entries.has u)) : st.context.term? u = c.term? u := by
  refine hst.untouched u fun hdefined => hu ⟨?_, (hst.settled u hdefined).has⟩
  exact fun heq => hst.waiting term hterm (heq ▸ hdefined)

lemma Sound.knows (hst : Sound entries c path st) (hterm : term ∈ path)
    (hneeded : ∀ u ∈ needed entries term name, u ∈ st.defined) :
    Knows entries c term name st.context where
  vocabulary := hst.vocabulary
  settled := fun u hu => hst.settled u (hneeded u hu)
  other := fun _ hu => hst.term?_eq hterm hu

/-- The state in which a term has got the definition that is read for it. -/
lemma Sound.finish (hst : Sound entries c (term :: path) st) (hterm : term ∉ path)
    (hget : entries.get? term = some value)
    (hdepends : ∀ u, DependsOn entries term u → u ∈ st.defined)
    (hreads : Reads st.context term value definition) :
    Sound entries c path (st.finish term definition) := by
  have hself : (st.finish term definition).context.term? term = definition :=
    Terms.get?_set_self _ _ _
  have hne : ∀ {u}, u ≠ term →
      (st.finish term definition).context.term? u = st.context.term? u :=
    fun h => Terms.get?_set_ne _ _ h
  have hpath := List.forall_mem_cons.mp hst.waiting
  refine ⟨hst.base, hst.vocabulary, fun u hu => ?_, fun u hu => ?_, fun u hu w hw => ?_,
    fun u hu hmem => ?_⟩
  · rcases List.mem_cons.mp hu with rfl | hu
    · rw [hself]
      refine .intro st.context hget hst.vocabulary (fun u hu => ?_) (fun u hu => ?_) hreads
      · exact hst.settled u (hdepends u hu)
      · exact hst.term?_eq List.mem_cons_self hu
    · rw [hne fun heq => hpath.1 (heq ▸ hu)]
      exact hst.settled u hu
  · obtain ⟨hu, hmem⟩ := not_or.mp (List.mem_cons.not.mp hu)
    rw [hne hu]
    exact hst.untouched u hmem
  · rcases List.mem_cons.mp hu with rfl | hu
    · exact List.mem_cons_of_mem _ (hdepends w hw)
    · exact List.mem_cons_of_mem _ (hst.closed u hu w hw)
  · rcases List.mem_cons.mp hmem with rfl | hmem
    · exact hterm hu
    · exact hpath.2 u hu hmem

lemma Completes.finish (hterm : term ∉ path) (hget : entries.get? term = some value)
    (h : Completes entries c (term :: path)
      ((referred term value).flatMap (needed entries term)) st m)
    (hreads : Reads m.context term value definition) :
    Completes entries c path [term] st (m.finish term definition) where
  sound := by
    refine h.sound.finish hterm hget (fun u hu => ?_) hreads
    obtain ⟨value', hget', name, hname, hmem⟩ := hu
    cases hget.symm.trans hget'
    exact h.done u (List.mem_flatMap.mpr ⟨name, hname, hmem⟩) (mem_needed.mp hmem).2.2
  kept := fun u hu => List.mem_cons_of_mem _ (h.kept u hu)
  done := fun u hu _ => List.mem_cons.mpr (.inl (List.mem_singleton.mp hu))
  reached := by
    intro u hu
    rcases List.mem_cons.mp hu with rfl | hu
    · exact .inr ⟨u, List.mem_singleton.mpr rfl, .refl⟩
    · refine (h.reached u hu).imp_right ?_
      rintro ⟨w, hw, hreaches⟩
      obtain ⟨name, hname, hw⟩ := List.mem_flatMap.mp hw
      exact ⟨term, List.mem_singleton.mpr rfl, .head ⟨value, hget, name, hname, hw⟩ hreaches⟩

/-! ### Equations -/

lemma define_of_mem (h : term ∈ st.defined) : define entries path term st = .ok st := by
  rw [define, if_pos h]

lemma define_of_cycle (h : term ∉ st.defined) (hpath : term ∈ path) :
    define entries path term st = .error (.cyclic term) := by
  rw [define, if_neg h, dif_pos hpath]

lemma define_of_none (h : term ∉ st.defined) (hpath : term ∉ path)
    (hget : entries.get? term = none) : define entries path term st = .ok st := by
  rw [define, if_neg h, dif_neg hpath]
  split
  · rfl
  · next hsome => cases hget.symm.trans hsome

lemma define_of_some (h : term ∉ st.defined) (hpath : term ∉ path)
    (hget : entries.get? term = some value) :
    define entries path term st =
      (readTerm (reference entries (term :: path) term) term st value).map
        fun r => r.2.finish term r.1 := by
  rw [define, if_neg h, dif_neg hpath]
  split
  · next hnone => cases hget.symm.trans hnone
  · next hsome =>
    cases hget.symm.trans hsome
    change readTerm (fun name st => reference entries (term :: path) term name st) term st value >>=
      _ = _
    cases readTerm (reference entries (term :: path) term) term st value with
    | error e => rfl
    | ok r => rfl

lemma define_of_string {e : Expansion} (h : term ∉ st.defined) (hpath : term ∉ path)
    (hget : entries.get? term = some (.string name))
    (hname : reference entries (term :: path) term name st = .ok (e, m)) :
    define entries path term st = .ok (m.finish term (some { mapping := e })) := by
  rw [define_of_some h hpath hget, readTerm, hname]
  rfl

/-- A name is expanded after all that it needs is defined. -/
lemma reference_eq : reference entries path term name st =
    defineAll entries path (needed entries term name) st >>= fun st =>
      lookUp st.context term name st := by
  have hstep : ∀ {u : String} {rest : List String} {st : Progress},
      defineAll entries path ((u :: rest).filter fun u => u ≠ term ∧ entries.has u) st =
      (if u ≠ term ∧ entries.has u then define entries path u st else .ok st) >>=
        defineAll entries path (rest.filter fun u => u ≠ term ∧ entries.has u) := by
    intro u rest st
    by_cases hu : u ≠ term ∧ entries.has u
    · rw [List.filter_cons_of_pos (by simpa using hu), defineAll, List.foldlM_cons, if_pos hu]
    · rw [List.filter_cons_of_neg (by simpa using hu), if_neg hu]
      rfl
  have hguard : ∀ {P : Prop} [Decidable P] {x y : Except ContextError Progress}
      {f : Progress → Except ContextError (Expansion × Progress)},
      (if P then x >>= f else y >>= f) = (if P then x else y) >>= f := by
    intro P _ x y f
    split
    · rfl
    · rfl
  unfold reference needed parts
  rw [hstep, bind_assoc]
  refine hguard.trans (congrArg _ (funext fun st => ?_))
  cases splitColon? name with
  | none => rfl
  | some pair =>
    rw [Option.map_some, Option.toList_some, hstep, bind_assoc]
    exact hguard

/-! ### What is defined is settled -/

/-- If each of some terms is defined by a sound step, then so are all of them. -/
lemma completes_of_forall
    (hdefine : ∀ u st st', Sound entries c path st → define entries path u st = .ok st' →
      Completes entries c path [u] st st')
    (hst : Sound entries c path st) (h : defineAll entries path us st = .ok st') :
    Completes entries c path us st st' := by
  induction us generalizing st with
  | nil =>
    cases h
    exact hst.completes fun _ hu => absurd hu List.not_mem_nil
  | cons u us ih =>
    rw [defineAll, List.foldlM_cons] at h
    obtain ⟨m, hm, h⟩ := bind_eq_ok.mp h
    have hfirst := hdefine u st m hst hm
    exact hfirst.append (ih hfirst.sound h)

/-- The names that a definition refers to are expanded as in the context after the last of them. -/
lemma completes_of_refers
    (hdefine : ∀ u st st', Sound entries c path st → define entries path u st = .ok st' →
      Completes entries c path [u] st st')
    (hterm : term ∈ path) {names : List String} {es : List Expansion}
    (hst : Sound entries c path st) (h : Refers (reference entries path term) names st es st') :
    Completes entries c path (names.flatMap (needed entries term)) st st' ∧
      List.Forall₂ (fun name e => st'.context.expand? .vocab name = some e) names es := by
  induction h with
  | nil st => exact ⟨hst.completes fun _ hu => absurd hu List.not_mem_nil, .nil⟩
  | @cons name names e es st m st' hname _ ih =>
    rw [reference_eq] at hname
    obtain ⟨m', hneeded, hlook⟩ := bind_eq_ok.mp hname
    obtain ⟨hexpand, rfl⟩ := lookUp_eq_ok.mp hlook
    have hfirst := completes_of_forall hdefine hst hneeded
    obtain ⟨hrest, hes⟩ := ih hfirst.sound
    refine ⟨hfirst.append hrest, .cons ?_ hes⟩
    have hdone : ∀ u ∈ needed entries term name, u ∈ m.defined := fun u hu =>
      hfirst.done u hu (mem_needed.mp hu).2.2
    have hknows := hrest.sound.knows hterm fun u hu => hrest.kept u (hdone u hu)
    exact (hknows.expand?_eq (hfirst.sound.knows hterm hdone)).trans hexpand

/-- To define a term is a sound step. The induction is on the entries that are not on the path. -/
lemma completes_of_define (hst : Sound entries c path st)
    (h : define entries path term st = .ok st') : Completes entries c path [term] st st' := by
  induction hn : remaining entries path using Nat.strongRecOn generalizing path term st st' with
  | ind n ih =>
    subst hn
    by_cases hmem : term ∈ st.defined
    · rw [define_of_mem hmem] at h
      cases h
      exact hst.completes fun u hu _ => List.mem_singleton.mp hu ▸ hmem
    · by_cases hcycle : term ∈ path
      · rw [define_of_cycle hmem hcycle] at h
        cases h
      · cases hget : entries.get? term with
        | none =>
          rw [define_of_none hmem hcycle hget] at h
          cases h
          refine hst.completes fun u hu hhas => ?_
          rw [List.mem_singleton.mp hu, Entries.has, Option.isSome_iff_exists] at hhas
          obtain ⟨value, hvalue⟩ := hhas
          cases hget.symm.trans hvalue
        | some value =>
          rw [define_of_some hmem hcycle hget] at h
          obtain ⟨⟨definition, m⟩, hread, rfl⟩ := map_eq_ok.mp h
          obtain ⟨es, hrefers, hsame⟩ := determined_readTerm term value _ _ _ _ hread
          obtain ⟨hcompletes, hes⟩ := completes_of_refers
            (fun u st st' hst h => ih _ (remaining_cons_lt hcycle hget) hst h rfl)
            List.mem_cons_self (hst.push hmem) hrefers
          have hreads : Reads m.context term value definition := fun x =>
            hsame _ x x (refers_lookUp_iff.mpr ⟨hes, rfl⟩)
          exact hcompletes.finish hcycle hget hreads

/-- To define several terms is a sound step. -/
lemma completes_of_defineAll (hst : Sound entries c path st)
    (h : defineAll entries path us st = .ok st') : Completes entries c path us st st' :=
  completes_of_forall (fun _ _ _ => completes_of_define) hst h

/-! ### What is settled is defined -/

lemma exists_defineAll
    (hdefine : ∀ u ∈ us, ∀ st, Sound entries c path st → ∃ st', define entries path u st = .ok st')
    (hst : Sound entries c path st) : ∃ st', defineAll entries path us st = .ok st' := by
  induction us generalizing st with
  | nil => exact ⟨st, rfl⟩
  | cons u us ih =>
    rw [List.forall_mem_cons] at hdefine
    obtain ⟨m, hm⟩ := hdefine.1 st hst
    obtain ⟨st', hst'⟩ := ih hdefine.2 (completes_of_define hst hm).sound
    rw [defineAll, List.foldlM_cons]
    exact ⟨st', bind_eq_ok.mpr ⟨m, hm, hst'⟩⟩

/-- Names that expand where what they need is known are expanded after this is defined. -/
lemma exists_refers {now : Context} (hterm : term ∈ path) {names : List String}
    {es : List Expansion} (hknows : ∀ name ∈ names, Knows entries c term name now)
    (hdefine : ∀ name ∈ names, ∀ u ∈ needed entries term name, ∀ st, Sound entries c path st →
      ∃ st', define entries path u st = .ok st')
    (hst : Sound entries c path st)
    (hes : List.Forall₂ (fun name e => now.expand? .vocab name = some e) names es) :
    ∃ st', Refers (reference entries path term) names st es st' := by
  induction hes generalizing st with
  | nil => exact ⟨st, .nil st⟩
  | @cons name e names es he _ ih =>
    rw [List.forall_mem_cons] at hknows hdefine
    obtain ⟨m, hm⟩ := exists_defineAll hdefine.1 hst
    have hfirst := completes_of_defineAll hst hm
    have hexpand : m.context.expand? .vocab name = some e := by
      refine ((hfirst.sound.knows hterm fun u hu => ?_).expand?_eq hknows.1).trans he
      exact hfirst.done u hu (mem_needed.mp hu).2.2
    obtain ⟨st', hst'⟩ := ih hknows.2 hdefine.2 hfirst.sound
    refine ⟨st', .cons ?_ hst'⟩
    rw [reference_eq]
    exact bind_eq_ok.mpr ⟨m, hm, lookUp_eq_ok.mpr ⟨hexpand, rfl⟩⟩

/-- A term with a definition is defined in every state, unless a term that waits for it is reached
from it. -/
lemma exists_define (hsettled : Settled entries c term definition)
    (hst : Sound entries c path st) (hreaches : ∀ w ∈ path, ¬ Reaches entries term w) :
    ∃ st', define entries path term st = .ok st' := by
  induction hsettled generalizing path st with
  | @intro term value definition now hget hvocabulary hneeded hother hreads ih =>
    by_cases hmem : term ∈ st.defined
    · exact ⟨st, define_of_mem hmem⟩
    · have hcycle : term ∉ path := fun h => hreaches term h .refl
      have hsettled : Settled entries c term definition :=
        .intro now hget hvocabulary hneeded hother hreads
      have hdepends : ∀ name ∈ referred term value, ∀ u ∈ needed entries term name,
          DependsOn entries term u := fun name hname u hu => ⟨value, hget, name, hname, hu⟩
      have hknows : ∀ name ∈ referred term value, Knows entries c term name now :=
        fun name hname => ⟨hvocabulary, fun u hu => hneeded u (hdepends name hname u hu), hother⟩
      have hdefine : ∀ name ∈ referred term value, ∀ u ∈ needed entries term name, ∀ st,
          Sound entries c (term :: path) st →
            ∃ st', define entries (term :: path) u st = .ok st' := by
        intro name hname u hu st hst
        have hu := hdepends name hname u hu
        refine ih u hu hst (List.forall_mem_cons.mpr ⟨hsettled.acyclic hu, ?_⟩)
        exact fun w hw h => hreaches w hw (.head hu h)
      obtain ⟨es, hes, hsame⟩ := hreads.exists_expansions
      obtain ⟨m, hm⟩ := exists_refers List.mem_cons_self hknows hdefine (hst.push hmem) hes
      refine ⟨m.finish term definition, ?_⟩
      rw [define_of_some hmem hcycle hget]
      exact map_eq_ok.mpr ⟨(definition, m), hsame _ _ _ hm, rfl⟩

/-- Some terms can be defined if and only if the declaration settles what they mean. -/
lemma exists_defineAll_iff (hus : ∀ u ∈ us, entries.has u) :
    (∃ st, defineAll entries [] us ⟨c, []⟩ = .ok st) ↔
      ∀ u ∈ us, ∃ definition, Settled entries c u definition := by
  constructor
  · rintro ⟨st, hst⟩ u hu
    have hall := completes_of_defineAll sound_start hst
    exact ⟨_, hall.sound.settled u (hall.done u hu (hus u hu))⟩
  · intro h
    refine exists_defineAll (fun u hu st hst => ?_) sound_start
    obtain ⟨definition, hsettled⟩ := h u hu
    exact exists_define hsettled hst fun w hw => absurd hw List.not_mem_nil

/-- The terms that are defined in the end. -/
lemma Completes.mem_defined_iff (h : Completes entries c [] us ⟨c, []⟩ st)
    (hus : ∀ u ∈ us, entries.has u) : u ∈ st.defined ↔ ∃ w ∈ us, Reaches entries w u := by
  constructor
  · exact fun hu => (h.reached u hu).resolve_left List.not_mem_nil
  · rintro ⟨w, hw, hreaches⟩
    induction hreaches with
    | refl => exact h.done w hw (hus w hw)
    | tail _ hstep ih => exact h.sound.closed _ ih _ hstep

end

end Declaration

end Exemplar
