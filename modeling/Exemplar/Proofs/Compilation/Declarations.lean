import Exemplar.Proofs.Compilation.Levels
import Exemplar.Proofs.Context.Alias

/-!
# Declarations in objects

An object with a declaration is compiled like the object without it in the context that the
declaration leads to, if both contexts tell the kind of the object in the same way and it is not a
list. The kind of an object is told by the context around it, and a list does not read its
declaration.
-/

namespace Exemplar

/-- The fragment without the template that repeats the declaration. -/
def Fragment.withoutTemplate (f : Fragment) : Fragment := { f with template := .constant .null }

/-- Compiles the value of an entry in its scope. -/
def Grammar.compileAt (g : Grammar) (s : Scope) (value : Json) : Except CompileError Fragment :=
  compileLevels g value.depth .resource value s

/-- The same kind of object with other entries. -/
def Kind.withEntries (entries : Entries) : Kind → Kind
  | .nodeObject _ => .nodeObject entries
  | .listObject _ => .listObject entries
  | .graphObject _ => .graphObject entries
  | .valueObject _ => .valueObject entries
  | .setObject _ => .setObject entries
  | kind => kind

section

variable {g : Grammar} {inner : Compiler} {s : Scope} {context : Context} {before after : Entries}
  {c : Json}

/-- A declaration does not matter to the kind of an object. -/
lemma kind_declaration (s : Scope) :
    Kind.of s (.object (before ++ ("@context", c) :: after)) =
      (Kind.of s (.object (before ++ after))).withEntries
        (before ++ ("@context", c) :: after) := by
  have hkeyword : ∀ keyword, keyword ≠ .context →
      hasKeyword s.context (before ++ ("@context", c) :: after) keyword =
        hasKeyword s.context (before ++ after) keyword := by
    intro keyword hne
    have hcontext : s.context.isKeyword keyword "@context" = false := by
      have hexpand : s.context.expand? .vocab "@context" = some (.keyword .context) := rfl
      simpa [Context.isKeyword, hexpand] using hne.symm
    simp [hasKeyword, hcontext]
  simp only [Kind.of, hkeyword _ (by decide : Keyword.value ≠ .context),
    hkeyword _ (by decide : Keyword.list ≠ .context),
    hkeyword _ (by decide : Keyword.set ≠ .context),
    hkeyword _ (by decide : Keyword.graph ≠ .context)]
  split
  · rfl
  · split
    · rfl
    · split
      · rfl
      · split <;> rfl

lemma kind_object_ne (s : Scope) (entries : Entries) :
    Kind.of s (.object entries) ≠ .placeholder ∧ Kind.of s (.object entries) ≠ .primitive := by
  simp only [Kind.of]
  repeat' split
  all_goals simp

lemma compileAt_eq (hg : g.Usual) {value : Json} {n : Nat} (hn : value.depth ≤ n + 1) :
    g.compileAt s value = compileResource g (compileLevels g n) value s :=
  compileLevels_agree hg hn .resource value s (Nat.le_refl _)

/-- A node object with a declaration is compiled like one in the context that it leads to. -/
lemma compileNodeObject_declaration
    (hcontext : g.extendContext s.context (some c) = .ok context)
    (hnone : ∀ entry ∈ before ++ after, entry.1 ≠ "@context") :
    (compileNodeObject g inner (before ++ ("@context", c) :: after) s).map
        Fragment.withoutTemplate =
      (compileNodeObject g inner (before ++ after) { s with context }).map
        Fragment.withoutTemplate := by
  have hlookup : ∀ entries : Entries, (∀ entry ∈ entries, entry.1 ≠ "@context") →
      entries.lookup "@context" = none := by
    intro entries h
    rw [List.lookup_eq_none_iff]
    exact fun entry hentry => by simpa using (h entry hentry).symm
  have hdeclaration : declaration? (before ++ ("@context", c) :: after) = some c := by
    have hbefore := hlookup before fun entry h => hnone entry (List.mem_append_left _ h)
    simp [declaration?, Entries.get?, List.lookup_append, hbefore]
  have hundeclared : declaration? (before ++ after) = none := hlookup _ hnone
  have hown : ownEntries (before ++ ("@context", c) :: after) = ownEntries (before ++ after) := by
    simp [ownEntries, List.filter_append]
  have hidentity : ∀ s, identityOf s (before ++ ("@context", c) :: after) =
      identityOf s (before ++ after) := by
    intro s
    unfold identityOf
    rw [hown]
  have hnothing : g.extendContext context none = .ok context := rfl
  simp only [compileNodeObject, hdeclaration, hundeclared, hown, hidentity, hcontext, hnothing,
    bind, Except.bind]
  cases identityOf ⟨s.v, context, none⟩ (before ++ after) with
  | error e => rfl
  | ok identity =>
    dsimp only
    cases (ownEntries (before ++ after)).mapM
      (compileEntry g inner ⟨s.v, context, none⟩ identity) <;> rfl

/-- A declaration in an object is the same as the context that it leads to around the object: the
fragments have the same operation, projections, warnings and term, or the same error is found. Both
contexts have to see the same kind of object, but no list. -/
theorem compile_declaration (hg : g.Usual)
    (hcontext : g.extendContext s.context (some c) = .ok context)
    (hnone : ∀ entry ∈ before ++ after, entry.1 ≠ "@context")
    (hkind : Kind.of { s with context } (.object (before ++ after)) =
      Kind.of s (.object (before ++ after)))
    (hlist : Kind.of s (.object (before ++ after)) ≠ .listObject (before ++ after)) :
    (g.compileAt s (.object (before ++ ("@context", c) :: after))).map Fragment.withoutTemplate =
      (g.compileAt { s with context } (.object (before ++ after))).map
        Fragment.withoutTemplate := by
  -- both objects are compiled at the levels of the deeper one
  generalize hn : max (Json.depthEntries (before ++ ("@context", c) :: after))
    (Json.depthEntries (before ++ after)) = n
  have hdepth : (Json.object (before ++ ("@context", c) :: after)).depth ≤ n + 1 :=
    Nat.succ_le_succ (hn ▸ Nat.le_max_left _ _)
  have hdepth' : (Json.object (before ++ after)).depth ≤ n + 1 :=
    Nat.succ_le_succ (hn ▸ Nat.le_max_right _ _)
  rw [compileAt_eq hg hdepth, compileAt_eq hg hdepth']
  unfold compileResource
  rw [kind_declaration, hkind]
  cases hobject : Kind.of s (.object (before ++ after)) with
  | nodeObject entries =>
    cases Kind.describes_of_eq hobject
    simp only [Kind.withEntries, compileObject_nodeObject hg]
    exact compileNodeObject_declaration hcontext hnone
  | listObject entries =>
    cases Kind.describes_of_eq hobject
    exact absurd hobject hlist
  | graphObject entries =>
    rw [hg.graphObject]
    rfl
  | valueObject entries =>
    rw [hg.valueObject]
    rfl
  | setObject entries =>
    rw [hg.setObject]
    rfl
  | null | nodeArray | listArray => cases Kind.describes_of_eq hobject
  | placeholder => exact absurd hobject (kind_object_ne s _).1
  | primitive => exact absurd hobject (kind_object_ne s _).2

end

section

/-- The scope of the value of a key, where no terms are defined. -/
def undefinedScope : Scope := entryScope (.root .empty) "ex:p"

/-- That scope with an alias in its context. -/
def aliasScope (term : String) (keyword : Keyword) : Scope :=
  { undefinedScope with context := Context.empty.withAlias term keyword }

/-- An object that gives its identity under an alias of its own. -/
theorem compile_declaration_of_identity :
    (Grammar.standard.compileAt undefinedScope (.object ([("ex:q", .string "?")] ++
        ("@context", .object [("id", .string "@id")]) :: [("id", .string "?")]))).map
        Fragment.withoutTemplate =
      (Grammar.standard.compileAt (aliasScope "id" .id)
        (.object ([("ex:q", .string "?")] ++ [("id", .string "?")]))).map
        Fragment.withoutTemplate ∧
    ∃ f, Grammar.standard.compileAt (aliasScope "id" .id)
        (.object ([("ex:q", .string "?")] ++ [("id", .string "?")])) = .ok f ∧
      f.warnings = [] ∧ f.projections.length = 2 :=
  ⟨compile_declaration Grammar.standard_usual
    (extendContext_alias (by decide) .id .empty) (by decide) rfl
    (fun hlist => nomatch hlist), _, rfl, rfl, rfl⟩

/-- Defines an alias of `@list`. -/
def listAlias : Json := .object [("items", .string "@list")]

/-- A list, if its key is known to be an alias. -/
def aliasedList : Entries := [("items", .array [.string "?"])]

/-- A list whose key is an alias that it declares itself is not compiled as a list. -/
theorem own_list_alias_not_seen :
    Grammar.standard.extendContext undefinedScope.context (some listAlias) =
        .ok (aliasScope "items" .list).context ∧
      ∃ f f', Grammar.standard.compileAt undefinedScope
          (.object (("@context", listAlias) :: aliasedList)) = .ok f ∧
        Grammar.standard.compileAt (aliasScope "items" .list) (.object aliasedList) = .ok f' ∧
        f.warnings.length = 1 ∧ f'.warnings = [] ∧ f.projections = [] ∧
        f'.projections.length = 4 := by
  have hcontext : Grammar.standard.extendContext undefinedScope.context (some listAlias) =
      .ok (aliasScope "items" .list).context :=
    extendContext_alias (by decide) .list .empty
  -- the outer context does not know the alias, so this is a node object with an unsupported key
  have hnode : Grammar.standard.compileAt undefinedScope
      (.object (("@context", listAlias) :: aliasedList)) =
      compileNodeObject .standard (compileLevels .standard 4)
        (("@context", listAlias) :: aliasedList) undefinedScope :=
    (compileAt_eq Grammar.standard_usual (by decide)).trans rfl
  have hundeclared : ∀ entry ∈ ([] : Entries) ++ aliasedList, entry.1 ≠ "@context" := by decide
  have hinner := (congrArg (Except.map Fragment.withoutTemplate) hnode).trans
    (compileNodeObject_declaration hcontext hundeclared)
  obtain ⟨f, hf, hsame⟩ := map_eq_ok.mp (hinner.trans rfl)
  exact ⟨hcontext, f, _, hf, rfl, congrArg (fun f : Fragment => f.warnings.length) hsame, rfl,
    congrArg Fragment.projections hsame, rfl⟩

end

end Exemplar
