import Exemplar.Compilation.Naming
import Mathlib.Data.List.Infix
import Mathlib.Data.List.TakeWhile
import Mathlib.Tactic.Lemma

/-!
# Names taken apart

What a key contributes to the name of a variable, stated without the scan that finds it, and that
the name of a variable tells all contributions on the way to it.
-/

namespace Exemplar

namespace Naming

section

variable (alphanumeric : Char → Bool)

/-- Whether a text may stand as a name by itself. -/
structure IsLegal (name : List Char) : Prop where
  starts : ∃ c ∈ name.head?, isNameStart alphanumeric c
  chars : ∀ c ∈ name, isNameChar alphanumeric c

/-- Whether a name is the longest of the legal names that a key ends with. -/
structure IsLongestEnding (key name : List Char) : Prop where
  legal : IsLegal alphanumeric name
  ending : name <:+ key
  longest : ∀ other, other <:+ key → IsLegal alphanumeric other → other.length ≤ name.length

end

section

variable {alphanumeric : Char → Bool} {key name other : List Char}

lemma isLegal_underscore : IsLegal alphanumeric ['_'] :=
  ⟨⟨'_', rfl, by simp [isNameStart]⟩, by simp [isNameChar, isNameStart]⟩

/-! ### The scan -/

lemma nameEnding_suffix (key : List Char) : nameEnding alphanumeric key <:+ key := by
  rw [nameEnding, ← List.reverse_prefix, List.reverse_reverse]
  exact List.takeWhile_prefix _

lemma isNameChar_of_mem_nameEnding {c : Char} (h : c ∈ nameEnding alphanumeric key) :
    isNameChar alphanumeric c :=
  List.mem_takeWhile_imp (List.mem_reverse.mp h)

/-- The scan from the end of a key finds every ending of name characters. -/
lemma suffix_nameEnding (hending : name <:+ key) (hchars : ∀ c ∈ name, isNameChar alphanumeric c) :
    name <:+ nameEnding alphanumeric key := by
  obtain ⟨before, rfl⟩ := hending
  rw [nameEnding, List.reverse_append, List.takeWhile_append_of_pos (by simpa using hchars),
    List.reverse_append, List.reverse_reverse]
  exact List.suffix_append _ _

/-- The characters that are dropped in front are in no legal name. -/
lemma suffix_dropWhile {text : List Char} (hending : name <:+ text)
    (hstarts : ∃ c ∈ name.head?, isNameStart alphanumeric c) :
    name <:+ text.dropWhile fun c => !isNameStart alphanumeric c := by
  obtain ⟨before, rfl⟩ := hending
  obtain ⟨c, hc, hstart⟩ := hstarts
  obtain ⟨rest, rfl⟩ := List.head?_eq_some_iff.mp hc
  rw [List.dropWhile_append]
  split
  · rw [List.dropWhile_cons_of_neg (by simpa using hstart)]
  · exact List.suffix_append _ _

/-- What is left of the ending of name characters is the longest legal name, or there is none. -/
lemma sanitizeBy_spec (alphanumeric : Char → Bool) (key : List Char) :
    IsLongestEnding alphanumeric key (sanitizeBy alphanumeric key) ∨
      (sanitizeBy alphanumeric key = ['_'] ∧
        ¬ ∃ name, name <:+ key ∧ IsLegal alphanumeric name) := by
  -- neither the scan nor what is dropped after it takes anything from a legal name
  have hkept : ∀ {name}, name <:+ key → IsLegal alphanumeric name →
      name <:+ (nameEnding alphanumeric key).dropWhile fun c => !isNameStart alphanumeric c := by
    intro name hending hlegal
    exact suffix_dropWhile (suffix_nameEnding hending hlegal.chars) hlegal.starts
  unfold sanitizeBy
  split
  · next hnone =>
    refine .inr ⟨rfl, ?_⟩
    rintro ⟨name, hending, hlegal⟩
    obtain ⟨c, hc, -⟩ := hlegal.starts
    have hempty : name <:+ [] := hnone ▸ hkept hending hlegal
    rw [List.suffix_nil.mp hempty] at hc
    cases hc
  · next hsome =>
    have hdropped := List.dropWhile_suffix (l := nameEnding alphanumeric key)
      fun c => !isNameStart alphanumeric c
    refine .inl ⟨⟨?_, fun c hc => ?_⟩, hdropped.trans (nameEnding_suffix key), ?_⟩
    · obtain ⟨c, rest, hcons⟩ := List.exists_cons_of_ne_nil hsome
      have hstart := List.head?_dropWhile_not (fun c => !isNameStart alphanumeric c)
        (nameEnding alphanumeric key)
      rw [hcons] at hstart ⊢
      exact ⟨c, rfl, by simpa using hstart⟩
    · exact isNameChar_of_mem_nameEnding (hdropped.subset hc)
    · exact fun other hending hlegal => (hkept hending hlegal).length_le

/-! ### What the scan finds -/

lemma IsLongestEnding.unique (h : IsLongestEnding alphanumeric key name)
    (h' : IsLongestEnding alphanumeric key other) : name = other := by
  have hle := h'.longest name h.ending h.legal
  have hge := h.longest other h'.ending h'.legal
  exact (List.suffix_of_suffix_length_le h.ending h'.ending hle).eq_of_length (hle.antisymm hge)

/-- A key contributes the longest legal name that it ends with, or an underscore if there is
none. -/
lemma sanitizeBy_eq_iff : sanitizeBy alphanumeric key = name ↔
    IsLongestEnding alphanumeric key name ∨
      (name = ['_'] ∧ ¬ ∃ other, other <:+ key ∧ IsLegal alphanumeric other) := by
  constructor
  · rintro rfl
    exact sanitizeBy_spec alphanumeric key
  · rintro (h | ⟨rfl, hnone⟩)
    · rcases sanitizeBy_spec alphanumeric key with h' | ⟨-, hnone⟩
      · exact h'.unique h
      · exact absurd ⟨name, h.ending, h.legal⟩ hnone
    · rcases sanitizeBy_spec alphanumeric key with h' | ⟨heq, -⟩
      · exact absurd ⟨_, h'.ending, h'.legal⟩ hnone
      · exact heq

lemma isLegal_sanitizeBy (key : List Char) :
    IsLegal alphanumeric (sanitizeBy alphanumeric key) := by
  rcases sanitizeBy_spec alphanumeric key with h | ⟨heq, -⟩
  · exact h.legal
  · rw [heq]
    exact isLegal_underscore

/-- A legal name is the longest one that it ends with. -/
lemma sanitizeBy_of_isLegal (h : IsLegal alphanumeric name) : sanitizeBy alphanumeric name = name :=
  sanitizeBy_eq_iff.mpr (.inl ⟨h, List.suffix_rfl, fun _ hending _ => hending.length_le⟩)

/-! ### Names in a row -/

/-- All that matters about the table of alphanumeric characters is that the separator is none. -/
lemma isNameChar_separator (h : alphanumeric separator = false) :
    isNameChar alphanumeric separator = false := by
  rw [isNameChar, isNameStart, h]
  decide

lemma separator_notMem_sanitizeBy (h : alphanumeric separator = false) (key : List Char) :
    separator ∉ sanitizeBy alphanumeric key := by
  intro hmem
  have hlegal : IsLegal alphanumeric (sanitizeBy alphanumeric key) := isLegal_sanitizeBy key
  have hchar := hlegal.chars _ hmem
  rw [isNameChar_separator h] at hchar
  cases hchar

end

lemma isAlphanumeric_separator : isAlphanumeric separator = false := by decide

lemma separator_notMem_sanitize (key : List Char) : separator ∉ sanitize key :=
  separator_notMem_sanitizeBy isAlphanumeric_separator key

/-- A name up to a separator is known from the text that it starts. -/
lemma eq_of_append_eq {a b t u : List Char} (ha : separator ∉ a) (hb : separator ∉ b)
    (ht : t = [] ∨ ∃ t', t = separator :: t') (hu : u = [] ∨ ∃ u', u = separator :: u')
    (h : a ++ t = b ++ u) : a = b := by
  have htake : ∀ {c v : List Char}, separator ∉ c → (v = [] ∨ ∃ v', v = separator :: v') →
      (c ++ v).takeWhile (· ≠ separator) = c := by
    intro c v hc hv
    have hall : ∀ d ∈ c, decide (d ≠ separator) := fun d hd => by
      simpa using fun heq : d = separator => hc (heq ▸ hd)
    rw [List.takeWhile_append_of_pos hall]
    rcases hv with rfl | ⟨v', rfl⟩ <;> simp
  rw [← htake ha ht, ← htake hb hu, h]

/-- Names with a separator in front of each are known from the text that they make. -/
lemma eq_of_flatMap_eq {names names' : List (List Char)} (h : ∀ name ∈ names, separator ∉ name)
    (h' : ∀ name ∈ names', separator ∉ name)
    (heq : names.flatMap (separator :: ·) = names'.flatMap (separator :: ·)) : names = names' := by
  have htail : ∀ rest : List (List Char), rest.flatMap (separator :: ·) = [] ∨
      ∃ t, rest.flatMap (separator :: ·) = separator :: t := by
    intro rest
    cases rest with
    | nil => exact .inl rfl
    | cons name rest => exact .inr ⟨_, rfl⟩
  induction names generalizing names' with
  | nil =>
    cases names' with
    | nil => rfl
    | cons name' rest' => cases heq
  | cons name rest ih =>
    cases names' with
    | nil => cases heq
    | cons name' rest' =>
      rw [List.forall_mem_cons] at h h'
      simp only [List.flatMap_cons, List.cons_append, List.cons.injEq, true_and] at heq
      -- the first names end where the text has its first separator
      obtain rfl := eq_of_append_eq h.1 h'.1 (htail rest) (htail rest') heq
      rw [ih h.2 h'.2 (List.append_cancel_left heq)]

end Naming

namespace Variable

section

variable {alphanumeric : Char → Bool}

lemma name_childBy (v : Variable) (key : String) :
    (v.childBy alphanumeric key).name.toList =
      v.name.toList ++ Naming.separator :: Naming.sanitizeBy alphanumeric key.toList := by
  simp [childBy]

/-- What the keys on the way to a variable contribute to its name. -/
def contributions (alphanumeric : Char → Bool) (keys : List String) : List (List Char) :=
  keys.map fun key => Naming.sanitizeBy alphanumeric key.toList

lemma name_descendBy (v : Variable) (keys : List String) :
    (v.descendBy alphanumeric keys).name.toList =
      v.name.toList ++ (contributions alphanumeric keys).flatMap (Naming.separator :: ·) := by
  induction keys generalizing v with
  | nil => simp [descendBy, contributions]
  | cons key rest ih =>
    have hstep : v.descendBy alphanumeric (key :: rest) =
        (v.childBy alphanumeric key).descendBy alphanumeric rest := rfl
    rw [hstep, ih, name_childBy]
    simp [contributions]

lemma separator_notMem_contributions (h : alphanumeric Naming.separator = false)
    {keys : List String} : ∀ name ∈ contributions alphanumeric keys, Naming.separator ∉ name := by
  intro name hname
  obtain ⟨key, -, rfl⟩ := List.mem_map.mp hname
  exact Naming.separator_notMem_sanitizeBy h _

lemma eq_of_name_eq {v w : Variable} (h : v.name.toList = w.name.toList) : v = w := by
  cases v
  cases w
  exact congrArg _ (String.toList_inj.mp h)

lemma descendBy_eq_iff (h : alphanumeric Naming.separator = false) {v : Variable}
    {keys keys' : List String} :
    v.descendBy alphanumeric keys = v.descendBy alphanumeric keys' ↔
      contributions alphanumeric keys = contributions alphanumeric keys' := by
  constructor
  · intro heq
    have hname := congrArg (fun w : Variable => w.name.toList) heq
    simp only [name_descendBy, List.append_cancel_left_eq] at hname
    exact Naming.eq_of_flatMap_eq (separator_notMem_contributions h)
      (separator_notMem_contributions h) hname
  · intro heq
    apply eq_of_name_eq
    rw [name_descendBy, name_descendBy, heq]

end

lemma name_child (v : Variable) (key : String) :
    (v.child key).name.toList =
      v.name.toList ++ Naming.separator :: Naming.sanitize key.toList :=
  name_childBy v key

lemma sanitize_eq_of_child_eq {v : Variable} {key key' : String}
    (h : v.child key = v.child key') :
    Naming.sanitize key.toList = Naming.sanitize key'.toList := by
  have hkeys : contributions isAlphanumeric [key] = contributions isAlphanumeric [key'] :=
    (descendBy_eq_iff Naming.isAlphanumeric_separator).mp h
  exact (List.cons.inj hkeys).1

/-- The variables at the ends of two paths of keys are the same exactly if the keys contribute the
same names one by one. What a key contributes is the longest legal name that it ends with, or an
underscore if there is none; a name that is contributed contributes itself. All of this holds for
every table of alphanumeric characters that the separator is not in. -/
theorem descend_decomposes {alphanumeric : Char → Bool}
    (h : alphanumeric Naming.separator = false) :
    (∀ (v : Variable) (keys keys' : List String),
      v.descendBy alphanumeric keys = v.descendBy alphanumeric keys' ↔
        contributions alphanumeric keys = contributions alphanumeric keys') ∧
    (∀ key name : List Char, Naming.sanitizeBy alphanumeric key = name ↔
      Naming.IsLongestEnding alphanumeric key name ∨
        (name = ['_'] ∧ ¬ ∃ other, other <:+ key ∧ Naming.IsLegal alphanumeric other)) ∧
    ∀ key : List Char, Naming.sanitizeBy alphanumeric (Naming.sanitizeBy alphanumeric key) =
      Naming.sanitizeBy alphanumeric key := by
  refine ⟨fun _ _ _ => descendBy_eq_iff h, fun _ _ => Naming.sanitizeBy_eq_iff, fun key => ?_⟩
  exact Naming.sanitizeBy_of_isLegal (Naming.isLegal_sanitizeBy key)

/-- The table of the library does not have the separator, so its variables decompose. -/
theorem descend_decomposes_standard :
    isAlphanumeric Naming.separator = false ∧
    (∀ (v : Variable) (keys keys' : List String), v.descend keys = v.descend keys' ↔
      keys.map (fun key => Naming.sanitize key.toList) =
        keys'.map fun key => Naming.sanitize key.toList) ∧
    (∀ key name : List Char, Naming.sanitize key = name ↔
      Naming.IsLongestEnding isAlphanumeric key name ∨
        (name = ['_'] ∧ ¬ ∃ other, other <:+ key ∧ Naming.IsLegal isAlphanumeric other)) ∧
    ∀ key : List Char, Naming.sanitize (Naming.sanitize key) = Naming.sanitize key := by
  have h : isAlphanumeric Naming.separator = false := by decide
  exact ⟨h, descend_decomposes h⟩

/-- A mark may stand in a name but not start it. Keys that end in the same names lead to the same
variable, and the name of two keys is never that of one, as no key contributes a separator. -/
example : Naming.sanitize "ex:a-\u0301b\u0301c".toList = "b\u0301c".toList ∧
    root.descend ["ex:a", "b"] = root.descend ["a", "http://x/b"] ∧
    root.descend ["ex:a", "b"] ≠ root.descend ["ex:a.b"] := by
  decide

end Variable

end Exemplar
