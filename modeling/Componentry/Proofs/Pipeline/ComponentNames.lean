import Componentry.Proofs.Files.Basename

/-!
# Names of components

A component is named after its file: the last name of its path up to the first dot, with `_` for
what a script's names do not have. Four characters that differ from an ASCII letter in case only
are kept as well, a digit may come first, and a file whose name starts with a dot has no name left.
For all other paths the name is one that scripts can use.
-/

namespace Componentry

/-! ## Identifiers -/

/-- Is `c` a character that names are made of in every script? -/
def IsPlain (c : CodePoint) : Prop := c.isAlphanum ∨ c = .char '_' ∨ c = .char '$'

instance : DecidablePred IsPlain := fun c => inferInstanceAs (Decidable (_ ∨ c = _ ∨ c = _))

/-- Does `c` differ from an ASCII letter in case only, without being one? These are a capital I with
a dot, a small i without one, the long s and the sign for kelvin. -/
def IsLookalike (c : CodePoint) : Prop :=
  c = .char 'İ' ∨ c = .char 'ı' ∨ c = .char 'ſ' ∨ c = .char 'K'

instance : DecidablePred IsLookalike :=
  fun c => inferInstanceAs (Decidable (c = _ ∨ c = _ ∨ c = _ ∨ c = _))

/-- Is `name` one that a script can declare? -/
structure IsIdentifier (name : Text) : Prop where
  nonempty : name ≠ []
  plain : ∀ c ∈ name, IsPlain c
  head : ∀ c ∈ name.head?, c.isDigit = false

instance (name : Text) : Decidable (IsIdentifier name) :=
  decidable_of_iff
    (name ≠ [] ∧ (∀ c ∈ name, IsPlain c) ∧ ∀ c ∈ name.head?, c.isDigit = false)
    ⟨fun ⟨nonempty, plain, head⟩ => ⟨nonempty, plain, head⟩,
      fun h => ⟨h.nonempty, h.plain, h.head⟩⟩

theorem isNameChar_iff {c : CodePoint} : isNameChar c ↔ IsPlain c ∨ IsLookalike c := by
  simp only [isNameChar, IsPlain, IsLookalike, Bool.or_eq_true, beq_iff_eq, or_assoc]

theorem IsLookalike.not_isPlain {c : CodePoint} (h : IsLookalike c) : ¬ IsPlain c := by
  rcases h with rfl | rfl | rfl | rfl <;> decide

/-- What stands in a name for a character of the file's name. -/
def inName (c : CodePoint) : CodePoint := if IsPlain c ∨ IsLookalike c then c else .char '_'

theorem isPlain_inName_iff {c : CodePoint} : IsPlain (inName c) ↔ ¬ IsLookalike c := by
  rw [inName]
  split
  next kept =>
    constructor
    · exact fun plain lookalike => lookalike.not_isPlain plain
    · exact kept.resolve_right
  next replaced =>
    simp only [not_or] at replaced
    exact iff_of_true (by decide) replaced.2

theorem isDigit_inName (c : CodePoint) : (inName c).isDigit = c.isDigit := by
  rw [inName]
  split
  · rfl
  next replaced =>
    cases digit : c.isDigit with
    | false => rfl
    | true =>
      refine absurd (.inl (.inl ?_)) replaced
      cases c with
      | half n => simp [CodePoint.isDigit, CodePoint.char?] at digit
      | char c =>
        have digit : c.isDigit := digit
        show c.isAlphanum = true
        simp [Char.isAlphanum, digit]

/-! ## Names -/

theorem componentName_eq {stem ending : Text} (hstem : .char '.' ∉ stem)
    (hending : ∀ c ∈ ending.head?, c = .char '.') :
    componentName (stem ++ ending) = stem.map inName := by
  have kept : (stem ++ ending).takeWhile (fun (c : CodePoint) => c != .char '.') = stem := by
    rw [List.takeWhile_append_of_pos]
    · cases ending with
      | nil => simp
      | cons c ending => simp [hending c rfl]
    · intro c hc
      exact bne_iff_ne.mpr fun same => hstem (same ▸ hc)
  have each (c : CodePoint) : (if isNameChar c then c else .char '_') = inName c := by
    simp only [inName, ← isNameChar_iff]
  rw [componentName]
  exact (congrArg (List.map _) kept).trans (List.map_congr_left fun c _ => each c)

theorem isIdentifier_map_inName_iff {stem : Text} :
    IsIdentifier (stem.map inName) ↔
      stem ≠ [] ∧ (∀ c ∈ stem, ¬ IsLookalike c) ∧ ∀ c ∈ stem.head?, c.isDigit = false := by
  have head : (∀ c ∈ (stem.map inName).head?, c.isDigit = false) ↔
      ∀ c ∈ stem.head?, c.isDigit = false := by
    cases stem with
    | nil => simp
    | cons c stem => simp [isDigit_inName]
  have plain : (∀ c ∈ stem.map inName, IsPlain c) ↔ ∀ c ∈ stem, ¬ IsLookalike c := by
    simp only [List.forall_mem_map, isPlain_inName_iff]
  constructor
  · rintro ⟨nonempty, allPlain, first⟩
    exact ⟨fun h => nonempty (by rw [h]; rfl), plain.mp allPlain, head.mp first⟩
  · rintro ⟨nonempty, none, first⟩
    exact ⟨fun h => nonempty (List.map_eq_nil_iff.mp h), plain.mpr none, head.mpr first⟩

/-- **What a component's name is, and when scripts can use it.** A path is a directory, a stem and
an ending. The name is the stem with `_` for every character that is neither plain nor a lookalike
of a letter. It is an identifier exactly if the stem is not empty, has no lookalike and does not
start with a digit. -/
theorem isIdentifier_componentName_iff (d : Document) :
    ∃ front stem ending : Text, d.path = front ++ (stem ++ ending) ∧ IsFront front ∧
      (∀ c ∈ stem ++ ending, ¬ IsSlash c) ∧ .char '.' ∉ stem ∧
      (∀ c ∈ ending.head?, c = .char '.') ∧
      componentName d.basename = stem.map inName ∧
      (IsIdentifier (componentName d.basename) ↔
        stem ≠ [] ∧ (∀ c ∈ stem, ¬ IsLookalike c) ∧ ∀ c ∈ stem.head?, c.isDigit = false) := by
  obtain ⟨front, base, path, hfront, hbase⟩ := exists_basename d.path
  let undotted (c : CodePoint) : Bool := c != .char '.'
  have parts : base = base.takeWhile undotted ++ base.dropWhile undotted :=
    List.takeWhile_append_dropWhile.symm
  have hstem : .char '.' ∉ base.takeWhile undotted := fun mem => by
    simpa [undotted] using List.all_eq_true.mp List.all_takeWhile _ mem
  have hending : ∀ c ∈ (base.dropWhile undotted).head?, c = .char '.' := by
    intro c mem
    have stops := List.head?_dropWhile_not undotted base
    rw [mem] at stops
    simpa [undotted] using stops
  have name : componentName d.basename = (base.takeWhile undotted).map inName := by
    rw [Document.basename, path, basename_append hfront hbase]
    conv => lhs; rw [parts]
    exact componentName_eq hstem hending
  refine ⟨front, _, _, parts ▸ path, hfront, parts ▸ hbase, hstem, hending, name, ?_⟩
  rw [name, isIdentifier_map_inName_iff]

/-- A lookalike is kept, a digit comes first, and a dot at the start leaves nothing. -/
theorem componentName_not_isIdentifier :
    ¬ IsIdentifier (componentName (basename "\u0131.svelte")) ∧
      ¬ IsIdentifier (componentName (basename "src/1.svelte")) ∧
      ¬ IsIdentifier (componentName (basename "src/.svelte")) := by
  decide

end Componentry
