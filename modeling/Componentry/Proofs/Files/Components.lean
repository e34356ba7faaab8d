import Componentry.Collect
import Componentry.Document
import Componentry.Proofs.Files.Address
import Mathlib.Data.List.Nodup

/-!
# Components and their paths

The components that a path means are one file, or files with the extension of components, each once.
The path of a document is its component's, seen from the root of the project, with slashes only: it
ends in the component's name, and where there are no backslashes it leads from the root to the
component.
-/

namespace Componentry

/-! ## Found components -/

/-- What a path means: itself, or components below it. -/
theorem cases_of_collectComponents {tree : FileTree} {cwd path : Path} {found : List Path}
    (h : collectComponents tree cwd path = .ok found) :
    ∃ p, found = [p] ∨ found = ((((tree.filesBelow p.names).map fun f =>
      ({ p with names := p.names ++ f.1 } : Path)).filter isComponent).mergeSort
        fun a b => Location.before a.names b.names) := by
  rw [collectComponents] at h
  simp only [bind, Except.bind] at h
  split at h
  next => cases h
  next p _ =>
    refine ⟨p, ?_⟩
    split at h
    next => cases h
    next file _ =>
      cases file with
      | true => exact .inl (Except.ok.inj h).symm
      | false =>
        simp only [Bool.false_eq_true, if_false] at h
        split at h
        next => cases h
        next dir _ =>
          cases dir with
          | true => exact .inr (Except.ok.inj h).symm
          | false => cases h

theorem length_le_one_or_isComponent {tree : FileTree} {cwd path : Path} {found : List Path}
    (h : collectComponents tree cwd path = .ok found) :
    found.length ≤ 1 ∨ ∀ p ∈ found, isComponent p = true := by
  obtain ⟨p, rfl | rfl⟩ := cases_of_collectComponents h
  · exact .inl (Nat.le_refl 1)
  · refine .inr fun q hq => ?_
    exact (List.mem_filter.mp (List.mem_mergeSort.mp hq)).2

/-- Have no two files one name, byte by byte? -/
def FileTree.Distinct (t : FileTree) : Prop := (t.files.map fun f => f.1.map nameBytes).Nodup

/-- The files below a place are files of the tree, each once. -/
theorem sublist_filesBelow (t : FileTree) (loc : Location) :
    ((t.filesBelow loc).map fun f => (loc ++ f.1).map nameBytes).Sublist
      (t.files.map fun f => f.1.map nameBytes) := by
  rw [FileTree.filesBelow]
  induction t.files with
  | nil => exact .slnil
  | cons f rest ih =>
    obtain ⟨l, bytes⟩ := f
    by_cases below : (loc.isPrefixOf l && loc.length < l.length) = true
    · obtain ⟨names, rfl⟩ := List.isPrefixOf_iff_prefix.mp (Bool.and_eq_true_iff.mp below).1
      simp only [List.filterMap_cons, below, if_true, List.drop_left]
      exact ih.cons_cons _
    · simp only [List.filterMap_cons, if_neg below]
      exact ih.cons _

/-- **No component is found twice.** -/
theorem nodup_of_collectComponents {tree : FileTree} {cwd path : Path} {found : List Path}
    (distinct : tree.Distinct) (h : collectComponents tree cwd path = .ok found) :
    (found.map fun p => p.names.map nameBytes).Nodup := by
  obtain ⟨p, rfl | rfl⟩ := cases_of_collectComponents h
  · simp
  · rw [((List.mergeSort_perm _ _).map _).nodup_iff]
    have below := distinct.sublist (sublist_filesBelow tree p.names)
    refine List.Nodup.sublist (List.filter_sublist.map _) ?_
    rwa [List.map_map]

/-! ## Paths of components -/

namespace Text

/-- What is joined ends in the last piece, behind a separator if there are others. -/
theorem exists_join_eq_append (c : CodePoint) {pieces : List Text} {last : Text}
    (h : pieces.getLast? = some last) :
    ∃ front, (∀ x ∈ front.getLast?, x = c) ∧ join [c] pieces = front ++ last := by
  induction pieces with
  | nil => cases h
  | cons piece rest ih =>
    cases rest with
    | nil => exact ⟨[], nofun, by simpa [join] using h⟩
    | cons next rest =>
      obtain ⟨front, ends, joined⟩ := ih (by simpa [List.getLast?_cons] using h)
      refine ⟨piece ++ [c] ++ front, fun x hx => ?_, ?_⟩
      · rw [List.getLast?_append] at hx
        cases front with
        | nil => simpa [eq_comm] using hx
        | cons d front => exact ends x (by simpa [List.getLast?_cons] using hx)
      · rw [join_cons (List.cons_ne_nil next rest), joined]
        simp

/-- Pieces without the separator are found again in what is joined. -/
theorem splitOn_join {c : CodePoint} {pieces : List Text} (some_ : pieces ≠ [])
    (apart : ∀ piece ∈ pieces, c ∉ piece) : splitOn c (join [c] pieces) = pieces := by
  induction pieces with
  | nil => exact absurd rfl some_
  | cons piece rest ih =>
    obtain ⟨here, later⟩ := List.forall_mem_cons.mp apart
    by_cases none_ : rest = []
    · subst none_
      exact splitOn_of_not_mem here
    · rw [join_cons none_, List.append_assoc, List.singleton_append, splitOn_append_cons,
        splitOn_of_not_mem here, ih none_ later]
      rfl

end Text

namespace Path

theorem exists_toText_eq_append {p : Path} {last : Text} (h : p.names.getLast? = some last) :
    ∃ front, p.toText = front ++ last := by
  obtain ⟨front, -, joined⟩ := Text.exists_join_eq_append '/' h
  have joined : Text.join "/" p.names = front ++ last := joined
  rw [toText]
  split
  next => exact ⟨_, by rw [joined, ← List.append_assoc]⟩
  next none_ =>
    rw [none_] at h
    cases h
  next => exact ⟨front, joined⟩

/-- Seen from a root a path still ends in its name, if it is not that root itself. -/
theorem exists_relativeTo_eq_append (root : Path) {p : Path} {last : Text}
    (h : p.names.getLast? = some last) :
    root.relativeTo p = "." ∨ ∃ front, root.relativeTo p = front ++ last := by
  rw [relativeTo]
  split
  next names below =>
    rw [below?] at below
    split at below
    next =>
      obtain rfl := Option.some.inj below
      by_cases long : root.names.length < p.names.length
      · refine .inr (exists_toText_eq_append ?_)
        rw [List.getLast?_drop, if_neg (by omega)]
        exact h
      · rw [List.drop_eq_nil_of_le (by omega)]
        exact .inl rfl
    next => cases below
  next => exact .inr (exists_toText_eq_append h)

/-- A path with an extension has a name that ends in it. -/
theorem exists_name_eq_append {p : Path} {ext : Text} (h : p.extension = ext) (some_ : ext ≠ "") :
    ∃ stem, p.names.getLast? = some (stem ++ ext) := by
  obtain ⟨front, last, whole, hfront, hlast⟩ := Text.exists_last (· = .char '.') p.name
  have single : .char '.' ∉ last := fun mem => hlast _ mem rfl
  rw [extension] at h
  rcases List.eq_nil_or_concat' front with rfl | ⟨stem, c, rfl⟩
  · rw [whole, List.nil_append, Text.splitLast_of_not_mem single] at h
    exact absurd h.symm some_
  · obtain rfl : c = .char '.' := hfront c (by simp)
    rw [List.append_assoc, List.singleton_append] at whole
    rw [whole, Text.splitLast_append stem single] at h
    split at h
    next first rest second more same =>
      obtain ⟨-, rfl⟩ := Prod.mk.inj same
      refine ⟨stem, ?_⟩
      rw [← h, ← whole]
      cases named : p.names.getLast? with
      | none =>
        rw [name, named] at whole
        exact absurd whole.symm (List.append_ne_nil_of_right_ne_nil stem (List.cons_ne_nil _ _))
      | some n => rw [name, named]; rfl
    next => exact absurd h.symm some_

/-- Names joined by slashes are a path of these names. -/
theorem ofText_join {names : List Text} (some_ : names ≠ []) (h : ∀ n ∈ names, IsName n) :
    (ofText (Text.join "/" names)).names = names ∧
      (ofText (Text.join "/" names)).absolute = false := by
  constructor
  · have split : Text.splitOn '/' (Text.join "/" names) = names :=
      Text.splitOn_join some_ fun n hn => (h n hn).single
    rw [names_ofText, split]
    refine List.filter_eq_self.mpr fun n hn => ?_
    simp [(h n hn).nonempty, (h n hn).here]
  · obtain ⟨first, rest, rfl⟩ := List.exists_cons_of_ne_nil some_
    obtain ⟨⟨nonempty, -, -, single⟩, -⟩ := List.forall_mem_cons.mp h
    obtain ⟨c, first, rfl⟩ := List.exists_cons_of_ne_nil nonempty
    have starts : (Text.join "/" ((c :: first) :: rest)).head? = some c := by
      by_cases none_ : rest = []
      · rw [none_]
        rfl
      · rw [Text.join_cons none_]
        rfl
    have other : c ≠ .char '/' := fun same => single (same ▸ List.mem_cons_self ..)
    simp [ofText, starts, other]

end Path

/-- Does a path end in a name, or mean the directory that it is seen from? -/
def HasName (path : Text) : Prop := path = "." ∨ Path.IsName (basename path)

/-- Is this the path of a component that is found in a directory? -/
def IsComponentPath (path : Text) : Prop :=
  path = "." ∨ ∃ stem, basename path = stem ++ componentExtension

/-- The path of the document that a component is, in a project. -/
def documentPath (root p : Path) : Text := Text.replaceAll "\\" "/" (root.relativeTo p)

theorem backslash_not_mem_documentPath (root p : Path) : .char '\\' ∉ documentPath root p := by
  rw [documentPath, slashed_eq]
  intro mem
  obtain ⟨c, -, same⟩ := List.mem_map.mp mem
  split at same
  · cases same
  next other => exact other same

/-- **A component that is found has a path with the extension**, or is the root of the project. -/
theorem isComponentPath_documentPath {p : Path} (root : Path) (h : isComponent p = true) :
    IsComponentPath (documentPath root p) := by
  obtain ⟨ext, -⟩ := Bool.and_eq_true_iff.mp h
  obtain ⟨stem, named⟩ := Path.exists_name_eq_append (beq_iff_eq.mp ext) (by decide)
  rw [IsComponentPath, documentPath]
  rcases Path.exists_relativeTo_eq_append root named with same | ⟨front, same⟩
  · rw [same]
    exact .inl rfl
  · obtain ⟨dir, base, whole, hdir, hbase⟩ :=
      exists_basename (Text.replaceAll "\\" "/" (front ++ stem))
    have path : Text.replaceAll "\\" "/" (front ++ (stem ++ componentExtension)) =
        dir ++ (base ++ componentExtension) := by
      rw [← List.append_assoc, ← List.append_assoc, ← whole, slashed_eq, slashed_eq, List.map_append]
      rfl
    have single : ∀ c ∈ base ++ componentExtension, ¬ IsSlash c := by
      intro c hc
      rcases List.mem_append.mp hc with hc | hc
      · exact hbase c hc
      · exact (by decide : ∀ c ∈ componentExtension, ¬ IsSlash c) c hc
    rw [same, path]
    exact .inr ⟨base, basename_append hdir single⟩

/-- Is a component below the root of a project, with names that have no backslash? -/
def Ordinary (root p : Path) : Prop :=
  ∃ names, names ≠ [] ∧ root.absolute = p.absolute ∧ p.names = root.names ++ names ∧
    ∀ n ∈ names, Path.IsName n ∧ .char '\\' ∉ n

/-- The path of an ordinary component leads from the root to it. -/
theorem documentPath_of_ordinary {root p : Path} {names : List Text} (some_ : names ≠ [])
    (absolute : root.absolute = p.absolute) (below : p.names = root.names ++ names)
    (plain : ∀ n ∈ names, .char '\\' ∉ n) : documentPath root p = Text.join "/" names := by
  have relative : root.relativeTo p = Text.join "/" names := by
    have found : root.below? p = some names := by
      simp [Path.below?, absolute, below]
    rw [Path.relativeTo, found]
    obtain ⟨first, rest, rfl⟩ := List.exists_cons_of_ne_nil some_
    rfl
  have others : ∀ c ∈ Text.join "/" names, c ≠ .char '\\' :=
    (Text.forall_mem_join (by decide)).mpr fun n hn c hc same => plain n hn (same ▸ hc)
  have none_ : .char '\\' ∉ Text.join "/" names := fun mem => others _ mem rfl
  rw [documentPath, relative, slashed_of_not_mem none_]

theorem isName_basename_join {names : List Text} (some_ : names ≠ [])
    (h : ∀ n ∈ names, Path.IsName n) (plain : ∀ n ∈ names, .char '\\' ∉ n) :
    Path.IsName (basename (Text.join "/" names)) := by
  have found := List.getLast?_eq_some_getLast some_
  obtain ⟨front, ends, joined⟩ := Text.exists_join_eq_append '/' found
  generalize names.getLast some_ = last at found joined
  have mem := List.mem_of_getLast? found
  have joined : Text.join "/" names = front ++ last := joined
  have single : ∀ c ∈ last, ¬ IsSlash c := by
    rintro c hc (rfl | rfl)
    · exact (h last mem).single hc
    · exact plain last mem hc
  rw [joined, basename_append (fun c hc => .inl (ends c hc)) single]
  exact h last mem

/-- **The path of an ordinary component** ends in a name and leads from the root to the component. -/
theorem exists_of_ordinary {root p : Path} (h : Ordinary root p) :
    ∃ names, p.names = root.names ++ names ∧ (∀ n ∈ names, Path.IsName n) ∧
      Path.IsName (basename (documentPath root p)) ∧
      (Path.ofText (documentPath root p)).names = names ∧
      (Path.ofText (documentPath root p)).absolute = false := by
  obtain ⟨names, some_, absolute, below, ordinary⟩ := h
  have isName : ∀ n ∈ names, Path.IsName n := fun n hn => (ordinary n hn).1
  have plain : ∀ n ∈ names, .char '\\' ∉ n := fun n hn => (ordinary n hn).2
  rw [documentPath_of_ordinary some_ absolute below plain]
  exact ⟨names, below, isName, isName_basename_join some_ isName plain, Path.ofText_join some_ isName⟩

end Componentry
