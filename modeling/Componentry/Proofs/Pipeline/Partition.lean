import Componentry.Pipeline.Partition
import Componentry.Proofs.Cache.Store

/-!
# Partitions beside the cache directory

Every partition of a project has a directory, whose name can be looked up if those of the cache
directory and of the compiler's version can. The file of a partition is never the file of the
compile results, so that writing the one leaves the other as it was.
-/

namespace Componentry

/-! ## Parts of names -/

/-- Can the text be a part of one name of a path? -/
def Text.IsNamePart (s : Text) : Prop := s.Nameable ∧ s.has '/' = false

instance (s : Text) : Decidable s.IsNamePart :=
  inferInstanceAs (Decidable (s.Nameable ∧ s.has '/' = false))

namespace Text

theorem has_append (a b : Text) (c : CodePoint) : (a ++ b).has c = (a.has c || b.has c) := by
  rw [has, has, has, Bool.eq_iff_iff]
  simp

theorem isNamePart_append {a b : Text} : (a ++ b).IsNamePart ↔ a.IsNamePart ∧ b.IsNamePart := by
  rw [IsNamePart, IsNamePart, IsNamePart, nameable_append, has_append, Bool.or_eq_false_iff]
  exact ⟨fun h => ⟨⟨h.1.1, h.2.1⟩, h.1.2, h.2.2⟩, fun h => ⟨⟨h.1.1, h.2.1⟩, h.1.2, h.2.2⟩⟩

theorem IsNamePart.take {s : Text} (h : s.IsNamePart) (n : Nat) : Text.IsNamePart (s.take n) := by
  rw [← List.take_append_drop n s, isNamePart_append] at h
  exact h.1

end Text

/-! ## Digests -/

theorem Text.forall_mem_hexFixed {P : CodePoint → Prop} (digits : ∀ k < 16, P (hexDigit k))
    (width n : Nat) : ∀ c ∈ hexFixed width n, P c := by
  induction width generalizing n with
  | zero => exact fun c hc => absurd hc List.not_mem_nil
  | succ width ih =>
    intro c hc
    rcases List.mem_append.mp hc with hc | hc
    · exact ih (n / 16) c hc
    · rw [List.mem_singleton.mp hc]
      exact digits (n % 16) (Nat.mod_lt n (by decide))

/-- The digits of words, whatever the order of their bytes. -/
theorem Digest.forall_mem_hexWords {P : CodePoint → Prop} (digits : ∀ k < 16, P (Text.hexDigit k))
    (bytes : Nat → List UInt8) (words : List UInt32) : ∀ c ∈ hexWords bytes words, P c := by
  intro c hc
  obtain ⟨word, -, hc⟩ := List.mem_flatMap.mp hc
  obtain ⟨byte, -, hc⟩ := List.mem_flatMap.mp hc
  exact Text.forall_mem_hexFixed digits 2 byte.toNat c hc

/-- **The standard digests** are texts that can be written and read back, and those of options can
be parts of names. -/
theorem Hashing.plain_standard : (∀ s, (standard.source s).Whole) ∧ (∀ s, (standard.entry s).Whole) ∧
    ∀ s, (standard.options s).IsNamePart := by
  have whole (bytes : Nat → List UInt8) (words : List UInt32) : (Digest.hexWords bytes words).Whole :=
    Text.whole_of_not_isHalf (Digest.forall_mem_hexWords (by decide) bytes words)
  refine ⟨fun s => whole _ _, fun s => whole _ _, fun s => ⟨?_, ?_⟩⟩
  · exact Text.nameable_iff.mpr (Digest.forall_mem_hexWords (by decide) _ _)
  · have plain : ∀ c ∈ standard.options s, c ≠ .char '/' :=
      Digest.forall_mem_hexWords (by decide) _ _
    rw [Text.has, ← Bool.not_eq_true, List.elem_iff]
    exact fun hc => plain _ hc rfl

/-! ## The directory -/

namespace PartitionScope

variable {scope : PartitionScope} {version : Text} {cache : Path}

theorem isNamePart_suffix (digests : ∀ s, (scope.hashing.options s).IsNamePart)
    (hv : version.IsNamePart) (hot : Bool) : (scope.suffix version hot).IsNamePart := by
  have short (options : Json.Fields) : (shortDigest scope.hashing options).IsNamePart :=
    (digests _).take 6
  have production : Text.IsNamePart (if scope.production then "true" else "false" : String) := by
    split <;> decide
  have reload : Text.IsNamePart (if hot then
      "hmr-" ++ shortDigest scope.hashing (hotOptions scope.runtimePackage) ++ "-" else "") := by
    split
    · rw [Text.isNamePart_append, Text.isNamePart_append]
      exact ⟨⟨by decide, short _⟩, by decide⟩
    · decide
  have dash : Text.IsNamePart "-" := by decide
  simp only [suffix, Text.isNamePart_append]
  exact ⟨⟨⟨⟨⟨⟨⟨⟨⟨⟨by decide, hv⟩, dash⟩, by decide⟩, dash⟩, production⟩, by decide⟩, short _⟩, dash⟩,
    reload⟩, by decide⟩

/-- The directory beside a cache directory that has a name. -/
theorem directory_eq {hot : Bool} (slash : (scope.suffix version hot).has '/' = false)
    (named : cache.names ≠ []) (single : cache.name.has '/' = false) :
    scope.directory cache version hot = .ok
      { cache with names := cache.names.dropLast ++ [cache.name ++ scope.suffix version hot] } := by
  have start : (Text.ofString "-lowering-").length = 10 := by decide
  have long : 2 ≤ (cache.name ++ scope.suffix version hot).length := by
    simp only [suffix, List.length_append, start]
    omega
  have notEmpty : (cache.name ++ scope.suffix version hot == Text.ofString "") = false := by
    rw [beq_eq_false_iff_ne]
    intro h
    rw [h] at long
    exact absurd long (by decide)
  have notDot : (cache.name ++ scope.suffix version hot == Text.ofString ".") = false := by
    rw [beq_eq_false_iff_ne]
    intro h
    rw [h] at long
    exact absurd long (by decide)
  have slash : (cache.name ++ scope.suffix version hot).has '/' = false := by
    rw [Text.has_append, single, slash]
    rfl
  have some_ : cache.names.isEmpty = false := by simpa using named
  simp [directory, Path.renamed, Path.withName?, some_, notEmpty, notDot, slash, Except.mapError]

/-- **Every partition has a directory** beside a cache directory that has a name. -/
theorem exists_directory (digests : ∀ s, (scope.hashing.options s).IsNamePart)
    (hv : version.IsNamePart) (named : cache.names ≠ []) (single : cache.name.has '/' = false)
    (hot : Bool) : ∃ d, scope.directory cache version hot = .ok d ∧
      d.names = cache.names.dropLast ++ [cache.name ++ scope.suffix version hot] :=
  ⟨_, directory_eq (isNamePart_suffix digests hv hot).2 named single, rfl⟩

end PartitionScope

/-! ## Files beside the cache directory -/

namespace Path

/-- The file that a directory keeps its store in. -/
theorem names_child (d : Path) {file : Text} (plain : ofText file = ⟨false, [file], false⟩) :
    (d.child file).names = d.names ++ [file] := by
  rw [child, plain, join]
  rfl

theorem location_child (d : Path) {file : Text} (plain : ofText file = ⟨false, [file], false⟩)
    (up : file ≠ "..") : (d.child file).location = d.location ++ [storedName file] :=
  location_of_names (names_child d plain) up

theorem ofText_cacheFile : ofText "cache.json" = ⟨false, ["cache.json"], false⟩ := by decide

theorem ofText_compileFile :
    ofText "compile-cache.json" = ⟨false, ["compile-cache.json"], false⟩ := by decide

/-- A partition's file is never the file of the compile results. -/
theorem location_cacheFile_ne (d cache : Path) :
    (d.child "cache.json").location ≠ (cache.child "compile-cache.json").location := by
  rw [location_child d ofText_cacheFile (by decide),
    location_child cache ofText_compileFile (by decide)]
  intro h
  have last := congrArg List.getLast? h
  rw [List.getLast?_concat, List.getLast?_concat] at last
  exact absurd last (by decide)

theorem nameable_child_compileFile {cache : Path} (h : cache.Nameable) :
    (cache.child "compile-cache.json").Nameable := by
  intro n hn
  rw [names_child cache ofText_compileFile] at hn
  rcases List.mem_append.mp hn with hn | hn
  · exact h n hn
  · rw [List.mem_singleton.mp hn]
    decide

end Path

/-- What the directories and files beside a cache directory must be like for a project's partitions
to be opened there. -/
structure PartitionScope.Fits (scope : PartitionScope) (version : Text) (cache : Path) : Prop where
  digests : ∀ s, (scope.hashing.options s).IsNamePart
  version : version.IsNamePart
  named : cache.names ≠ []
  single : cache.name.has '/' = false
  nameable : cache.Nameable

namespace PartitionScope.Fits

variable {scope : PartitionScope} {version : Text} {cache : Path}

/-- The file of a partition can be looked up. -/
theorem exists_partition (h : scope.Fits version cache) (hot : Bool) :
    ∃ d, scope.directory cache version hot = .ok d ∧ (d.child "cache.json").Nameable := by
  obtain ⟨d, directory, names⟩ := exists_directory h.digests h.version h.named h.single hot
  refine ⟨d, directory, ?_⟩
  have name : cache.name.Nameable := by
    have last := List.getLast?_eq_some_getLast h.named
    rw [Path.name, last]
    exact h.nameable _ (List.getLast_mem h.named)
  intro n hn
  rw [Path.names_child d Path.ofText_cacheFile, names] at hn
  simp only [List.mem_append, List.mem_singleton] at hn
  rcases hn with (hn | rfl) | rfl
  · exact h.nameable n ((List.dropLast_sublist _).mem hn)
  · exact Text.nameable_append.mpr ⟨name, (isNamePart_suffix h.digests h.version hot).1⟩
  · decide

end PartitionScope.Fits

/-! ## Sound partitions -/

/-- Are the open stores sound, and those of partitions beside the cache directory? -/
def Partitions.Sound (scope : PartitionScope) (version : Text) (Right : Text → Json → Prop)
    (ps : Partitions) : Prop :=
  ∀ f ∈ ps.stores, Store.Sound Right f.2.entries ∧ f.2.path = some (f.1.child "cache.json") ∧
    ∃ cache hot, ps.cache = some cache ∧ scope.directory cache version hot = .ok f.1

/-- Are the files of the partitions beside the cache directory those of sound stores? -/
def FileTree.KeepsPartitions (t : FileTree) (scope : PartitionScope) (version : Text)
    (Right : Text → Json → Prop) (cache : Path) : Prop :=
  ∀ hot d, scope.directory cache version hot = .ok d → t.Keeps (d.child "cache.json").location Right

namespace Partitions

variable {scope : PartitionScope} {version : Text} {Right : Text → Json → Prop} {ps : Partitions}

theorem Sound.moved (cache : Option Path) : Sound scope version Right (.moved cache) := by
  intro f hf
  cases hf

theorem mem_of_store? {d : Path} {s : Store} (h : ps.store? d = some s) : (d, s) ∈ ps.stores := by
  rw [store?, Option.map_eq_some_iff] at h
  obtain ⟨f, found, rfl⟩ := h
  have name : f.1 = d := by simpa using List.find?_some found
  exact name ▸ List.mem_of_find?_eq_some found

theorem mem_setStore {stores : List (Path × Store)} {d : Path} {s : Store} {f : Path × Store}
    (h : f ∈ setStore stores d s) : f = (d, s) ∨ f ∈ stores := by
  induction stores with
  | nil => exact .inl (List.mem_singleton.mp h)
  | cons g rest ih =>
    rw [setStore] at h
    split at h
    next same =>
      rcases List.mem_cons.mp h with rfl | h
      · exact .inl (by rw [same])
      · exact .inr (List.mem_cons_of_mem _ h)
    next =>
      rcases List.mem_cons.mp h with rfl | h
      · exact .inr (List.mem_cons_self ..)
      · exact (ih h).imp id (List.mem_cons_of_mem _)

/-- A sound store of a partition may be opened or changed. -/
theorem Sound.withStore (h : Sound scope version Right ps) {d cache : Path} {s : Store} {hot : Bool}
    (sound : Store.Sound Right s.entries) (path : s.path = some (d.child "cache.json"))
    (beside : ps.cache = some cache) (directory : scope.directory cache version hot = .ok d) :
    Sound scope version Right (ps.withStore d s) := by
  intro f hf
  rcases mem_setStore hf with rfl | hf
  · exact ⟨sound, path, cache, hot, beside, directory⟩
  · exact h f hf

/-! ## Writing -/

theorem exists_of_mem_persistAll {t : FileTree} {stores : List (Path × Store)} {f : Path × Store}
    (h : f ∈ (persistAll t stores).1) :
    ∃ g ∈ stores, f.1 = g.1 ∧ f.2.entries = g.2.entries ∧ f.2.path = g.2.path := by
  induction stores generalizing t with
  | nil => cases h
  | cons g rest ih =>
    obtain ⟨d, s⟩ := g
    obtain ⟨entries, path, -⟩ := Store.persist_cases s t
    rw [persistAll] at h
    rcases hp : s.persist t with ⟨s', t', failure⟩
    rw [hp] at entries path
    simp only [hp] at h
    cases failure with
    | some e =>
      rcases List.mem_cons.mp h with rfl | h
      · exact ⟨(d, s), List.mem_cons_self .., rfl, entries, path⟩
      · exact ⟨f, List.mem_cons_of_mem _ h, rfl, rfl, rfl⟩
    | none =>
      rcases List.mem_cons.mp h with rfl | h
      · exact ⟨(d, s), List.mem_cons_self .., rfl, entries, path⟩
      · obtain ⟨g, hg, same⟩ := ih h
        exact ⟨g, List.mem_cons_of_mem _ hg, same⟩

/-- **Writing that succeeds** leaves all stores as they are, but clean. What is read at a path then is
what was there, or what the store of this file holds; no store may have something else for the file.
-/
theorem persistAll_of_success {t : FileTree} {stores : List (Path × Store)}
    (h : (persistAll t stores).2.2 = none) :
    (persistAll t stores).1 = stores.map (fun f => (f.1, f.2.cleaned)) ∧
    ∀ p bytes, (t.read p = .ok bytes ∨ ∃ f ∈ stores, f.2.path = some p ∧ f.2.dirty = true ∧
        bytes = ⟨(Text.bytes f.2.text).toArray⟩) →
      (∀ f ∈ stores, f.2.dirty = true → ∀ q, f.2.path = some q → q.location = p.location →
        bytes = ⟨(Text.bytes f.2.text).toArray⟩) →
      (persistAll t stores).2.1.read p = .ok bytes := by
  induction stores generalizing t with
  | nil =>
    refine ⟨rfl, fun p bytes before _ => ?_⟩
    exact before.resolve_right fun ⟨f, hf, _⟩ => absurd hf List.not_mem_nil
  | cons g rest ih =>
    obtain ⟨d, s⟩ := g
    have first := Store.persist_of_success (s := s) (t := t)
    rw [persistAll] at h ⊢
    rcases hp : s.persist t with ⟨s', t', failure⟩
    rw [hp] at first
    simp only [hp] at h
    cases failure with
    | some e => cases h
    | none =>
      obtain ⟨rfl, kept⟩ := first rfl
      obtain ⟨clean, others⟩ := ih h
      refine ⟨congrArg ((d, s.cleaned) :: ·) clean, fun p bytes before alone => ?_⟩
      obtain ⟨own, alone⟩ := List.forall_mem_cons.mp alone
      refine others p bytes ?_ alone
      rcases before with read | ⟨f, hf, found⟩
      · exact .inl (kept p bytes (.inl read) own)
      · rcases List.mem_cons.mp hf with rfl | hf
        · exact .inl (kept p bytes (.inr found) own)
        · exact .inr ⟨f, hf, found⟩

theorem Sound.persist (h : Sound scope version Right ps) (t : FileTree) :
    Sound scope version Right (ps.persist t).1 := by
  intro f hf
  obtain ⟨g, hg, name, entries, path⟩ := exists_of_mem_persistAll hf
  obtain ⟨sound, file, directory⟩ := h g hg
  exact ⟨entries ▸ sound, by rw [path, file, name], by rw [name]; exact directory⟩

/-- Writing the stores keeps the files of sound stores, if they are sound for what their own files
are to keep. -/
theorem keeps_persistAll {t : FileTree} {stores : List (Path × Store)} {loc : Location}
    (keeps : t.Keeps loc Right)
    (sound : ∀ f ∈ stores, ∀ p, f.2.path = some p → p.location = loc → Store.Sound Right f.2.entries) :
    (persistAll t stores).2.1.Keeps loc Right := by
  induction stores generalizing t with
  | nil => exact keeps
  | cons g rest ih =>
    obtain ⟨d, s⟩ := g
    have first := Store.keeps_persist keeps (sound (d, s) (List.mem_cons_self ..))
    rw [persistAll]
    rcases hp : s.persist t with ⟨s', t', failure⟩
    rw [hp] at first
    cases failure with
    | some e => exact first
    | none => exact ih first fun f hf => sound f (List.mem_cons_of_mem _ hf)

end Partitions

end Componentry
