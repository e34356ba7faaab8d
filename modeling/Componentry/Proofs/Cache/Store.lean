import Componentry.Cache.Store
import Componentry.Proofs.Files.Tree
import Componentry.Proofs.Json.Sorted

/-!
# Stores keep what was put into them

A store is sound when each of its entries has a payload that is right for the entry's key. Which
payloads are right is left open; it must not depend on the order of fields, since that is not kept.
Putting a right payload keeps a store sound, and so do writing its file and reading it again.
-/

namespace Componentry

/-- Can the payload be written to a store's file and read back? It stands three levels deep there.
-/
def Json.Keepable (payload : Json) : Prop :=
  (∃ fields, payload = .obj fields) ∧ payload.isStorable ∧ payload.depth + 3 ≤ Json.maxDepth

theorem Json.Keepable.sorted {payload : Json} (h : payload.Keepable) : payload.sorted.Keepable := by
  obtain ⟨⟨fields, rfl⟩, storable, shallow⟩ := h
  refine ⟨⟨_, rfl⟩, ?_, ?_⟩
  · rwa [isStorable_sorted]
  · rwa [depth_sorted]

namespace Store

/-- An entry with its payload and the time of its last change. -/
def entry (payload : Json) (stamp : Text) : Json :=
  .obj [("payload", payload), ("updated_at", .str stamp)]

/-- Entries with distinct keys whose payloads are right, `Right` being told their sorted forms. -/
structure Sound (Right : Text → Json → Prop) (entries : Json.Fields) : Prop where
  nodup : entries.keys.Nodup
  exists_entry : ∀ f ∈ entries, ∃ payload stamp, f.2 = entry payload stamp ∧
    f.1.Whole ∧ stamp.Whole ∧ payload.Keepable ∧ Right f.1 payload.sorted

section

variable {Right : Text → Json → Prop} {s : Store} {key stamp : Text} {payload : Json}

theorem Sound.nil : Sound Right [] := ⟨.nil, by simp⟩

theorem Sound.mono {Right' : Text → Json → Prop} {entries : Json.Fields} (h : Sound Right entries)
    (imp : ∀ key payload, Right key payload → Right' key payload) : Sound Right' entries where
  nodup := h.nodup
  exists_entry := by
    intro f hf
    obtain ⟨payload, stamp, shape, whole, time, keepable, right⟩ := h.exists_entry f hf
    exact ⟨payload, stamp, shape, whole, time, keepable, imp _ _ right⟩

/-- **A right payload that is put keeps a store sound.** -/
theorem Sound.put (h : Sound Right s.entries) (whole : key.Whole) (time : stamp.Whole)
    (keepable : payload.Keepable) (right : Right key payload.sorted) :
    Sound Right (s.put key payload stamp).entries where
  nodup := Json.Fields.nodup_keys_set h.nodup
  exists_entry := by
    intro f hf
    rcases Json.Fields.mem_set hf with rfl | hf
    · exact ⟨payload, stamp, rfl, whole, time, keepable, right⟩
    · exact h.exists_entry f hf

/-- **A payload that is found is right.** -/
theorem Sound.of_get? (h : Sound Right s.entries) (found : s.get? key = some payload) :
    payload.Keepable ∧ Right key payload.sorted := by
  rw [get?] at found
  cases look : Json.Fields.get? key s.entries with
  | none => simp [look] at found
  | some raw =>
    obtain ⟨kept, time, shape, -, -, keepable, right⟩ :=
      h.exists_entry _ ((Json.get?_eq_some_iff h.nodup).mp look)
    obtain ⟨fields, rfl⟩ := keepable.1
    simp only at shape
    subst shape
    simp only [look] at found
    have same : .obj fields = payload := Option.some.inj found
    exact same ▸ ⟨keepable, right⟩

end

/-! ## The file -/

/-- What the file keeps, as a data value. -/
def contents (entries : Json.Fields) : Json :=
  .obj [("version", .int version), ("entries", .obj entries)]

section

variable {Right : Text → Json → Prop} {entries : Json.Fields}

theorem isStorable_entry {payload : Json} {stamp : Text} (h : payload.isStorable)
    (time : stamp.Whole) : (entry payload stamp).isStorable := by
  have names : (Json.Fields.keys [("payload", payload), ("updated_at", .str stamp)]).Nodup :=
    show [Text.ofString "payload", Text.ofString "updated_at"].Nodup by decide
  have first : (Text.ofString "payload").Whole := by decide
  have second : (Text.ofString "updated_at").Whole := by decide
  simp [entry, Json.isStorable, Json.storableFields, names, first, second, h, time]

theorem sorted_entry (payload : Json) (stamp : Text) :
    (entry payload stamp).sorted = entry payload.sorted stamp := by
  rw [entry, Json.sorted]
  exact congrArg Json.obj (Json.sortFields_of_pairwise
    (show [Text.ofString "payload", Text.ofString "updated_at"].Pairwise _ by decide))

theorem sorted_singleton (key : Text) (payload : Json) (stamp : Text) :
    Json.sortFields (Json.sortedFields [(key, entry payload stamp)]) =
      [(key, entry payload.sorted stamp)] := by
  rw [← sorted_entry]
  exact List.mergeSort_singleton _

theorem sorted_contents (entries : Json.Fields) : (contents entries).sorted =
    .obj [("entries", .obj (Json.sortFields (Json.sortedFields entries))),
      ("version", .int version)] := by
  rw [contents, Json.sorted]
  refine congrArg Json.obj ((Json.sortFields_eq_of_perm (.swap ..) ?_).trans
    (Json.sortFields_of_pairwise ?_))
  · show [Text.ofString "version", Text.ofString "entries"].Nodup
    decide
  · show [Text.ofString "entries", Text.ofString "version"].Pairwise _
    decide

theorem Sound.isStorable_contents (h : Sound Right entries) : (contents entries).isStorable := by
  have names : (Json.Fields.keys [("version", .int version), ("entries", .obj entries)]).Nodup :=
    show [Text.ofString "version", Text.ofString "entries"].Nodup by decide
  have first : (Text.ofString "version").Whole := by decide
  have second : (Text.ofString "entries").Whole := by decide
  have one : Binary64.digitCount version.natAbs ≤ maxDigits := by decide
  have all : Json.storableFields entries := by
    rw [Json.storableFields_iff]
    intro f hf
    obtain ⟨payload, stamp, shape, whole, time, keepable, -⟩ := h.exists_entry f hf
    exact ⟨whole, shape ▸ isStorable_entry keepable.2.1 time⟩
  simp [contents, Json.isStorable, Json.storableFields, names, first, second, h.nodup, all, one]

theorem Sound.depth_contents (h : Sound Right entries) :
    (contents entries).depth ≤ Json.maxDepth := by
  have all : Json.depthFields entries ≤ Json.maxDepth - 2 := by
    rw [Json.depthFields_le_iff]
    intro f hf
    obtain ⟨payload, stamp, shape, -, -, keepable, -⟩ := h.exists_entry f hf
    have := keepable.2.2
    simp only [shape, entry, Json.depth, Json.depthFields]
    omega
  simp only [contents, Json.depth, Json.depthFields]
  have : 2 ≤ Json.maxDepth := by decide
  omega

theorem Sound.parse_text {s : Store} (h : Sound Right s.entries) :
    Json.parse s.text = .ok (contents s.entries).sorted :=
  Json.parse_render (by rw [Json.isStorable_sorted]; exact h.isStorable_contents)
    (by rw [Json.depth_sorted]; exact h.depth_contents)

theorem Sound.ascii_text {s : Store} (h : Sound Right s.entries) : s.text.Ascii :=
  Json.ascii_written _ (by rw [Json.isStorable_sorted]; exact h.isStorable_contents)

/-- Sorting the entries and their fields keeps them sound. -/
theorem Sound.sorted (h : Sound Right entries) :
    Sound Right (Json.sortFields (Json.sortedFields entries)) where
  nodup := by
    rw [Json.nodup_keys_sortFields, Json.keys_sortedFields]
    exact h.nodup
  exists_entry := by
    intro f hf
    rw [(Json.sortFields_perm _).mem_iff, Json.sortedFields_eq_map] at hf
    obtain ⟨g, hg, rfl⟩ := List.mem_map.mp hf
    obtain ⟨payload, stamp, shape, whole, time, keepable, right⟩ := h.exists_entry g hg
    refine ⟨payload.sorted, stamp, ?_, whole, time, keepable.sorted, ?_⟩
    · rw [shape, sorted_entry]
    · rwa [Json.sorted_sorted]

theorem Sound.isEntry (h : Sound Right entries) {f : Text × Json} (hf : f ∈ entries) :
    isEntry f.2 = true := by
  obtain ⟨payload, stamp, shape, -, -, ⟨⟨fields, rfl⟩, -⟩, -⟩ := h.exists_entry f hf
  rw [shape]
  rfl

/-- The entries that are read are those that were written, sorted. -/
theorem Sound.entriesOf_contents (h : Sound Right entries) :
    entriesOf (contents entries).sorted = Json.sortFields (Json.sortedFields entries) := by
  have version : (contents entries).sorted.fieldD "version" = .int version :=
    Json.fieldD_sorted h.isStorable_contents _
  have all : (contents entries).sorted.fieldD "entries" =
      .obj (Json.sortFields (Json.sortedFields entries)) :=
    Json.fieldD_sorted h.isStorable_contents _
  rw [entriesOf, version, all]
  exact List.filter_eq_self.mpr fun f hf => h.sorted.isEntry hf

end

end Store

/-! ## Files among other files -/

/-- Is the file at `loc`, if there is one, that of a sound store? -/
def FileTree.Keeps (t : FileTree) (loc : Location) (Right : Text → Json → Prop) : Prop :=
  ∀ bytes, t.bytesAt? loc = some bytes →
    ∃ s : Store, Store.Sound Right s.entries ∧ bytes = ⟨(Text.bytes s.text).toArray⟩

theorem FileTree.Keeps.of_bytesAt?_eq {t t' : FileTree} {loc : Location}
    {Right : Text → Json → Prop} (h : t.Keeps loc Right)
    (same : t'.bytesAt? loc = t.bytesAt? loc) : t'.Keeps loc Right :=
  fun bytes found => h bytes (same ▸ found)

namespace Store

variable {Right : Text → Json → Prop} {t : FileTree} {p : Path}

theorem isReadable_of_walk {shown : Text} {loc : Location} {names : List Text} {e : FileError}
    (h : t.walk shown loc names = .error e) : isReadable e := by
  induction names generalizing loc with
  | nil => cases h
  | cons n rest ih =>
    rw [FileTree.walk] at h
    split at h
    · split at h
      · cases h; rfl
      · exact ih h
    · split at h <;> (cases h; rfl)

/-- A path that can be looked up is not read for one of the reasons that a store is started over. -/
theorem isReadable_of_read (named : p.Nameable) {e : FileError} (h : t.read p = .error e) :
    isReadable e := by
  obtain ⟨fault, null⟩ := Path.nameable_iff.mp named
  rw [FileTree.read] at h
  cases located : t.locate p with
  | error e' =>
    simp only [located, bind, Except.bind, Except.error.injEq] at h
    subst h
    rw [FileTree.locate, fault] at located
    simp only [null, Bool.false_eq_true, if_false] at located
    split at located
    · cases located; rfl
    · exact isReadable_of_walk located
  | ok loc =>
    simp only [located, bind, Except.bind] at h
    split at h
    · cases h
    · cases h
      split <;> rfl

theorem Sound.decodeFile_text {s : Store} (sound : Sound Right s.entries) :
    decodeFile ⟨(Text.bytes s.text).toArray⟩ = .ok s.text := by
  have whole : ∀ c ∈ s.text, c.isHalf = false :=
    fun c hc => CodePoint.isHalf_of_isAscii (sound.ascii_text c hc)
  have lines : .char '\r' ∉ s.text := fun hc => absurd (sound.ascii_text _ hc) (by decide)
  exact decodeFile_bytes whole lines

/-- What is read from a store's file is what was written, sorted. -/
theorem Sound.load_of_read {s : Store} (sound : Sound Right s.entries)
    (read : t.read p = .ok ⟨(Text.bytes s.text).toArray⟩) :
    load t p = .ok (Json.sortFields (Json.sortedFields s.entries)) := by
  simp [load, FileTree.readText, read, bind, Except.bind, sound.decodeFile_text, Except.mapError,
    sound.parse_text, sound.entriesOf_contents]

/-- So it is for a store of one entry. -/
theorem Sound.opened_singleton {s : Store} {key stamp : Text} {payload : Json}
    (sound : Sound Right s.entries) (single : s.entries = [(key, entry payload stamp)])
    (read : t.read p = .ok ⟨(Text.bytes s.text).toArray⟩) :
    opened t p = .ok { path := some p, entries := [(key, entry payload.sorted stamp)] } := by
  rw [opened, sound.load_of_read read, single, sorted_singleton]
  rfl

/-- Where nothing can be read, a store starts empty. -/
theorem load_of_read_error (named : p.Nameable) {e : FileError} (read : t.read p = .error e) :
    load t p = .ok [] := by
  simp [load, FileTree.readText, read, bind, Except.bind, isReadable_of_read named read]

/-- **A file of a sound store is read as a sound store.** -/
theorem exists_load (keeps : t.Keeps p.location Right) (named : p.Nameable) :
    ∃ entries, load t p = .ok entries ∧ Sound Right entries := by
  cases read : t.read p with
  | error e => exact ⟨[], load_of_read_error named read, .nil⟩
  | ok bytes =>
    obtain ⟨s, sound, rfl⟩ := keeps bytes (FileTree.read_eq_ok_iff.mp read).2
    exact ⟨_, sound.load_of_read read, sound.sorted⟩

/-- A store can only be read at a path that can be looked up. -/
theorem nameable_of_load {entries : Json.Fields} (h : load t p = .ok entries) : p.Nameable := by
  rw [Path.nameable_iff]
  have located : ∀ e, t.locate p = .error e → isReadable e := by
    intro e he
    cases readable : isReadable e with
    | true => rfl
    | false =>
      simp [load, FileTree.readText, FileTree.read, he, bind, Except.bind, readable] at h
  cases fault : nameFault? p.toText with
  | some e =>
    have := located (.encode e) (by simp [FileTree.locate, fault])
    cases this
  | none =>
    cases null : p.hasNull with
    | true =>
      have := located .nullByte (by simp [FileTree.locate, fault, null])
      cases this
    | false => exact ⟨rfl, rfl⟩

theorem nameable_of_opened {s : Store} (h : opened t p = .ok s) : p.Nameable := by
  rw [opened] at h
  cases load : load t p with
  | error e => simp [load, bind, Except.bind] at h
  | ok entries => exact nameable_of_load load

/-! ## Writing -/

/-- Writing a store either changes no file, and then it failed or there was nothing to write, or it
writes the store's own file and succeeds. -/
theorem persist_outcome (s : Store) (t : FileTree) :
    (∃ t' failure, s.persist t = (s, t', failure) ∧ t'.Extends t ∧
      (failure = none → s.path = none ∨ s.dirty = false)) ∨
    ∃ (p : Path) (t₁ t' : FileTree), s.path = some p ∧ s.dirty = true ∧ t₁.Extends t ∧
      t₁.write p ⟨(Text.bytes s.text).toArray⟩ = .ok t' ∧
      s.persist t = ({ s with dirty := false }, t', none) := by
  rw [persist]
  cases path : s.path with
  | none => exact .inl ⟨t, none, rfl, .refl t, fun _ => .inl rfl⟩
  | some p =>
    simp only
    cases dirty : s.dirty with
    | false => exact .inl ⟨t, none, rfl, .refl t, fun _ => .inr rfl⟩
    | true =>
      have dirs := FileTree.extends_makeDirs t p.parent
      generalize t.makeDirs p.parent = made at dirs
      obtain ⟨t₁, failure⟩ := made
      cases failure with
      | some e => exact .inl ⟨t₁, some (.file e), rfl, dirs, nofun⟩
      | none =>
        cases written : t₁.writeText p s.text with
        | error e => exact .inl ⟨t₁, some (.file e), by simp [written], dirs, nofun⟩
        | ok t₂ =>
          exact .inr ⟨p, t₁, t₂, rfl, rfl, dirs, FileTree.write_of_writeText written,
            by simp [written]⟩

/-- The store after its file was written, if it has one. -/
def cleaned (s : Store) : Store := { s with dirty := s.dirty && s.path.isNone }

theorem dirty_cleaned {s : Store} (h : s.path ≠ none) : s.cleaned.dirty = false := by
  rw [cleaned, Option.isNone_eq_false_iff.mpr (Option.isSome_iff_ne_none.mpr h), Bool.and_false]

/-- **Writing that succeeds** leaves the store as it is, but clean. What is read at a path then is
what was there, or what the store holds if this is its file; another path to that file must not have
been read as anything else. -/
theorem persist_of_success {s : Store} (h : (s.persist t).2.2 = none) :
    (s.persist t).1 = s.cleaned ∧
    ∀ p bytes, t.read p = .ok bytes ∨
        s.path = some p ∧ s.dirty = true ∧ bytes = ⟨(Text.bytes s.text).toArray⟩ →
      (s.dirty = true → ∀ q, s.path = some q → q.location = p.location →
        bytes = ⟨(Text.bytes s.text).toArray⟩) →
      (s.persist t).2.1.read p = .ok bytes := by
  rcases persist_outcome s t with ⟨t', failure, outcome, dirs, clean⟩ |
    ⟨q, t₁, t', path, dirty, dirs, written, outcome⟩
  · rw [outcome] at h ⊢
    obtain rfl : failure = none := h
    obtain ⟨path, entries, dirty⟩ := s
    refine ⟨by rcases clean rfl with rfl | rfl <;> simp [cleaned], ?_⟩
    rintro p bytes (read | ⟨rfl, rfl, -⟩) -
    · exact dirs.read read
    · exact absurd (clean rfl) nofun
  · rw [outcome]
    refine ⟨by simp [cleaned, path], ?_⟩
    rintro p bytes before alone
    rcases before with read | ⟨own, -, rfl⟩
    · rw [FileTree.read_write_of_read written (dirs.read read)]
      split
      next here => rw [alone dirty q path here.symm]
      next => rfl
    · obtain rfl := Option.some.inj (own.symm.trans path)
      exact FileTree.read_write written

section

variable {s : Store} {t₁ : FileTree} {loc : Location}

/-- A store with a text of ASCII characters is written if its directories can be made and its file
is not one of them. -/
theorem persist_of_ascii (ascii : s.text.Ascii) (path : s.path = some p) (dirty : s.dirty = true)
    (dirs : t.makeDirs p.parent = (t₁, none)) (located : t₁.locate p = .ok loc)
    (free : t₁.isDirAt loc = false) (parent : t₁.isDirAt loc.dropLast) :
    s.persist t = ({ s with dirty := false }, { t₁ with
      files := FileTree.putAt t₁.files loc ⟨(Text.bytes s.text).toArray⟩ }, none) := by
  have fault : encodeFault? s.text = none :=
    encodeFault?_eq_none_iff.mpr fun c hc => CodePoint.isHalf_of_isAscii (ascii c hc)
  simp [persist, path, dirty, dirs, FileTree.writeText, encodeUtf8, fault, FileTree.write,
    located, free, parent, Except.mapError, bind, Except.bind, pure, Except.pure]

theorem failure_persist_of_ascii (ascii : s.text.Ascii) (path : s.path = some p)
    (dirs : t.makeDirs p.parent = (t₁, none)) (located : t₁.locate p = .ok loc)
    (free : t₁.isDirAt loc = false) (parent : t₁.isDirAt loc.dropLast) :
    (s.persist t).2.2 = none := by
  cases dirty : s.dirty with
  | false => simp [persist, path, dirty]
  | true => rw [persist_of_ascii ascii path dirty dirs located free parent]

theorem Sound.failure_persist (sound : Sound Right s.entries) (path : s.path = some p)
    (dirs : t.makeDirs p.parent = (t₁, none)) (located : t₁.locate p = .ok loc)
    (free : t₁.isDirAt loc = false) (parent : t₁.isDirAt loc.dropLast) :
    (s.persist t).2.2 = none :=
  failure_persist_of_ascii sound.ascii_text path dirs located free parent

end

/-- What writing a store leaves of it, and which file it touches. -/
theorem persist_cases (s : Store) (t : FileTree) :
    (s.persist t).1.entries = s.entries ∧ (s.persist t).1.path = s.path ∧
    ∀ loc, (s.persist t).2.1.bytesAt? loc = t.bytesAt? loc ∨
      ∃ p, s.path = some p ∧ loc = p.location ∧
        (s.persist t).2.1.bytesAt? loc = some ⟨(Text.bytes s.text).toArray⟩ := by
  rcases persist_outcome s t with ⟨t', failure, outcome, dirs, -⟩ |
    ⟨p, t₁, t', path, -, dirs, written, outcome⟩
  · rw [outcome]
    exact ⟨rfl, rfl, fun loc => .inl (dirs.bytesAt? loc)⟩
  · rw [outcome]
    refine ⟨rfl, rfl, fun loc => ?_⟩
    have bytes := FileTree.bytesAt?_write written loc
    by_cases here : loc = p.location
    · rw [if_pos here] at bytes
      exact .inr ⟨p, path, here, bytes⟩
    · rw [if_neg here] at bytes
      exact .inl (bytes.trans (dirs.bytesAt? loc))

/-- **Writing a store keeps the files of sound stores.** It must be sound for what its own file is
to keep. -/
theorem keeps_persist {s : Store} {loc : Location} (keeps : t.Keeps loc Right)
    (sound : ∀ p, s.path = some p → p.location = loc → Sound Right s.entries) :
    (s.persist t).2.1.Keeps loc Right := by
  rcases (persist_cases s t).2.2 loc with same | ⟨p, path, here, written⟩
  · exact keeps.of_bytesAt?_eq same
  · intro bytes found
    rw [written] at found
    exact ⟨s, sound p path here.symm, (Option.some.inj found).symm⟩

end Store

end Componentry
