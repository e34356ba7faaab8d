import Componentry.Files.Tree
import Componentry.Proofs.Files.Bytes

/-!
# Locations of paths

Where a path leads does not depend on the files, as long as it leads anywhere: every name on the way
takes one step down, and `..` one step up. So a file that is written is found again by every path of
the same location, and no other file is touched.
-/

namespace Componentry

/-! ## Names -/

namespace Text

/-- Can the text be part of a name that is looked up? -/
def Nameable (s : Text) : Prop := nameFault? s = none ∧ s.has '\x00' = false

instance (s : Text) : Decidable s.Nameable :=
  inferInstanceAs (Decidable (nameFault? s = none ∧ s.has '\x00' = false))

/-- The code points that may stand in a name that is looked up. -/
theorem nameable_iff {s : Text} :
    s.Nameable ↔ ∀ c ∈ s, (!c.isHalf || (rawByte? c).isSome) = true ∧ c ≠ .char '\x00' := by
  have null : s.has '\x00' = false ↔ ∀ c ∈ s, c ≠ .char '\x00' := by
    rw [has, ← Bool.not_eq_true, List.elem_iff]
    constructor
    · rintro h c hc rfl
      exact h hc
    · intro h hc
      exact h _ hc rfl
  rw [Nameable, nameFault?_eq_none_iff, null]
  exact ⟨fun h c hc => ⟨h.1 c hc, h.2 c hc⟩, fun h => ⟨fun c hc => (h c hc).1, fun c hc => (h c hc).2⟩⟩

theorem nameable_append {a b : Text} : (a ++ b).Nameable ↔ a.Nameable ∧ b.Nameable := by
  simp only [nameable_iff, List.mem_append]
  exact ⟨fun h => ⟨fun c hc => h c (.inl hc), fun c hc => h c (.inr hc)⟩,
    fun h c hc => hc.elim (h.1 c) (h.2 c)⟩

theorem forall_mem_join {P : CodePoint → Prop} {sep : Text} (hs : ∀ c ∈ sep, P c)
    {pieces : List Text} : (∀ c ∈ join sep pieces, P c) ↔ ∀ piece ∈ pieces, ∀ c ∈ piece, P c := by
  induction pieces with
  | nil => simp [join]
  | cons piece rest ih =>
    cases rest with
    | nil => simp [join]
    | cons next rest =>
      rw [join, List.forall_mem_cons, ← ih]
      · simp only [List.mem_append, or_imp, forall_and]
        exact ⟨fun h => ⟨h.1.1, h.2⟩, fun h => ⟨⟨h.1, hs⟩, h.2⟩⟩
      · simp

end Text

namespace Path

/-- Can every name of the path be looked up? -/
def Nameable (p : Path) : Prop := ∀ n ∈ p.names, n.Nameable

instance (p : Path) : Decidable p.Nameable :=
  inferInstanceAs (Decidable (∀ n ∈ p.names, n.Nameable))

/-- A path has a fault if and only if one of its names has. -/
theorem nameFault?_toText_eq_none_iff {p : Path} :
    nameFault? p.toText = none ↔ ∀ n ∈ p.names, nameFault? n = none := by
  simp only [nameFault?_eq_none_iff]
  have slash : ∀ c ∈ Text.ofString "/", (!c.isHalf || (rawByte? c).isSome) = true := by decide
  have slashes : ∀ c ∈ Text.ofString "//", (!c.isHalf || (rawByte? c).isSome) = true := by decide
  rw [← Text.forall_mem_join slash]
  obtain ⟨absolute, names, doubled⟩ := p
  cases absolute with
  | true =>
    simp only [toText, List.mem_append, or_imp, forall_and]
    refine ⟨fun h => h.2, fun h => ⟨?_, h⟩⟩
    cases doubled
    · exact slash
    · exact slashes
  | false =>
    cases names with
    | nil =>
      refine ⟨fun _ => by simp [Text.join], fun _ => ?_⟩
      exact (by decide : ∀ c ∈ Text.ofString ".", (!c.isHalf || (rawByte? c).isSome) = true)
    | cons n rest => rfl

theorem hasNull_eq_false_iff {p : Path} :
    p.hasNull = false ↔ ∀ n ∈ p.names, Text.has n '\x00' = false := by
  rw [hasNull, List.any_eq_false]
  simp only [Bool.not_eq_true]

theorem nameable_iff {p : Path} : p.Nameable ↔ nameFault? p.toText = none ∧ p.hasNull = false := by
  rw [nameFault?_toText_eq_none_iff, hasNull_eq_false_iff]
  exact ⟨fun h => ⟨fun n hn => (h n hn).1, fun n hn => (h n hn).2⟩,
    fun h n hn => ⟨h.1 n hn, h.2 n hn⟩⟩

theorem Nameable.parent {p : Path} (h : p.Nameable) : p.parent.Nameable :=
  fun n hn => h n ((List.dropLast_sublist _).mem hn)

/-! ## Locations -/

/-- One name further from a location. -/
def further (loc : Location) (n : Text) : Location :=
  if n = ".." then loc.dropLast else loc ++ [storedName n]

/-- Where the path leads, if it leads anywhere. -/
def location (p : Path) : Location := p.names.foldl further []

/-- A path whose last name is an ordinary one leads to a place of that name. -/
theorem location_of_names {p q : Path} {n : Text} (h : p.names = q.names ++ [n]) (up : n ≠ "..") :
    p.location = q.location ++ [storedName n] := by
  rw [location, h, List.foldl_append, List.foldl_cons, List.foldl_nil, further, if_neg up]
  rfl

end Path

namespace FileTree

theorem walk_eq_ok {t : FileTree} {shown : Text} {loc end_ : Location} {names : List Text}
    (h : t.walk shown loc names = .ok end_) : end_ = names.foldl Path.further loc := by
  induction names generalizing loc with
  | nil => exact (Except.ok.inj h).symm
  | cons n rest ih =>
    rw [walk] at h
    split at h
    · split at h
      · cases h
      · exact ih h
    · split at h <;> cases h

theorem locate_eq_ok {t : FileTree} {p : Path} {loc : Location} (h : t.locate p = .ok loc) :
    loc = p.location := by
  rw [locate] at h
  split at h
  · cases h
  · split at h
    · cases h
    · split at h
      · cases h
      · exact walk_eq_ok h

/-! ## Reading -/

/-- What is read at a path are the bytes at its location, if the path leads there. -/
theorem read_eq_ok_iff {t : FileTree} {p : Path} {bytes : ByteArray} :
    t.read p = .ok bytes ↔ t.locate p = .ok p.location ∧ t.bytesAt? p.location = some bytes := by
  rw [read]
  cases located : t.locate p with
  | error e => simp [bind, Except.bind]
  | ok loc =>
    rw [← locate_eq_ok located]
    cases found : t.bytesAt? loc <;> simp [bind, Except.bind, pure, Except.pure, found]

/-- The same files, and all directories that were there. -/
structure Extends (t' t : FileTree) : Prop where
  files : t'.files = t.files
  isDirAt : ∀ loc, t.isDirAt loc → t'.isDirAt loc

theorem Extends.refl (t : FileTree) : t.Extends t := ⟨rfl, fun _ h => h⟩

theorem Extends.bytesAt? {t' t : FileTree} (h : t'.Extends t) (loc : Location) :
    t'.bytesAt? loc = t.bytesAt? loc := by
  rw [FileTree.bytesAt?, h.files, FileTree.bytesAt?]

theorem walk_of_isDirAt {t t' : FileTree} (dirs : ∀ loc, t.isDirAt loc → t'.isDirAt loc)
    {shown : Text} {loc end_ : Location} {names : List Text}
    (h : t.walk shown loc names = .ok end_) : t'.walk shown loc names = .ok end_ := by
  induction names generalizing loc with
  | nil => exact h
  | cons n rest ih =>
    rw [walk] at h ⊢
    split at h
    next dir =>
      rw [if_pos (dirs loc dir)]
      split at h
      next => cases h
      next short => rw [if_neg short]; exact ih h
    next => split at h <;> cases h

/-- A path that leads somewhere still does so when there are more directories. -/
theorem locate_of_isDirAt {t t' : FileTree} (dirs : ∀ loc, t.isDirAt loc → t'.isDirAt loc)
    {p : Path} {loc : Location} (h : t.locate p = .ok loc) : t'.locate p = .ok loc := by
  rw [locate] at h ⊢
  split at h
  · cases h
  · split at h
    · cases h
    · split at h
      · cases h
      next fault null long =>
        simp only [null, if_neg long]
        exact walk_of_isDirAt dirs h

theorem Extends.read {t' t : FileTree} (h : t'.Extends t) {p : Path} {bytes : ByteArray}
    (read : t.read p = .ok bytes) : t'.read p = .ok bytes := by
  rw [read_eq_ok_iff] at read ⊢
  exact ⟨locate_of_isDirAt h.isDirAt read.1, (h.bytesAt? _).trans read.2⟩

/-! ## Writing -/

theorem bytesAt?_putAt (t : FileTree) (loc other : Location) (bytes : ByteArray) :
    bytesAt? { t with files := putAt t.files loc bytes } other =
      if other = loc then some bytes else t.bytesAt? other := by
  obtain ⟨dirs, files⟩ := t
  simp only [bytesAt?]
  induction files with
  | nil =>
    by_cases h : other = loc
    · subst h; simp [putAt]
    · simp [putAt, h, Ne.symm h]
  | cons f rest ih =>
    obtain ⟨l, b⟩ := f
    rw [putAt]
    by_cases here : l = loc
    · subst here
      by_cases h : other = l
      · subst h; simp
      · simp [h, Ne.symm h]
    · by_cases h : l = other
      · subst h; simp [here]
      · have skip : (l == other) = false := beq_eq_false_iff_ne.mpr h
        rw [if_neg here, List.find?_cons, skip, List.find?_cons, skip]
        exact ih

/-- A file that is written is there, and every other file is as it was. -/
theorem bytesAt?_write {t t' : FileTree} {p : Path} {bytes : ByteArray}
    (h : t.write p bytes = .ok t') (loc : Location) :
    t'.bytesAt? loc = if loc = p.location then some bytes else t.bytesAt? loc := by
  rw [write] at h
  cases located : t.locate p with
  | error e => simp [located, bind, Except.bind] at h
  | ok end_ =>
    rw [← locate_eq_ok located, ← bytesAt?_putAt]
    simp only [located, bind, Except.bind] at h
    split at h
    · cases h
    · split at h
      · rw [← Except.ok.inj h]
      · split at h <;> cases h

/-- What a file is written among leads to where it led, and so does the path of the file. -/
theorem locate_write {t t' : FileTree} {q : Path} {bytes : ByteArray} (h : t.write q bytes = .ok t') :
    t'.locate q = .ok q.location ∧
      ∀ p : Path, t.locate p = .ok p.location → t'.locate p = .ok p.location := by
  rw [write] at h
  cases located : t.locate q with
  | error e => simp [located, bind, Except.bind] at h
  | ok end_ =>
    rw [locate_eq_ok located] at located
    simp only [located, bind, Except.bind] at h
    split at h
    · cases h
    · split at h
      · cases h
        -- the directories are the same, and a path depends on nothing else
        have stays (p : Path) (before : t.locate p = .ok p.location) :
            locate { t with files := putAt t.files q.location bytes } p = .ok p.location := by
          refine locate_of_isDirAt ?_ before
          exact fun _ dir => dir
        exact ⟨stays q located, stays⟩
      · split at h <;> cases h

/-- A file that is written is read again. -/
theorem read_write {t t' : FileTree} {p : Path} {bytes : ByteArray}
    (h : t.write p bytes = .ok t') : t'.read p = .ok bytes :=
  read_eq_ok_iff.mpr ⟨(locate_write h).1, by rw [bytesAt?_write h, if_pos rfl]⟩

/-- Of a file that could be read, what is read is what was written at its place, or what was there. -/
theorem read_write_of_read {t t' : FileTree} {p q : Path} {bytes found : ByteArray}
    (h : t.write q bytes = .ok t') (read : t.read p = .ok found) :
    t'.read p = .ok (if p.location = q.location then bytes else found) := by
  rw [read_eq_ok_iff] at read ⊢
  refine ⟨(locate_write h).2 p read.1, ?_⟩
  rw [bytesAt?_write h, read.2]
  split <;> rfl

/-- Every text that is written has bytes. -/
theorem write_of_writeText {t t' : FileTree} {p : Path} {s : Text}
    (h : t.writeText p s = .ok t') : t.write p ⟨(Text.bytes s).toArray⟩ = .ok t' := by
  rw [writeText, encodeUtf8] at h
  cases fault : encodeFault? s with
  | some e => simp [fault, Except.mapError, bind, Except.bind] at h
  | none => simpa only [fault, Except.mapError, bind, Except.bind] using h

theorem extends_makeFrom (t : FileTree) (p : Path) (made : Bool) (walked : List Text)
    (loc : Location) (names : List Text) : (t.makeFrom p made walked loc names).1.Extends t := by
  induction names generalizing t made walked loc with
  | nil => exact .refl t
  | cons n rest ih =>
    simp only [makeFrom]
    split
    · exact ih ..
    · split
      · exact .refl t
      · split
        · exact ih ..
        · split
          · exact .refl t
          · have more := ih { t with dirs := t.dirs ++ [loc ++ [storedName n]] } true
              (walked ++ [n]) (loc ++ [storedName n])
            refine ⟨more.files, fun other dir => more.isDirAt other ?_⟩
            simp only [isDirAt, Bool.or_eq_true, List.contains_eq_mem, List.mem_append,
              decide_eq_true_eq] at dir ⊢
            exact dir.imp id .inl

/-- Making directories touches no file. -/
theorem extends_makeDirs (t : FileTree) (p : Path) : (t.makeDirs p).1.Extends t := by
  rw [makeDirs]
  split
  · exact .refl t
  · split
    · exact .refl t
    · split
      · exact .refl t
      · exact extends_makeFrom ..

end FileTree

end Componentry
