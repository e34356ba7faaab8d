import Componentry.Proofs.Cache.Sessions
import Componentry.Proofs.Pipeline.Partition

/-!
# Partitions and their files

A partition's store is opened from a file and written to it later on. While it is open it has all
that its file has, and as long as nothing was put since it was written, its file has all that it
has. So files never lose a key, whichever partitions are written, as long as no two of them are
different spellings of one place.
-/

namespace Componentry

/-! ## Keys of stores and files -/

namespace Store

/-- Is there a payload for `key`? -/
def has (s : Store) (key : Text) : Bool := (s.get? key).isSome

/-- The entries that the bytes of a file keep. -/
def entriesIn (bytes : ByteArray) : Json.Fields :=
  match decodeFile bytes with
  | .error _ => []
  | .ok text =>
    match Json.parse text with
    | .ok data => entriesOf data
    | .error _ => []

theorem Sound.entriesIn_text {Right : Text → Json → Prop} {s : Store} (h : Sound Right s.entries) :
    entriesIn ⟨(Text.bytes s.text).toArray⟩ = Json.sortFields (Json.sortedFields s.entries) := by
  simp only [entriesIn, h.decodeFile_text, h.parse_text, h.entriesOf_contents]

theorem has_put (s : Store) (key stamp : Text) (fields : Json.Fields) (name : Text) :
    (s.put key (.obj fields) stamp).has name = (decide (key = name) || s.has name) := by
  rw [has, get?_put]
  by_cases same : key = name
  · simp [same]
  · simp [same, has]

theorem has_congr {s s' : Store} (h : s.entries = s'.entries) (key : Text) :
    s.has key = s'.has key := by
  rw [has, get?, h, has, get?]

end Store

namespace FileTree

/-- Does the file at `loc` keep a payload for `key`? -/
def holds (t : FileTree) (loc : Location) (key : Text) : Bool :=
  (t.bytesAt? loc).any fun bytes => Store.has { entries := Store.entriesIn bytes } key

theorem holds_congr {t t' : FileTree} {loc : Location} (same : t'.bytesAt? loc = t.bytesAt? loc)
    (key : Text) : t'.holds loc key = t.holds loc key := by
  rw [holds, same, holds]

/-- The file of a store has the keys of the store. -/
theorem holds_of_text {Right : Text → Json → Prop} {t : FileTree} {loc : Location} {s : Store}
    (sound : Store.Sound Right s.entries)
    (bytes : t.bytesAt? loc = some ⟨(Text.bytes s.text).toArray⟩) (key : Text) :
    t.holds loc key = s.has key := by
  rw [holds, bytes, Option.any_some, sound.entriesIn_text, Store.has, sound.get?_sorted, Store.has,
    Option.isSome_map]

/-- Does the path lead to the file at its location, if there is one? -/
def Reaches (t : FileTree) (p : Path) : Prop :=
  ∀ bytes, t.bytesAt? p.location = some bytes → t.read p = .ok bytes

theorem Reaches.of_extends {t t' : FileTree} {p : Path} (h : t.Reaches p) (dirs : t'.Extends t) :
    t'.Reaches p :=
  fun bytes found => dirs.read (h bytes (dirs.bytesAt? _ ▸ found))

/-- A file that is written leaves the way to other files as it was. -/
theorem Reaches.write {t t' : FileTree} {p q : Path} {bytes : ByteArray} (h : t.Reaches p)
    (written : t.write q bytes = .ok t') (own : q.location = p.location → q = p) : t'.Reaches p := by
  intro found hfound
  rw [bytesAt?_write written] at hfound
  by_cases here : p.location = q.location
  · rw [if_pos here] at hfound
    obtain rfl := own here.symm
    rw [read_write written, Option.some.inj hfound]
  · rw [if_neg here] at hfound
    rw [read_write_of_read written (h found hfound), if_neg here]

end FileTree

/-! ## Stores and their files -/

namespace Store

/-- A store that is open beside its file at `p`. -/
structure Backed (t : FileTree) (p : Path) (s : Store) : Prop where
  path : s.path = some p
  sound : Sound (fun _ _ => True) s.entries
  covers : ∀ key, t.holds p.location key → s.has key
  clean : s.dirty = false → ∀ key, s.has key → t.holds p.location key

namespace Backed

variable {t t' : FileTree} {p : Path} {s : Store}

theorem of_bytesAt?_eq (h : s.Backed t p) (same : t'.bytesAt? p.location = t.bytesAt? p.location) :
    s.Backed t' p where
  path := h.path
  sound := h.sound
  covers key found := h.covers key (FileTree.holds_congr same key ▸ found)
  clean saved key found := FileTree.holds_congr same key ▸ h.clean saved key found

theorem put (h : s.Backed t p) {key stamp : Text} {fields : Json.Fields}
    (sound : Sound (fun _ _ => True) (s.put key (.obj fields) stamp).entries) :
    (s.put key (.obj fields) stamp).Backed t p where
  path := h.path
  sound := sound
  covers name found := by
    rw [has_put, h.covers name found, Bool.or_true]
  clean := nofun

/-- A store that was just opened has what its file has. -/
theorem opened {Right : Text → Json → Prop} (keeps : t.Keeps p.location Right)
    (reaches : t.Reaches p) (h : Store.opened t p = .ok s) : s.Backed t p := by
  have named : p.Nameable := nameable_of_opened h
  cases found : t.bytesAt? p.location with
  | none =>
    have stores : t.Stores p {} := ⟨.nil, .inr ⟨found, rfl⟩⟩
    obtain ⟨s', opened, path, -, sound, get?⟩ := stores.exists_opened named
    obtain rfl : s' = s := Except.ok.inj (opened.symm.trans h)
    have none_ (key : Text) : s'.has key = false := by rw [has, get?]; rfl
    have empty (key : Text) : t.holds p.location key = false := by rw [FileTree.holds, found]; rfl
    exact ⟨path, sound, fun key => by simp [empty], fun _ key => by simp [none_]⟩
  | some bytes =>
    obtain ⟨written, right, rfl⟩ := keeps bytes found
    have stores : t.Stores p written := ⟨right.mono fun _ _ _ => trivial, .inl (reaches _ found)⟩
    obtain ⟨s', opened, path, -, sound, get?⟩ := stores.exists_opened named
    obtain rfl : s' = s := Except.ok.inj (opened.symm.trans h)
    have same (key : Text) : t.holds p.location key = s'.has key := by
      rw [FileTree.holds_of_text right found, has, has, get?, Option.isSome_map]
    exact ⟨path, sound, fun key found => same key ▸ found, fun _ key found => same key ▸ found⟩

/-- **Writing keeps a store backed.** -/
theorem persist (h : s.Backed t p) : (s.persist t).1.Backed (s.persist t).2.1 p := by
  rcases persist_outcome s t with ⟨t', failure, outcome, dirs, -⟩ |
    ⟨q, t₁, t', path, -, dirs, written, outcome⟩
  · rw [outcome]
    exact h.of_bytesAt?_eq (dirs.bytesAt? _)
  · obtain rfl : q = p := Option.some.inj (path.symm.trans h.path)
    have bytes := FileTree.bytesAt?_write written q.location
    rw [if_pos rfl] at bytes
    have same := FileTree.holds_of_text h.sound bytes
    rw [outcome]
    refine ⟨path, h.sound, fun key found => ?_, fun _ key found => ?_⟩
    · exact (same key).symm.trans found
    · exact (same key).trans found

/-- **Writing a store takes no key from any file.** -/
theorem holds_persist (h : s.Backed t p) {loc : Location} {key : Text} (found : t.holds loc key) :
    (s.persist t).2.1.holds loc key := by
  rcases (persist_cases s t).2.2 loc with same | ⟨q, path, rfl, written⟩
  · rwa [FileTree.holds_congr same]
  · obtain rfl : q = p := Option.some.inj (path.symm.trans h.path)
    rw [FileTree.holds_of_text h.sound written]
    exact h.covers key found

end Backed

theorem reaches_persist {s : Store} {t : FileTree} {p : Path} (h : t.Reaches p)
    (own : ∀ q, s.path = some q → q.location = p.location → q = p) :
    (s.persist t).2.1.Reaches p := by
  rcases persist_outcome s t with ⟨t', failure, outcome, dirs, -⟩ |
    ⟨q, t₁, t', path, -, dirs, written, outcome⟩
  · rw [outcome]
    exact h.of_extends dirs
  · rw [outcome]
    exact (h.of_extends dirs).write written (own q path)

end Store

/-! ## All partitions in use -/

namespace Partitions

variable {t : FileTree} {ps : Partitions} {stores : List (Path × Store)}

/-- The place of a partition's file. -/
def place (d : Path) : Location := (d.child "cache.json").location

/-- Are the open stores backed by files at different places? -/
structure Backed (t : FileTree) (ps : Partitions) : Prop where
  stores : ∀ f ∈ ps.stores, f.2.Backed t (f.1.child "cache.json")
  apart : (ps.stores.map fun f => place f.1).Nodup

theorem Backed.moved (cache : Option Path) : Backed t (.moved cache) where
  stores := by rintro f ⟨⟩
  apart := .nil

theorem map_fst_persistAll (t : FileTree) (stores : List (Path × Store)) :
    (persistAll t stores).1.map Prod.fst = stores.map Prod.fst := by
  induction stores generalizing t with
  | nil => rfl
  | cons f rest ih =>
    obtain ⟨d, s⟩ := f
    rw [persistAll]
    rcases s.persist t with ⟨s', t', failure⟩
    cases failure with
    | some e => rfl
    | none => exact congrArg (d :: ·) (ih t')

/-- Writing touches no file but those of the stores. -/
theorem bytesAt?_persistAll {loc : Location}
    (other : ∀ f ∈ stores, ∀ p, f.2.path = some p → p.location ≠ loc) :
    (persistAll t stores).2.1.bytesAt? loc = t.bytesAt? loc := by
  induction stores generalizing t with
  | nil => rfl
  | cons f rest ih =>
    obtain ⟨d, s⟩ := f
    have first : (s.persist t).2.1.bytesAt? loc = t.bytesAt? loc := by
      rcases (s.persist_cases t).2.2 loc with same | ⟨p, path, here, -⟩
      · exact same
      · exact absurd here.symm (other (d, s) (List.mem_cons_self ..) p path)
    rw [persistAll]
    rcases hp : s.persist t with ⟨s', t', failure⟩
    rw [hp] at first
    cases failure with
    | some e => exact first
    | none => exact (ih fun f hf => other f (List.mem_cons_of_mem _ hf)).trans first

/-- **Writing all stores keeps them backed, and takes no key from any file.** -/
theorem backed_persistAll (backed : ∀ f ∈ stores, f.2.Backed t (f.1.child "cache.json"))
    (apart : (stores.map fun f => place f.1).Nodup) :
    (∀ f ∈ (persistAll t stores).1, f.2.Backed (persistAll t stores).2.1 (f.1.child "cache.json")) ∧
      ∀ loc key, t.holds loc key → (persistAll t stores).2.1.holds loc key := by
  induction stores generalizing t with
  | nil => exact ⟨by rintro f ⟨⟩, fun _ _ found => found⟩
  | cons f rest ih =>
    obtain ⟨d, s⟩ := f
    rw [List.map_cons, List.nodup_cons] at apart
    have other : ∀ f ∈ rest, place d ≠ place f.1 := fun f hf same =>
      apart.1 (List.mem_map.mpr ⟨f, hf, same.symm⟩)
    have own := backed (d, s) (List.mem_cons_self ..)
    have first := own.persist
    -- the files of the other stores are where they were
    have others : ∀ f ∈ rest, f.2.Backed (s.persist t).2.1 (f.1.child "cache.json") := by
      intro f hf
      refine (backed f (List.mem_cons_of_mem _ hf)).of_bytesAt?_eq ?_
      rcases (s.persist_cases t).2.2 (f.1.child "cache.json").location with same | ⟨p, path, here, -⟩
      · exact same
      · obtain rfl : p = d.child "cache.json" := Option.some.inj (path.symm.trans own.path)
        exact absurd here.symm (other f hf)
    have more : ∀ loc key, t.holds loc key → (s.persist t).2.1.holds loc key :=
      fun _ _ => own.holds_persist
    rw [persistAll]
    rcases hp : s.persist t with ⟨s', t', failure⟩
    rw [hp] at first others more
    cases failure with
    | some e =>
      refine ⟨fun f hf => ?_, more⟩
      rcases List.mem_cons.mp hf with rfl | hf
      · exact first
      · exact others f hf
    | none =>
      obtain ⟨rest', more'⟩ := ih others apart.2
      refine ⟨fun f hf => ?_, fun loc key found => more' loc key (more loc key found)⟩
      rcases List.mem_cons.mp hf with rfl | hf
      · refine first.of_bytesAt?_eq (bytesAt?_persistAll fun f hf p path => ?_)
        obtain rfl : p = f.1.child "cache.json" :=
          Option.some.inj (path.symm.trans (backed f (List.mem_cons_of_mem _ hf)).path)
        exact (other f hf).symm
      · exact rest' f hf

theorem Backed.persist (h : ps.Backed t) : (ps.persist t).1.Backed (ps.persist t).2.1 where
  stores := (backed_persistAll h.stores h.apart).1
  apart := by
    have places (stores : List (Path × Store)) :
        (stores.map fun f => place f.1) = (stores.map Prod.fst).map place := by
      rw [List.map_map]
      rfl
    have apart := h.apart
    rw [places, ← map_fst_persistAll t, ← places] at apart
    exact apart

theorem Backed.holds_persist (h : ps.Backed t) {loc : Location} {key : Text} (found : t.holds loc key) :
    (ps.persist t).2.1.holds loc key :=
  (backed_persistAll h.stores h.apart).2 loc key found

theorem reaches_persistAll {p : Path} (h : t.Reaches p)
    (own : ∀ f ∈ stores, ∀ q, f.2.path = some q → q.location = p.location → q = p) :
    (persistAll t stores).2.1.Reaches p := by
  induction stores generalizing t with
  | nil => exact h
  | cons f rest ih =>
    obtain ⟨d, s⟩ := f
    have first := Store.reaches_persist h (own (d, s) (List.mem_cons_self ..))
    rw [persistAll]
    rcases hp : s.persist t with ⟨s', t', failure⟩
    rw [hp] at first
    cases failure with
    | some e => exact first
    | none => exact ih first fun f hf => own f (List.mem_cons_of_mem _ hf)

/-! ## Lookups -/

theorem store?_withStore (ps : Partitions) (d e : Path) (s : Store) :
    (ps.withStore d s).store? e = if e = d then some s else ps.store? e := by
  rw [store?, withStore, store?]
  induction ps.stores with
  | nil =>
    by_cases same : e = d
    · simp [setStore, same]
    · simp [setStore, same, Ne.symm same]
  | cons f rest ih =>
    obtain ⟨g, r⟩ := f
    simp only at ih ⊢
    rw [setStore]
    by_cases here : g = d
    · subst here
      by_cases same : e = g
      · simp [same]
      · simp [same, Ne.symm same]
    · by_cases there : g = e
      · subst there
        simp [here]
      · rw [if_neg here, List.find?_cons_of_neg (by simpa using there), ih,
          List.find?_cons_of_neg (by simpa using there)]

theorem mem_withStore (ps : Partitions) (d : Path) (s : Store) : (d, s) ∈ (ps.withStore d s).stores :=
  mem_of_store? (by rw [store?_withStore, if_pos rfl])

theorem store?_persist (ps : Partitions) (t : FileTree) (d : Path) :
    ((ps.persist t).1.store? d).map Store.entries = (ps.store? d).map Store.entries := by
  rw [persist, store?, store?]
  simp only
  induction ps.stores generalizing t with
  | nil => rfl
  | cons f rest ih =>
    obtain ⟨e, s⟩ := f
    have entries := (s.persist_cases t).1
    rw [persistAll]
    rcases hp : s.persist t with ⟨s', t', failure⟩
    rw [hp] at entries
    by_cases here : e = d
    · cases failure <;> simpa [here] using entries
    · cases failure with
      | some e => simp [here]
      | none => simpa [here] using ih t'

/-- Has the open store of a partition a payload for `key`? -/
def knows (ps : Partitions) (d : Path) (key : Text) : Bool := (ps.store? d).any (Store.has · key)

theorem knows_persist (ps : Partitions) (t : FileTree) (d : Path) (key : Text) :
    (ps.persist t).1.knows d key = ps.knows d key := by
  have entries := store?_persist ps t d
  rw [knows, knows]
  cases old : ps.store? d <;> cases new : (ps.persist t).1.store? d <;> simp [old, new] at entries
  · rfl
  · exact Store.has_congr entries key

theorem nodup_setStore {d : Path} (s : Store) (apart : (stores.map fun f => place f.1).Nodup)
    (own : ∀ f ∈ stores, place f.1 = place d → f.1 = d) :
    ((setStore stores d s).map fun f => place f.1).Nodup := by
  induction stores with
  | nil => exact List.nodup_singleton _
  | cons g rest ih =>
    obtain ⟨e, r⟩ := g
    rw [setStore]
    by_cases here : e = d
    · rw [if_pos here]
      exact apart
    · rw [List.map_cons, List.nodup_cons] at apart
      rw [if_neg here, List.map_cons, List.nodup_cons]
      refine ⟨fun found => ?_, ih apart.2 fun f hf => own f (List.mem_cons_of_mem _ hf)⟩
      obtain ⟨f, hf, same⟩ := List.mem_map.mp found
      rcases mem_setStore hf with rfl | hf
      · exact here (own (e, r) (List.mem_cons_self ..) same.symm)
      · exact apart.1 (List.mem_map.mpr ⟨f, hf, same⟩)

/-- A store may be opened or changed, if no other is at the place of its file. -/
theorem Backed.withStore {d : Path} {s : Store} (h : ps.Backed t)
    (backed : s.Backed t (d.child "cache.json"))
    (own : ∀ f ∈ ps.stores, place f.1 = place d → f.1 = d) : (ps.withStore d s).Backed t where
  stores := by
    intro f hf
    rcases mem_setStore hf with rfl | hf
    · exact backed
    · exact h.stores f hf
  apart := nodup_setStore s h.apart own

/-- A store that is open may be changed. -/
theorem Backed.change (h : ps.Backed t) {d : Path} {s s' : Store} (mem : (d, s) ∈ ps.stores)
    (backed : s'.Backed t (d.child "cache.json")) : (ps.withStore d s').Backed t := by
  refine h.withStore backed fun f hf same => ?_
  exact congrArg Prod.fst (List.inj_on_of_nodup_map h.apart hf mem same)

end Partitions

end Componentry
