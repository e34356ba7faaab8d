import Componentry.Proofs.Cache.Payload
import Componentry.Proofs.Json.Canonical

/-!
# Stores across sessions

A store lives through sessions: it is opened from its file, payloads are put and looked up, its file
is written now and then, and at a restart it is opened anew. A lookup then gives the payload that
was put last, but a restart forgets what was put after the file was last written. So `latest?` looks
back over what was asked, and skips from a restart to the writing before it.

A file keeps texts up to halves that make a pair: these are read as the character that they make.
-/

namespace Componentry

namespace Store

/-! ## Lookups -/

section

variable {s : Store} {key stamp : Text} {payload : Json}

theorem get?_put {fields : Json.Fields} (name : Text) :
    (s.put key (.obj fields) stamp).get? name =
      if key = name then some (.obj fields) else s.get? name := by
  by_cases same : key = name
  · simp only [get?, put, Json.Fields.get?_set, if_pos same]
    rfl
  · simp only [get?, put, Json.Fields.get?_set, if_neg same]

/-- Sorting the entries and their fields sorts what is looked up. -/
theorem Sound.get?_sorted {Right : Text → Json → Prop} (h : Sound Right s.entries)
    {path : Option Path} {dirty : Bool} (name : Text) :
    get? ⟨path, Json.sortFields (Json.sortedFields s.entries), dirty⟩ name =
      (s.get? name).map Json.sorted := by
  have entries : Json.Fields.get? name (Json.sortFields (Json.sortedFields s.entries)) =
      (Json.Fields.get? name s.entries).map Json.sorted := by
    rw [Json.get?_perm (Json.sortFields_perm _) h.sorted.nodup, Json.get?_sortedFields]
  rw [get?, entries, get?]
  cases look : Json.Fields.get? name s.entries with
  | none => rfl
  | some raw =>
    obtain ⟨kept, time, shape, -, -, ⟨⟨fields, rfl⟩, -⟩, -⟩ :=
      h.exists_entry _ ((Json.get?_eq_some_iff h.nodup).mp look)
    simp only at shape
    subst shape
    simp only [Option.map_some, sorted_entry]
    rfl

end

/-! ## Requests -/

/-- What can be asked of a store. -/
inductive Request where
  | put (key : Text) (payload : Json) (stamp : Text)
  | get (key : Text)
  | persist
  /-- A restart: the store is opened anew from its file. -/
  | reopen

/-- Can what is put be kept? -/
def Request.Fits : Request → Prop
  | .put key payload stamp => key.Whole ∧ stamp.Whole ∧ payload.Keepable
  | _ => True

/-- A store in use, beside the files. -/
structure Session where
  store : Store
  tree : FileTree

namespace Session

/-- The session after one request, and why the request failed, if it did. -/
def step (s : Session) : Request → Session × Option Failure
  | .put key payload stamp => ({ s with store := s.store.put key payload stamp }, none)
  | .get _ => (s, none)
  | .persist =>
    let (store, tree, failure) := s.store.persist s.tree
    (⟨store, tree⟩, failure)
  | .reopen =>
    match s.store.path with
    | none => ({ s with store := {} }, none)
    | some path =>
      match Store.opened s.tree path with
      | .ok store => ({ s with store }, none)
      | .error e => (s, some e)

/-- What was asked, the last request first, each with its failure. -/
abbrev Past := List (Request × Option Failure)

/-- The session after all of `requests`, of which the last stands first. -/
def after (s : Session) : List Request → Session × Past
  | [] => (s, [])
  | r :: earlier =>
    let (s, past) := s.after earlier
    let (s, failure) := s.step r
    (s, (r, failure) :: past)

/-- The payload that counts for `key`, looking back over what was asked; `base` is what counts at
the beginning. What was put does not count if it is `lost`: if there was a restart later on and the
file was not written in between. -/
def latest? (base : Text → Option Json) (key : Text) (lost : Bool) : Past → Option Json
  | [] => base key
  | (.put k payload _, _) :: past =>
    if k = key ∧ lost = false then some payload else latest? base key lost past
  | (.persist, none) :: past => latest? base key false past
  | (.reopen, none) :: past => latest? base key true past
  | _ :: past => latest? base key lost past

end Session

end Store

/-! ## The file -/

/-- Does the file at `p` keep what the store `s` holds? No file keeps an empty store. -/
structure FileTree.Stores (t : FileTree) (p : Path) (s : Store) : Prop where
  sound : Store.Sound (fun _ _ => True) s.entries
  read : t.read p = .ok ⟨(Text.bytes s.text).toArray⟩ ∨
    t.bytesAt? p.location = none ∧ s.entries = []

namespace FileTree.Stores

variable {t t' : FileTree} {p : Path} {s : Store}

theorem of_extends (h : t.Stores p s) (dirs : t'.Extends t) : t'.Stores p s where
  sound := h.sound
  read := h.read.imp dirs.read fun ⟨absent, empty⟩ => ⟨(dirs.bytesAt? _).trans absent, empty⟩

theorem load_eq (h : t.Stores p s) (named : p.Nameable) :
    Store.load t p = .ok (Json.sortFields (Json.sortedFields s.entries)) := by
  rcases h.read with read | ⟨absent, empty⟩
  · exact h.sound.load_of_read read
  · cases read : t.read p with
    | ok bytes => exact absurd (absent.symm.trans (read_eq_ok_iff.mp read).2) nofun
    | error e =>
      rw [Store.load_of_read_error named read, empty]
      simp [Json.sortFields, Json.sortedFields]

/-- A store that is opened holds what its file keeps, sorted. -/
theorem exists_opened (h : t.Stores p s) (named : p.Nameable) :
    ∃ store, Store.opened t p = .ok store ∧ store.path = some p ∧ store.dirty = false ∧
      Store.Sound (fun _ _ => True) store.entries ∧
      ∀ key, store.get? key = (s.get? key).map Json.sorted :=
  ⟨_, by rw [Store.opened, h.load_eq named]; rfl, rfl, rfl, h.sound.sorted,
    fun key => h.sound.get?_sorted key⟩

end FileTree.Stores

namespace Store.Session

/-! ## What a session remembers -/

/-- Equal payloads up to the order of fields, or none on both sides. -/
def Same (a b : Option Json) : Prop := a.map Json.sorted = b.map Json.sorted

theorem same_sorted (a : Option Json) : Same (a.map Json.sorted) a := by
  rw [Same, Option.map_map]
  exact congrArg (Option.map · a) (funext Json.sorted_sorted)

/-- A session of the store at `p` in which `now` can be looked up, and in which `kept` could be
looked up after a restart. -/
structure Remembers (p : Path) (s : Session) (now kept : Text → Option Json) : Prop where
  path : s.store.path = some p
  sound : Sound (fun _ _ => True) s.store.entries
  get? : ∀ key, Same (s.store.get? key) (now key)
  file : ∃ written, s.tree.Stores p written ∧ ∀ key, Same (written.get? key) (kept key)
  clean : s.store.dirty = false → ∀ key, Same (now key) (kept key)

namespace Remembers

variable {p : Path} {s : Session} {now kept : Text → Option Json}

theorem put (h : s.Remembers p now kept) {key stamp : Text} {payload : Json}
    (fits : (Request.put key payload stamp).Fits) :
    (s.step (.put key payload stamp)).1.Remembers p
      (fun k => if key = k then some payload else now k) kept where
  path := h.path
  sound := h.sound.put fits.1 fits.2.1 fits.2.2 trivial
  get? := by
    intro k
    obtain ⟨fields, rfl⟩ := fits.2.2.1
    rw [step, get?_put]
    split
    · rfl
    · exact h.get? k
  file := h.file
  clean := nofun

/-- Writing that succeeds keeps everything; writing that fails keeps what was kept before. -/
theorem persist (h : s.Remembers p now kept) :
    (s.step .persist).1.Remembers p now (if (s.step .persist).2 = none then now else kept) := by
  obtain ⟨written, stores, kept'⟩ := h.file
  rcases persist_outcome s.store s.tree with ⟨t', failure, outcome, dirs, clean⟩ |
    ⟨q, t₁, t', path, -, dirs, write, outcome⟩
  · have stepped : s.step .persist = (⟨s.store, t'⟩, failure) := by rw [step, outcome]
    rw [stepped]
    cases failure with
    | some e =>
      exact ⟨h.path, h.sound, h.get?, ⟨written, stores.of_extends dirs, kept'⟩, h.clean⟩
    | none =>
      -- there was nothing to write, so the file has what is looked up now
      have clean : s.store.dirty = false := (clean rfl).resolve_left (by simp [h.path])
      exact ⟨h.path, h.sound, h.get?, ⟨written, stores.of_extends dirs, fun key =>
        (kept' key).trans (h.clean clean key).symm⟩, fun _ _ => rfl⟩
  · have stepped : s.step .persist = (⟨{ s.store with dirty := false }, t'⟩, none) := by
      rw [step, outcome]
    obtain rfl : q = p := Option.some.inj (path.symm.trans h.path)
    rw [stepped]
    exact ⟨h.path, h.sound, h.get?,
      ⟨s.store, ⟨h.sound, .inl (FileTree.read_write write)⟩, h.get?⟩, fun _ _ => rfl⟩

/-- A restart succeeds, and goes back to what was kept. -/
theorem reopen (h : s.Remembers p now kept) (named : p.Nameable) :
    (s.step .reopen).1.Remembers p kept kept ∧ (s.step .reopen).2 = none := by
  obtain ⟨written, stores, kept'⟩ := h.file
  obtain ⟨store, opened, path, clean, sound, get?⟩ := stores.exists_opened named
  have stepped : s.step .reopen = (⟨store, s.tree⟩, none) := by rw [step, h.path]; simp only [opened]
  rw [stepped]
  refine ⟨⟨path, sound, fun key => ?_, ⟨written, stores, kept'⟩, fun _ _ => rfl⟩, rfl⟩
  rw [get?]
  exact (same_sorted _).trans (kept' key)

end Remembers

/-- Both what is looked up and what a restart would go back to, told from what was asked. -/
def Tracks (p : Path) (base : Text → Option Json) (s : Session) (past : Past) : Prop :=
  s.Remembers p (latest? base · false past) (latest? base · true past)

section

variable {p : Path} {base : Text → Option Json} {s : Session} {past : Past}

/-- **One request keeps track**, and no restart fails. -/
theorem Tracks.step (h : s.Tracks p base past) (named : p.Nameable) {r : Request} (fits : r.Fits) :
    (s.step r).1.Tracks p base ((r, (s.step r).2) :: past) ∧
      (r = .reopen → (s.step r).2 = none) := by
  cases r with
  | put key payload stamp =>
    refine ⟨?_, nofun⟩
    have now := Remembers.put h fits
    simpa [Tracks, latest?, Session.step] using now
  | get key => exact ⟨h, nofun⟩
  | persist =>
    refine ⟨?_, nofun⟩
    have now := Remembers.persist h
    cases failed : (s.step .persist).2 with
    | none => simpa [Tracks, latest?, failed] using now
    | some e => simpa [Tracks, latest?, failed] using now
  | reopen =>
    obtain ⟨now, none⟩ := Remembers.reopen h named
    refine ⟨?_, fun _ => none⟩
    simpa [Tracks, latest?, none] using now

/-- **Every run of requests keeps track**, and no restart fails. -/
theorem Tracks.after (h : s.Tracks p base []) (named : p.Nameable) {requests : List Request}
    (fits : ∀ r ∈ requests, r.Fits) :
    (s.after requests).1.Tracks p base (s.after requests).2 ∧
      ∀ e, (.reopen, some e) ∉ (s.after requests).2 := by
  induction requests with
  | nil => exact ⟨h, fun _ => List.not_mem_nil⟩
  | cons r earlier ih =>
    obtain ⟨tracks, restarts⟩ := ih fun q hq => fits q (List.mem_cons_of_mem _ hq)
    obtain ⟨now, restart⟩ := tracks.step named (fits r (List.mem_cons_self ..))
    refine ⟨now, fun e failed => ?_⟩
    rcases List.mem_cons.mp failed with same | failed
    · obtain ⟨rfl, failed⟩ := Prod.mk.inj same
      exact absurd (failed.trans (restart rfl)) nofun
    · exact restarts e failed

/-- A store that was just opened. -/
theorem tracks_opened {t : FileTree} {store written : Store} (stores : t.Stores p written)
    (opened : Store.opened t p = .ok store) (named : p.Nameable) :
    Tracks p written.get? ⟨store, t⟩ [] := by
  obtain ⟨store', opened', path, -, sound, get?⟩ := stores.exists_opened named
  obtain rfl : store' = store := Except.ok.inj (opened'.symm.trans opened)
  refine ⟨path, sound, fun key => ?_, ⟨written, stores, fun _ => rfl⟩, fun _ _ => rfl⟩
  rw [get?]
  exact same_sorted _

end

/-! ## What a file cannot keep -/

/-- What a restart gives depends on the text that was written, not on the store. -/
theorem get?_reopen_of_text_eq {s : Session} {p : Path} {other : Store}
    (path : s.store.path = some p) (named : p.Nameable) (dirty : s.store.dirty)
    (sound : Sound (fun _ _ => True) other.entries) (same : s.store.text = other.text)
    (success : (s.step .persist).2 = none) (key : Text) :
    ((s.step .persist).1.step .reopen).1.store.get? key = (other.get? key).map Json.sorted := by
  obtain ⟨cleaned, read⟩ := persist_of_success (s := s.store) (t := s.tree) success
  have stores : (s.store.persist s.tree).2.1.Stores p other :=
    ⟨sound, .inl (same ▸ read p _ (.inr ⟨path, dirty, rfl⟩) fun _ _ _ _ => rfl)⟩
  obtain ⟨store, opened, -, -, -, get?⟩ := stores.exists_opened named
  have stepped : (s.step .persist).1 = ⟨s.store.cleaned, (s.store.persist s.tree).2.1⟩ :=
    congrArg (Session.mk · _) cleaned
  have path : s.store.cleaned.path = some p := path
  rw [stepped, step, path]
  simp only [opened]
  exact get? key

/-- Two stores of one payload have the same text if the payloads differ only in halves that make a
pair. -/
theorem text_put_of_allPaired_eq {path path' : Option Path} {key stamp : Text} {a b : Json}
    (same : a.sorted.allPaired = b.sorted.allPaired) :
    (Store.put { path } key a stamp).text = (Store.put { path := path' } key b stamp).text := by
  have sorted (payload : Json) : (contents [(key, entry payload stamp)]).sorted =
      .obj [("entries", .obj [(key, entry payload.sorted stamp)]), ("version", .int version)] := by
    rw [sorted_contents, Json.sortedFields, Json.sortedFields, sorted_entry,
      Json.sortFields_of_pairwise (List.pairwise_singleton ..)]
  have paired : (contents [(key, entry a stamp)]).sorted.allPaired =
      (contents [(key, entry b stamp)]).sorted.allPaired := by
    rw [sorted, sorted]
    simp only [entry, Json.allPaired, Json.allPairedFields, same]
  show Json.written .spaced (contents [(key, entry a stamp)]).sorted =
    Json.written .spaced (contents [(key, entry b stamp)]).sorted
  rw [← Json.written_allPaired, paired, Json.written_allPaired]

/-- The page with `text` as its body. -/
def bodyPage (text : Text) : Result := .page [⟨"body", text⟩]

theorem sorted_bodyPage (text : Text) : (bodyPage text).toJson.sorted =
    .obj [("kind", .str "html"),
      ("sections", .arr [.obj [("data", .str text), ("section", .str "body")]])] := by
  simp only [bodyPage, Result.toJson, List.map_cons, List.map_nil, Json.sorted, Json.sortedFields,
    Json.sortedItems, HtmlPart.sorted_toJson]
  exact congrArg Json.obj (Json.sortFields_of_pairwise
    (show [Text.ofString "kind", Text.ofString "sections"].Pairwise _ by decide))

/-! ## Nothing is lost -/

/-- **A store loses nothing across restarts.** Whatever is asked of a store, no restart fails, and a
lookup gives the payload that was put last among those of this session and those that the file kept
at the last restart. A result that is put comes back after its file was written and opened again. A
payload can be kept if it is an object of limited depth without repeated names, in which no two
halves of a character stand side by side: those would be read as the character. -/
theorem get?_after {t : FileTree} {p : Path} {written store : Store} (stores : t.Stores p written)
    (opened : Store.opened t p = .ok store) {requests : List Request}
    (fits : ∀ r ∈ requests, r.Fits) :
    let ran := Session.after ⟨store, t⟩ requests
    (∀ e, (.reopen, some e) ∉ ran.2) ∧
    (∀ key, Same (ran.1.store.get? key) (latest? written.get? key false ran.2)) ∧
    ∀ (r : Result) (key stamp : Text), r.Keepable → key.Whole → stamp.Whole →
      let saved := (ran.1.step (.put key r.toJson stamp)).1.step .persist
      saved.2 = none → ∃ payload r', (saved.1.step .reopen).1.store.get? key = some payload ∧
        Result.ofJson? payload = .ok (some r') ∧ r'.normal = r.normal := by
  intro ran
  have named := nameable_of_opened opened
  obtain ⟨tracks, restarts⟩ := (tracks_opened stores opened named).after named fits
  refine ⟨restarts, fun key => tracks.get? key, ?_⟩
  intro r key stamp keepable whole time saved success
  -- the three requests one after the other, and what counts for the key behind them
  obtain ⟨put, -⟩ := tracks.step named (r := .put key r.toJson stamp) ⟨whole, time, keepable.toJson⟩
  obtain ⟨persist, -⟩ := put.step named (r := .persist) trivial
  obtain ⟨reopen, restart⟩ := persist.step named (r := .reopen) trivial
  have found := reopen.get? key
  rw [restart rfl, success] at found
  simp only [latest?, true_and, if_true] at found
  obtain ⟨payload, get?, same⟩ := Option.map_eq_some_iff.mp found
  obtain ⟨r', read, normal⟩ := Result.exists_ofJson? same keepable.isStorable keepable.hasText
  exact ⟨payload, r', get?, read, normal⟩

/-- A second payload is put for a key and lost at the restart, so that the first one counts. -/
theorem get?_after_lost_put :
    let p := Path.ofText "/cache.json"
    let first := Json.obj [("n", .int 1)]
    let second := Json.obj [("n", .int 2)]
    let start : Session := ⟨{ path := some p }, ⟨[], []⟩⟩
    let ran := start.after [.reopen, .put "k" second "later", .persist, .put "k" first "now"]
    Same (ran.1.store.get? "k") (some first) := by
  intro p first second start ran
  have fits : ∀ r ∈ [Request.reopen, .put "k" second "later", .persist, .put "k" first "now"],
      r.Fits := by
    simp only [List.forall_mem_cons]
    refine ⟨trivial, ⟨by decide, by decide, ⟨_, rfl⟩, by decide, by decide⟩, trivial,
      ⟨by decide, by decide, ⟨_, rfl⟩, by decide, by decide⟩, nofun⟩
  have stores : FileTree.Stores ⟨[], []⟩ p {} := ⟨Sound.nil, .inr ⟨rfl, rfl⟩⟩
  obtain ⟨restarts, found, -⟩ := get?_after stores rfl fits
  have named : p.Nameable := nameable_of_load (t := ⟨[], []⟩) rfl
  obtain ⟨put, -⟩ := (tracks_opened stores rfl named).step named
    (fits (.put "k" first "now") (by simp))
  have saved := put.sound.failure_persist (t := ⟨[], []⟩) put.path rfl rfl rfl rfl
  have past : ∃ failure, ran.2 = [(.reopen, failure), (.put "k" second "later", none),
      (.persist, ((start.step (.put "k" first "now")).1.store.persist start.tree).2.2),
      (.put "k" first "now", none)] := ⟨_, rfl⟩
  rw [saved] at past
  obtain ⟨failure, past⟩ := past
  have found := found "k"
  rw [past] at found restarts
  cases failure with
  | some e => exact absurd (List.mem_cons_self ..) (restarts e)
  | none => exact found

/-- Two halves that make a character are read as the character, so a page with them comes back as
another page. -/
theorem reopened_halves :
    let p := Path.ofText "/cache.json"
    let r := bodyPage [.half 61, .half 1536]
    let start : Session := ⟨{ path := some p }, ⟨[], []⟩⟩
    let saved := (start.step (.put "k" r.toJson "now")).1.step .persist
    Store.opened start.tree p = .ok start.store ∧ saved.2 = none ∧
    ∃ payload r', (saved.1.step .reopen).1.store.get? "k" = some payload ∧
      ¬ Same (some payload) (some r.toJson) ∧
      Result.ofJson? payload = .ok (some r') ∧ r'.normal ≠ r.normal := by
  intro p r start saved
  let joined := bodyPage [.char (.ofNat 0x1F600)]
  let other : Store := Store.put {} "k" joined.toJson "now"
  have keepable : joined.Keepable := ⟨trivial, by decide, by decide⟩
  have sound : Sound (fun _ _ => True) other.entries :=
    Sound.nil.put (s := {}) (by decide) (by decide) keepable.toJson trivial
  have pair : Text.paired [.half 61, .half 1536] = Text.paired [.char (.ofNat 0x1F600)] := by decide
  have same : (start.step (.put "k" r.toJson "now")).1.store.text = other.text := by
    refine text_put_of_allPaired_eq ?_
    rw [sorted_bodyPage, sorted_bodyPage]
    simp only [Json.allPaired, Json.allPairedFields, Json.allPairedItems, pair]
  have success : ((start.step (.put "k" r.toJson "now")).1.store.persist start.tree).2.2 = none :=
    failure_persist_of_ascii (t := ⟨[], []⟩) (same ▸ sound.ascii_text) (p := p) rfl rfl rfl rfl rfl
  have named : p.Nameable := nameable_of_load (t := ⟨[], []⟩) rfl
  have found := get?_reopen_of_text_eq (s := (start.step (.put "k" r.toJson "now")).1) rfl named rfl
    sound same success "k"
  obtain ⟨r', read, normal⟩ := Result.exists_ofJson? (Json.sorted_sorted _) keepable.isStorable
    keepable.hasText
  refine ⟨rfl, success, joined.toJson.sorted, r', found, ?_, read, ?_⟩
  · intro alike
    have alike := Option.some.inj alike
    rw [Json.sorted_sorted, sorted_bodyPage, sorted_bodyPage] at alike
    simp at alike
  · rw [normal]
    simp [joined, r, bodyPage, Result.normal]

end Store.Session

end Componentry
