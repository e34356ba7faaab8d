import Componentry.Proofs.Compiler.Batch
import Componentry.Proofs.Compiler.Recall

/-!
# Damaged cache files

A cache file may hold any bytes. A store is opened from them unless they are no text, or a text that
goes beyond what the reader of data values can take. Its payloads may be any objects then. Reading a
result from one fails only where a list is expected and something without items is found. A document
whose payload is no result is compiled as if there were no store.
-/

namespace Componentry

/-! ## Opening -/

/-- Is the text beyond what the reader takes, rather than malformed? -/
def Json.Problem.isLimit : Json.Problem → Bool
  | .tooManyDigits _ => true
  | .tooDeep _ => true
  | _ => false

/-- Bytes are a text exactly if they are UTF-8. -/
theorem exists_decodeFile_iff {bytes : ByteArray} :
    (∃ text, decodeFile bytes = .ok text) ↔ bytes.IsValidUTF8 := by
  rw [decodeFile, decodeUtf8, String.fromUTF8?]
  by_cases valid : bytes.IsValidUTF8
  · rw [dif_pos valid]
    exact ⟨fun _ => valid, fun _ => ⟨_, rfl⟩⟩
  · rw [dif_neg valid]
    refine ⟨?_, fun h => absurd h valid⟩
    rintro ⟨text, h⟩
    cases h

namespace Store

variable {tree : FileTree} {p : Path} {bytes : ByteArray}

/-- A text that is malformed makes an empty store; one that goes beyond the limits makes none. -/
theorem load_of_parse_error {text : Text} (read : tree.readText p = .ok text) {e : Json.SyntaxError}
    (malformed : Json.parse text = .error e) :
    load tree p = if e.problem.isLimit then .error (.json e) else .ok [] := by
  simp only [load, read, malformed]
  cases e.problem <;> rfl

theorem exists_load_iff {text : Text} (read : tree.readText p = .ok text) :
    (∃ entries, load tree p = .ok entries) ↔
      ∀ e, Json.parse text = .error e → e.problem.isLimit = false := by
  cases parsed : Json.parse text with
  | ok data => simp [load, read, parsed]
  | error e =>
    rw [load_of_parse_error read parsed]
    cases limit : e.problem.isLimit <;> simp [limit]

theorem readText_of_read (read : tree.read p = .ok bytes) :
    tree.readText p = (decodeFile bytes).mapError .decode := by
  rw [FileTree.readText, read]
  rfl

/-- **A store is opened** from all bytes but those that are no text or go beyond the limits. -/
theorem exists_opened_iff (read : tree.read p = .ok bytes) :
    (∃ s, opened tree p = .ok s) ↔ bytes.IsValidUTF8 ∧
      ∀ text e, decodeFile bytes = .ok text → Json.parse text = .error e →
        e.problem.isLimit = false := by
  have loads : (∃ s, opened tree p = .ok s) ↔ ∃ entries, load tree p = .ok entries := by
    rw [opened]
    cases load tree p with
    | error e => simp [bind, Except.bind]
    | ok entries => simp [bind, Except.bind, pure, Except.pure]
  have text := readText_of_read read
  rw [loads, ← exists_decodeFile_iff]
  cases decoded : decodeFile bytes with
  | error e =>
    rw [decoded] at text
    simp [load, text, Except.mapError, isReadable]
  | ok s =>
    rw [decoded] at text
    rw [exists_load_iff text]
    constructor
    · intro within
      refine ⟨⟨s, rfl⟩, ?_⟩
      rintro _ e ⟨⟩
      exact within e
    · rintro ⟨-, within⟩ e
      exact within s e rfl

theorem exists_obj_of_get? {s : Store} {key : Text} {payload : Json}
    (found : s.get? key = some payload) : ∃ fields, payload = .obj fields := by
  rw [get?] at found
  split at found
  · split at found
    · exact ⟨_, (Option.some.inj found).symm⟩
    · cases found
  · cases found

end Store

/-! ## Reading payloads -/

/-- Is the value one that counts as present and has no items? -/
def Json.isBare : Json → Bool
  | .bool b => b
  | .int n => n != 0
  | .float x => !x.isZero
  | _ => false

/-- Does a payload have such a value in the place of the list that its kind needs? -/
def Json.LacksList (payload : Json) : Prop :=
  payload.fieldD "kind" = .str "html" ∧ (payload.fieldD "sections").isBare ∨
  payload.fieldD "kind" = .str "module" ∧
    ((payload.fieldD "output").fieldD "stylesheets").isBare

namespace Result

theorem itemsOf_eq_error_iff {key : Text} {j : Json} :
    (∃ f, itemsOf key j = .error f) ↔ (j.fieldD key).isBare := by
  rw [itemsOf]
  cases j.fieldD key with
  | null => simp [Json.presentOr, Json.truthy, Json.elements, Json.isBare, Except.mapError]
  | bool b =>
    cases b <;> simp [Json.presentOr, Json.truthy, Json.elements, Json.isBare, Except.mapError]
  | int n =>
    by_cases zero : n = 0 <;>
      simp [Json.presentOr, Json.truthy, Json.elements, Json.isBare, Except.mapError, zero]
  | float x =>
    cases zero : x.isZero <;>
      simp [Json.presentOr, Json.truthy, Json.elements, Json.isBare, Except.mapError, zero]
  | str s =>
    rw [Json.presentOr]
    split <;> simp [Json.elements, Json.isBare, Except.mapError]
  | arr items =>
    rw [Json.presentOr]
    split <;> simp [Json.elements, Json.isBare, Except.mapError]
  | obj fields =>
    rw [Json.presentOr]
    split <;> simp [Json.elements, Json.isBare, Except.mapError]

/-- **Reading a result from an object fails** exactly if it lacks the list that its kind needs. -/
theorem ofJson?_eq_error_iff {fields : Json.Fields} :
    (∃ f, ofJson? (.obj fields) = .error f) ↔ (Json.obj fields).LacksList := by
  have page : (∃ f, pageOf? (.obj fields) = .error f) ↔
      ((Json.obj fields).fieldD "sections").isBare := by
    rw [← itemsOf_eq_error_iff, pageOf?]
    cases itemsOf "sections" (.obj fields) with
    | error f => simp [bind, Except.bind]
    | ok items => simp [bind, Except.bind, pure, Except.pure]
  have module_ : (∃ f, moduleOf? (.obj fields) = .error f) ↔
      (((Json.obj fields).fieldD "output").fieldD "stylesheets").isBare := by
    rw [moduleOf?]
    cases (Json.obj fields).fieldD "output" with
    | obj output =>
      rw [← itemsOf_eq_error_iff]
      dsimp only
      cases itemsOf "stylesheets" (.obj output) with
      | error f => simp [bind, Except.bind]
      | ok items => simp [bind, Except.bind, pure, Except.pure]
    | _ => simp [Json.fieldD, Json.field?, Json.isBare]
  rw [Json.LacksList, ofJson?]
  cases kind : (Json.obj fields).fieldD "kind" with
  | str name =>
    dsimp only
    by_cases html : name = "html"
    · simp [html, page, show Text.ofString "html" ≠ "module" by decide]
    · by_cases code : name = "module"
      · simp [code, module_, show Text.ofString "module" ≠ "html" by decide]
      · simp [html, code]
  | _ => simp

end Result

/-! ## Compiling without the store -/

namespace Compiler

variable {σ : Type} {c : Compiler σ} {tree : FileTree} {input : Input} {tools tools' : σ}
  {d : Document} {key : CacheKey} {digest : Text}

/-- Where the disk has no result, the memory decides. -/
theorem fetch_of_stored_none (nothing : c.stored digest = .ok none) :
    c.fetch digest = match c.memory.fetch? digest with
      | some (result, memory) => .ok (some result, { c with memory })
      | none => .ok (none, c) := by
  rw [fetch_eq]
  cases c.memory.fetch? digest with
  | some pair => rfl
  | none => simp only [nothing]

/-- Whether remembering fails does not depend on the disk, and it changes the same but for the disk.
-/
theorem remember_disk (c : Compiler σ) (disk : Option Store) (digest : Text) (result : Result)
    (persist : Bool) :
    ∃ disk', { c with disk }.remember digest result persist =
      ({ (c.remember digest result persist).1 with disk := disk' },
        (c.remember digest result persist).2) := by
  rw [remember, remember]
  cases result.size with
  | error f => exact ⟨_, rfl⟩
  | ok size =>
    dsimp only
    split <;> exact ⟨_, rfl⟩

/-- **A document is looked up as without a disk** if the disk has no result for it. -/
theorem start_disk (run : (c.key tree input).run tools = (.ok (d, some key), tools'))
    (nothing : c.stored (key.digest c.project.hashing) = .ok none) :
    ∃ disk, { c with disk := none }.start tree input tools =
      ((c.start tree input tools).1, { (c.start tree input tools).2.1 with disk },
        (c.start tree input tools).2.2) := by
  have run' : ({ c with disk := none }.key tree input).run tools = (.ok (d, some key), tools') :=
    run
  have nothing' : ({ c with disk := none } : Compiler σ).stored (key.digest c.project.hashing) =
      .ok none := rfl
  rw [start_eq run, start_eq run']
  simp only [Option.map_some, lookup, fetch_of_stored_none nothing, fetch_of_stored_none nothing']
  cases c.memory.fetch? (key.digest c.project.hashing) with
  | some pair => exact ⟨none, rfl⟩
  | none =>
    dsimp only
    cases Step.page? d with
    | none => exact ⟨none, rfl⟩
    | some page =>
      obtain ⟨disk, same⟩ := remember_disk c none (key.digest c.project.hashing) page true
      refine ⟨disk, ?_⟩
      simp only [holdPage, same]
      rfl

/-- A document that is settled when it is looked up stays as it is. -/
theorem compileAll_settled {outcome : Except Failure Result} {c₁ : Compiler σ}
    {log : List LogEntry}
    (started : c.start tree input tools = (.settled outcome, c₁, tools', log)) :
    (c.compileAll tree tools [input]).1 = [{ outcome := outcome.map some }] := by
  have kept : c₁.hold { outcome := outcome.map some } = ({ outcome := outcome.map some }, c₁) := by
    cases outcome <;> rfl
  simp only [compileAll, startAll, draftAll, draft, lowerAll, holdAll, started, List.zipIdx_cons,
    List.zipIdx_nil, List.filterMap_cons, List.filterMap_nil, byRound, byPlace, lowerInTurn,
    List.mergeSort_singleton, List.mergeSort_nil, holdInTurn, List.append_nil, List.map_cons,
    List.map_nil, Sum.getRight?, Sum.getLeft?, Option.map_some, Option.map_none, kept]

theorem lowerDraft_disk (c : Compiler σ) (disk : Option Store) (tree : FileTree) (x : Drafted)
    (tools : σ) : { c with disk }.lowerDraft tree x tools =
      ((c.lowerDraft tree x tools).1, { (c.lowerDraft tree x tools).2.1 with disk },
        (c.lowerDraft tree x tools).2.2) := by
  rw [lowerDraft, lowerDraft]
  rcases x.outcome with f | (_ | artifact) <;> rfl

theorem hold_disk (c : Compiler σ) (disk : Option Store) (f : Finished) :
    ({ c with disk }.hold f).1 = (c.hold f).1 := by
  rw [hold, hold]
  split
  next result digest _ _ =>
    obtain ⟨disk', same⟩ := remember_disk c disk digest result true
    rw [same]
    rcases c.remember digest result true with ⟨c', _ | e⟩ <;> rfl
  next => rfl

/-- **A document comes to the same as without a disk** if the disk has no result for it. -/
theorem compileAll_disk (run : (c.key tree input).run tools = (.ok (d, some key), tools'))
    (nothing : c.stored (key.digest c.project.hashing) = .ok none) :
    (c.compileAll tree tools [input]).1 =
      ({ c with disk := none }.compileAll tree tools [input]).1 := by
  obtain ⟨disk, same⟩ := start_disk run nothing
  rcases started : c.start tree input tools with ⟨ticket, c₁, tools₁, log⟩
  rw [started] at same
  cases ticket with
  | settled outcome => rw [compileAll_settled started, compileAll_settled same]
  | open_ document hot digest? =>
    obtain ⟨x, tools₂, drafted⟩ : ∃ x tools₂,
        c₁.draft tree (.open_ document hot digest?) tools₁ = (.inr x, tools₂) := ⟨_, _, rfl⟩
    have drafted' : { c₁ with disk }.draft tree (.open_ document hot digest?) tools₁ =
      (.inr x, tools₂) := drafted
    have lowered' := lowerDraft_disk c₁ disk tree x tools₂
    rcases lowered : c₁.lowerDraft tree x tools₂ with ⟨f, c₂, tools₃⟩
    rw [lowered] at lowered'
    rw [compileAll_singleton c tree tools input started drafted lowered,
      compileAll_singleton _ tree tools input same drafted' lowered']
    exact congrArg (· :: []) (hold_disk c₂ disk f).symm

/-- A payload that cannot be read fails the document that it is looked up for. -/
theorem compileAll_of_stored_error
    (run : (c.key tree input).run tools = (.ok (d, some key), tools')) {f : Failure}
    (missing : c.memory.fetch? (key.digest c.project.hashing) = none)
    (failed : c.stored (key.digest c.project.hashing) = .error f) :
    (c.compileAll tree tools [input]).1 = [{ outcome := .error f }] := by
  have fetched : c.fetch (key.digest c.project.hashing) = .error f := by
    rw [fetch_eq, missing, failed]
  have started : c.start tree input tools = (.settled (.error f), c, tools', []) := by
    rw [start_eq run]
    simp only [Option.map_some, lookup, fetched]
  exact compileAll_settled started

/-- **What a damaged cache file does.** For every content of the file:
* A store is opened from it exactly if it is UTF-8 and not beyond what the reader of data values
  takes: numbers with too many digits, or lists and objects too deep inside each other.
* Every payload that is looked up then is an object. Reading a result from it fails exactly if
  something without items stands where its kind needs a list.
* A document whose payload gives no result comes to what it comes to without a store, and so does
  what is registered for it. One whose payload cannot be read fails, unless its result is in memory.
  -/
theorem damaged_file {p : Path} {bytes : ByteArray} {files : FileTree}
    (read : files.read p = .ok bytes) :
    ((∃ s, Store.opened files p = .ok s) ↔ bytes.IsValidUTF8 ∧
      ∀ text e, decodeFile bytes = .ok text → Json.parse text = .error e →
        e.problem.isLimit = false) ∧
    ∀ s, Store.opened files p = .ok s →
      (∀ key payload, s.get? key = some payload → (∃ fields, payload = .obj fields) ∧
        ((∃ f, Result.ofJson? payload = .error f) ↔ payload.LacksList)) ∧
      ∀ (c : Compiler σ) tree tools input d key tools', c.disk = some s →
        (c.key tree input).run tools = (.ok (d, some key), tools') →
        let digest := key.digest c.project.hashing
        ((∀ payload, s.get? digest = some payload → Result.ofJson? payload = .ok none) →
          (c.compileAll tree tools [input]).1 =
            ({ c with disk := none }.compileAll tree tools [input]).1 ∧
          (c.process tree tools [input]).registers =
            ({ c with disk := none }.process tree tools [input]).registers) ∧
        ∀ payload, s.get? digest = some payload → payload.LacksList →
          c.memory.fetch? digest = none →
          ∃ f, (c.compileAll tree tools [input]).1 = [{ outcome := .error f }] := by
  refine ⟨Store.exists_opened_iff read, fun s _ => ?_⟩
  have payloads : ∀ key payload, s.get? key = some payload → (∃ fields, payload = .obj fields) ∧
      ((∃ f, Result.ofJson? payload = .error f) ↔ payload.LacksList) := by
    intro key payload found
    obtain ⟨fields, rfl⟩ := Store.exists_obj_of_get? found
    exact ⟨⟨fields, rfl⟩, Result.ofJson?_eq_error_iff⟩
  refine ⟨payloads, ?_⟩
  intro c tree tools input d key tools' disk run digest
  refine ⟨fun none_ => ?_, ?_⟩
  · have nothing : c.stored digest = .ok none := by
      rw [stored, disk, Option.bind_some]
      cases found : s.get? digest with
      | none => rfl
      | some payload => exact none_ payload found
    have same := compileAll_disk run nothing
    exact ⟨same, congrArg (List.map Finished.registered) same⟩
  · intro payload found lacks missing
    obtain ⟨f, failed⟩ := (payloads digest payload found).2.mpr lacks
    refine ⟨f, compileAll_of_stored_error run missing ?_⟩
    rw [stored, disk, Option.bind_some, found]
    exact failed

/-- A page with a number in the place of its sections. -/
def bareSections : Json := .obj [("kind", .str "html"), ("sections", .int 1)]

theorem lacksList_sorted_bareSections : bareSections.sorted.LacksList := by
  have same : bareSections.sorted = bareSections :=
    congrArg Json.obj (Json.sortFields_of_pairwise (by decide))
  rw [same]
  exact .inl ⟨rfl, rfl⟩

/-- A store that has it for every document of `unequipped`. -/
def bareStore : Store := ({} : Store).put "k" bareSections "now"

theorem sound_bareStore : Store.Sound (fun _ _ => True) bareStore.entries :=
  Store.Sound.nil.put (s := {}) (by decide) (by decide) ⟨⟨_, rfl⟩, by decide, by decide⟩ trivial

/-- The files with the file of that store. -/
def bareFiles : FileTree :=
  ⟨[], [([Text.ofString "cache.json"], ⟨(Text.bytes bareStore.text).toArray⟩)]⟩

/-- The store is opened from its file, and a page that is looked up in it fails. -/
theorem damaged_bareFiles : ∃ s, Store.opened bareFiles (Path.ofText "/cache.json") = .ok s ∧
    (∃ payload, s.get? "k" = some payload ∧ payload.LacksList) ∧
    ∃ f, (({ fresh unequipped 100 with disk := some s } : Compiler Unit).compileAll bareFiles ()
      [{ path := "Page", content := some "<body>x</body>" }]).1 = [{ outcome := .error f }] := by
  have read : bareFiles.read (Path.ofText "/cache.json") =
      .ok ⟨(Text.bytes bareStore.text).toArray⟩ := by rfl
  have opened : Store.opened bareFiles (Path.ofText "/cache.json") = .ok
      { path := some (Path.ofText "/cache.json")
        entries := Json.sortFields (Json.sortedFields bareStore.entries) } := by
    rw [Store.opened, sound_bareStore.load_of_read read]
    rfl
  have found : Store.get? ⟨some (Path.ofText "/cache.json"),
      Json.sortFields (Json.sortedFields bareStore.entries), false⟩ "k" =
        some bareSections.sorted :=
    sound_bareStore.get?_sorted "k"
  have lacks := lacksList_sorted_bareSections
  refine ⟨_, opened, ⟨_, found, lacks⟩, ?_⟩
  obtain ⟨-, each⟩ := damaged_file (σ := Unit) read
  obtain ⟨-, fails⟩ := (each _ opened).2 { fresh unequipped 100 with disk := some _ } bareFiles ()
    { path := "Page", content := some "<body>x</body>" } _ _ () rfl rfl
  exact fails _ found lacks rfl

end Compiler

end Componentry
