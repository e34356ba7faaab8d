import Componentry.Proofs.Pipeline.Backing
import Componentry.Proofs.Pipeline.Lowering

/-!
# Lowering from one run to the next

A run lowers modules, writes its partitions, moves to another cache directory and starts anew, in any
order. A lowering tool that is a function of code and filename then answers, through all partitions,
as it does without any; and it is not called again for what the open store of a partition has, or
what its file had when the store was opened.
-/

namespace Componentry

/-- The calls of a lowering tool, the last one first. -/
abbrev LoweringCalls := List (Json × Text)

/-- A lowering tool that gives what `give` says, and keeps note of its calls. -/
def LoweringTool.noting (give : Json → Text → Except Failure Transformed) :
    LoweringTool LoweringCalls where
  lower code filename := ExceptT.mk fun calls => (give code filename, (code, filename) :: calls)

namespace Lowering

/-! ## Runs -/

/-- What modules are lowered for. -/
structure Build where
  options : Options
  production : Bool
  runtimePackage : Option Text
  /-- The version of the compiler. -/
  version : Text

/-- What can be asked of lowering. -/
inductive Request where
  | lower (artifact : Artifact) (path : Text) (hot : Bool) (stamp : Text)
  | persist
  /-- Another cache directory, or none. -/
  | move (cache : Option Path)
  /-- A new start, without a cache directory. -/
  | restart (build : Build)

/-- Are all partitions closed by this? -/
def Request.closes : Request → Bool
  | .move _ => true
  | .restart _ => true
  | _ => false

/-- Lowering in use, beside the files. -/
structure Session where
  build : Build
  tree : FileTree
  partitions : Partitions := {}
  calls : LoweringCalls := []

/-- A lowering tool that is a function, hash functions, and what may occur in a run. -/
structure World where
  give : Json → Text → Except Failure Transformed
  hashing : Hashing
  /-- The code that may be lowered at a path. -/
  Occurs : (path code : Text) → Prop
  IsCache : Path → Prop
  IsBuild : Build → Prop

namespace World

variable (w : World)

/-- What sets the partitions of a build apart. -/
def scope (b : Build) : PartitionScope := ⟨b.options, b.production, b.runtimePackage, w.hashing⟩

/-- What lowering needs, at the time `stamp`. -/
def context (s : Session) (stamp : Text) : LoweringContext LoweringCalls where
  tool := pure (.noting w.give)
  version := pure s.build.version
  scope := w.scope s.build
  tree := s.tree
  stamp := stamp

/-- Lowers module code. -/
def lower (s : Session) (artifact : Artifact) (path : Text) (hot : Bool) (stamp : Text) :
    Except Failure Module × Session :=
  let (r, q) := (Step.lower (w.context s stamp) artifact path hot).from_
    { tools := s.calls, partitions := s.partitions }
  (r, { s with partitions := q.partitions, calls := q.tools })

/-- Lowers module code without a cache directory. -/
def plain (s : Session) (artifact : Artifact) (path : Text) (hot : Bool) (stamp : Text) :
    Except Failure Module :=
  (w.lower { s with partitions := {} } artifact path hot stamp).1

/-- Writes the partitions. -/
def persist (s : Session) : Session × Option Failure :=
  let (partitions, tree, failure) := s.partitions.persist s.tree
  ({ s with partitions, tree }, failure)

/-- The session after one request. -/
def step (s : Session) : Request → Session
  | .lower artifact path hot stamp => (w.lower s artifact path hot stamp).2
  | .persist => (persist s).1
  | .move cache => { s with partitions := .moved cache }
  | .restart build => { s with build, partitions := {} }

/-- The session after all of `requests`, of which the last stands first. -/
def after (s : Session) : List Request → Session
  | [] => s
  | r :: earlier => w.step (after s earlier) r

/-- The directory of the partition in use, if there is one. -/
def partition? (s : Session) (hot : Bool) : Option Path :=
  s.partitions.cache.bind fun cache =>
    ((w.scope s.build).directory cache s.build.version hot).toOption

/-! ## What a world must be like -/

/-- May this be asked? -/
def Allows : Request → Prop
  | .lower artifact path _ stamp => stamp.Whole ∧ ∃ code, artifact.code = .str code ∧ w.Occurs path code
  | .persist => True
  | .move cache => ∀ c, cache = some c → w.IsCache c
  | .restart build => w.IsBuild build

/-- Digests and versions can be parts of names, cache directories have names that can be looked up,
digests do not collide, and what the tool gives can be written and read back: its code is text and
its maps are no lists. -/
structure Fits : Prop where
  optionDigests : ∀ s, (w.hashing.options s).IsNamePart
  entryDigests : ∀ s, (w.hashing.entry s).Whole
  version : ∀ b, w.IsBuild b → b.version.IsNamePart
  cache : ∀ c, w.IsCache c → c.names ≠ [] ∧ c.name.has '/' = false ∧ c.Nameable
  noNull : ∀ path code, w.Occurs path code → .char '\x00' ∉ path
  noCollision : ∀ path code path' code', w.Occurs path code → w.Occurs path' code' →
    w.hashing.entry (loweringText path code) = w.hashing.entry (loweringText path' code') →
    loweringText path code = loweringText path' code'
  keepable : ∀ path code t, w.Occurs path code → w.give (.str code) path = .ok t → t.isOutput →
    t.payload.Keepable ∧ (∃ s, t.code = .str s) ∧ ∀ items, t.map ≠ some (.arr items)

/-- Is this the directory of a partition? -/
def IsPartition (d : Path) : Prop :=
  ∃ b cache hot, w.IsBuild b ∧ w.IsCache cache ∧ (w.scope b).directory cache b.version hot = .ok d

/-- Are no two partitions different spellings of one place? -/
def Apart : Prop :=
  ∀ d e, w.IsPartition d → w.IsPartition e →
    Partitions.place d = Partitions.place e → d = e

/-! ## The tool -/

/-- The tool and its digests. -/
def lowerer : Lowerer LoweringCalls := ⟨pure (.noting w.give), w.hashing⟩

/-- The payloads that are right. -/
def Right : Text → Json → Prop := w.lowerer.Right w.Occurs

/-- What code at a path is lowered to. -/
def lowersTo (path code : Text) : Except Failure (Json × Json) := w.lowerer.lowersTo [] path code

/-- The name of the entry for code at a path. -/
def name (path code : Text) : Except Failure Text := Step.entryName w.hashing path (.str code)

variable {w}

theorem steady_lowerer : w.lowerer.Steady where
  tool _ _ := rfl
  lower := by
    rintro tool ⟨_, given⟩ code filename _ _
    obtain rfl : LoweringTool.noting w.give = tool := Except.ok.inj given
    rfl

theorem lowers_iff {path code : Text} {t : Transformed} :
    w.lowerer.Lowers path code t ↔ w.give (.str code) path = .ok t := by
  constructor
  · rintro ⟨tool, ⟨_, given⟩, ⟨_, lowered⟩⟩
    obtain rfl : LoweringTool.noting w.give = tool := Except.ok.inj given
    exact lowered
  · intro given
    exact ⟨.noting w.give, ⟨[], rfl⟩, ⟨[], given⟩⟩

theorem Fits.keeps (h : w.Fits) : w.lowerer.Keeps w.Occurs where
  noNull := h.noNull
  noCollision := h.noCollision
  whole _ _ _ := h.entryDigests _
  keepable path code t occurs lowers := h.keepable path code t occurs (lowers_iff.mp lowers)

/-! ## What a run keeps -/

/-- Open stores and files are sound. -/
structure Holds (w : World) (s : Session) : Prop where
  build : w.IsBuild s.build
  cache : ∀ c, s.partitions.cache = some c → w.IsCache c
  sound : s.partitions.Sound (w.scope s.build) s.build.version w.Right
  keeps : ∀ loc, s.tree.Keeps loc w.Right

variable {s : Session}

theorem Holds.prepared (h : w.Holds s) (fits : w.Fits) (stamp : Text) :
    Step.Prepared (w.context s stamp) s.build.version w.Right s.partitions where
  answers _ := rfl
  sound := h.sound
  fits c beside := by
    obtain ⟨named, single, nameable⟩ := fits.cache c (h.cache c beside)
    exact ⟨fits.optionDigests, fits.version _ h.build, named, single, nameable⟩
  keeps _ _ _ _ _ := h.keeps _

/-- **What lowering does:** it answers as the tool does, and sound partitions stay sound. -/
theorem Holds.lower (h : w.Holds s) (fits : w.Fits) {artifact : Artifact} {path code stamp : Text}
    (time : stamp.Whole) (text : artifact.code = .str code) (occurs : w.Occurs path code)
    (hot : Bool) :
    w.Holds (w.lower s artifact path hot stamp).2 ∧
      Step.Served (w.context s stamp) s.build.version hot (w.name path code) (w.lowersTo path code)
        { tools := s.calls, partitions := s.partitions } (w.lower s artifact path hot stamp).2.calls
        (w.lower s artifact path hot stamp).2.partitions ∧
      Agree (fun m n => m.normal = n.normal) (w.lower s artifact path hot stamp).1
        (w.lowersTo path code >>= Step.finish artifact path) := by
  obtain ⟨r, tools, ps, log, run, prepared, served, agree⟩ := Step.exists_lower
    (c := w.context s stamp) (q := { tools := s.calls, partitions := s.partitions })
    steady_lowerer fits.keeps time text occurs hot (h.prepared fits stamp) []
  have ran : w.lower s artifact path hot stamp = (r, { s with partitions := ps, calls := tools }) := by
    rw [World.lower, run]
  rw [ran]
  refine ⟨⟨h.build, ?_, prepared.sound, h.keeps⟩, served, agree⟩
  intro c beside
  exact h.cache c (served.cache ▸ beside)

/-- **One request keeps open stores and files sound.** -/
theorem Holds.step (h : w.Holds s) (fits : w.Fits) {r : Request} (allowed : w.Allows r) :
    w.Holds (w.step s r) := by
  cases r with
  | lower artifact path hot stamp =>
    obtain ⟨time, code, text, occurs⟩ := allowed
    exact (h.lower fits time text occurs hot).1
  | persist =>
    refine ⟨h.build, h.cache, h.sound.persist s.tree, fun loc => ?_⟩
    exact Partitions.keeps_persistAll (h.keeps loc) fun f hf _ _ _ => (h.sound f hf).1
  | move cache => exact ⟨h.build, allowed, .moved cache, h.keeps⟩
  | restart build => exact ⟨allowed, nofun, .moved none, h.keeps⟩

/-- **So does every run.** -/
theorem Holds.after (h : w.Holds s) (fits : w.Fits) {requests : List Request}
    (allowed : ∀ r ∈ requests, w.Allows r) : w.Holds (w.after s requests) := by
  induction requests with
  | nil => exact h
  | cons r earlier ih =>
    exact (ih fun q hq => allowed q (List.mem_cons_of_mem _ hq)).step fits
      (allowed r (List.mem_cons_self ..))

/-! ## What partitions know -/

theorem partition?_eq_some {hot : Bool} {d : Path} (h : w.partition? s hot = some d) :
    ∃ cache, s.partitions.cache = some cache ∧
      (w.scope s.build).directory cache s.build.version hot = .ok d := by
  obtain ⟨cache, beside, directory⟩ := Option.bind_eq_some_iff.mp h
  refine ⟨cache, beside, ?_⟩
  cases found : (w.scope s.build).directory cache s.build.version hot with
  | error e => rw [found] at directory; cases directory
  | ok e => rw [found] at directory; exact congrArg Except.ok (Option.some.inj directory)

theorem Holds.exists_partition (h : w.Holds s) (fits : w.Fits) {c : Path}
    (beside : s.partitions.cache = some c) (hot : Bool) : ∃ d, w.partition? s hot = some d := by
  obtain ⟨d, directory, -⟩ := ((h.prepared fits "").fits c beside).exists_partition hot
  have directory : (w.scope s.build).directory c s.build.version hot = .ok d := directory
  exact ⟨d, by rw [partition?, beside, Option.bind_some, directory]; rfl⟩

theorem Holds.isPartition (h : w.Holds s) {hot : Bool} {d : Path} (part : w.partition? s hot = some d) :
    w.IsPartition d := by
  obtain ⟨cache, beside, directory⟩ := partition?_eq_some part
  exact ⟨s.build, cache, hot, h.build, h.cache cache beside, directory⟩

theorem Holds.isPartition_of_mem (h : w.Holds s) {f : Path × Store} (hf : f ∈ s.partitions.stores) :
    w.IsPartition f.1 := by
  obtain ⟨-, -, cache, hot, beside, directory⟩ := h.sound f hf
  exact ⟨s.build, cache, hot, h.build, h.cache cache beside, directory⟩

end World

end Lowering

namespace Step

variable {σ : Type} {c : LoweringContext σ} {version : Text} {hot : Bool} {ps ps' : Partitions}
  {store : Option (Path × Store)} {q : Progress σ} {tools : σ} {named : Except Failure Text}
  {given : Except Failure (Json × Json)}

/-- The partition that was opened is the one in use, and its store is open. -/
theorem Opens.of_directory (h : Opens c version hot ps store ps') {cache d : Path}
    (beside : ps.cache = some cache) (directory : c.scope.directory cache version hot = .ok d) :
    ∃ s, store = some (d, s) ∧ ps'.store? d = some s := by
  cases h with
  | nowhere none_ => cases none_.symm.trans beside
  | already beside' directory' opened =>
    obtain rfl := Option.some.inj (beside'.symm.trans beside)
    obtain rfl := Except.ok.inj (directory'.symm.trans directory)
    exact ⟨_, rfl, opened⟩
  | loaded beside' directory' closed load =>
    obtain rfl := Option.some.inj (beside'.symm.trans beside)
    obtain rfl := Except.ok.inj (directory'.symm.trans directory)
    exact ⟨_, rfl, by rw [Partitions.store?_withStore, if_pos rfl]⟩

theorem Opens.store?_eq (h : Opens c version hot ps store ps') {d : Path} {s : Store}
    (same : store = some (d, s)) : ps'.store? d = some s := by
  cases h with
  | nowhere => cases same
  | already _ _ opened => cases same; exact opened
  | loaded _ _ closed load => cases same; rw [Partitions.store?_withStore, if_pos rfl]

theorem Opens.knows (h : Opens c version hot ps store ps') {e : Path} {key : Text}
    (known : ps.knows e key) : ps'.knows e key := by
  cases h with
  | nowhere => exact known
  | already => exact known
  | @loaded cache d s _ _ closed load =>
    rw [Partitions.knows, Partitions.store?_withStore]
    by_cases same : e = d
    · -- a partition that was not open knew nothing
      rw [Partitions.knows, same, closed] at known
      cases known
    · rw [if_neg same]
      exact known

/-- What the tool gave is added to what is known. -/
theorem knows_keep {key stamp : Text} (own : ∀ d s, store = some (d, s) → ps.store? d = some s)
    {e : Path} {name : Text} (known : ps.knows e name) : (ps.keep store key stamp given).knows e name := by
  cases given with
  | error => exact known
  | ok x =>
    cases store with
    | none => exact known
    | some f =>
      obtain ⟨d, s⟩ := f
      rw [Partitions.keep]
      split
      · rw [Partitions.knows, Partitions.store?_withStore]
        by_cases same : e = d
        · rw [Partitions.knows, same, own d s rfl] at known
          have known : s.has name = true := known
          simp [same, Store.has_put, known]
        · rw [if_neg same]
          exact known
      · exact known

/-- **Lowering forgets nothing.** -/
theorem Served.knows (h : Served c version hot named given q tools ps) {e : Path} {key : Text}
    (known : q.partitions.knows e key) : ps.knows e key := by
  cases h with
  | unnamed opens => exact opens.knows known
  | found opens => exact opens.knows known
  | afresh opens => exact knows_keep (fun _ _ => opens.store?_eq) (opens.knows known)

/-- **What was lowered is known** in the partition in use, if it was worth keeping. -/
theorem Served.knows_key (h : Served c version hot named given q tools ps) {cache d : Path}
    (beside : q.partitions.cache = some cache) (directory : c.scope.directory cache version hot = .ok d)
    {key : Text} (name : named = .ok key) {code map : Json} (output : given = .ok (code, map))
    (worth : (code.truthy && map.truthy) = true) : ps.knows d key := by
  cases h with
  | unnamed opens unable => cases unable.symm.trans name
  | found opens name' kept =>
    obtain ⟨s, rfl, opened⟩ := opens.of_directory beside directory
    obtain rfl := Except.ok.inj (name'.symm.trans name)
    have kept : s.get? _ = some _ := kept
    rw [Partitions.knows, opened, Option.any_some, Store.has, kept]
    rfl
  | afresh opens name' missing =>
    obtain ⟨s, rfl, opened⟩ := opens.of_directory beside directory
    obtain rfl := Except.ok.inj (name'.symm.trans name)
    rw [output, Partitions.keep, if_pos worth, Partitions.knows, Partitions.store?_withStore,
      if_pos rfl, Option.any_some, Store.has_put]
    simp

/-- **The tool is not asked for what is known** to the store of the partition in use, or to its file
if it is not open yet. -/
theorem Served.unasked (h : Served c version hot named given q tools ps) {cache d : Path}
    (beside : q.partitions.cache = some cache) (directory : c.scope.directory cache version hot = .ok d)
    (known : ∀ key, named = .ok key → ∀ s, q.partitions.store? d = some s ∨
      q.partitions.store? d = none ∧ Store.opened c.tree (d.child "cache.json") = .ok s → s.has key) :
    OnlyVersion c q.tools tools := by
  cases h with
  | unnamed opens unable unasked => exact unasked
  | found opens name kept unasked => exact unasked
  | @afresh _ _ key opens name missing =>
    -- the store that was opened has the key, so that something was found
    obtain ⟨s, rfl, -⟩ := opens.of_directory beside directory
    have found : s.has key = true := by
      cases opens with
      | already _ _ opened => exact known key name s (.inl opened)
      | loaded _ _ closed load => exact known key name s (.inr ⟨closed, load⟩)
    have missing : s.get? key = none := missing
    rw [Store.has, missing] at found
    cases found

end Step

namespace Lowering

namespace World

variable {w : World} {s : Session}

/-! ## Open stores and their files -/

/-- Open stores are backed by their files, and partitions lead to their files. -/
structure Backs (w : World) (s : Session) : Prop where
  backed : s.partitions.Backed s.tree
  reaches : ∀ d, w.IsPartition d → s.tree.Reaches (d.child "cache.json")

theorem Backs.opens (h : w.Backs s) (holds : w.Holds s) (apart : w.Apart) {stamp : Text} {hot : Bool}
    {store : Option (Path × Store)} {ps : Partitions}
    (opens : Step.Opens (w.context s stamp) s.build.version hot s.partitions store ps) :
    ps.Backed s.tree := by
  cases opens with
  | nowhere => exact h.backed
  | already => exact h.backed
  | @loaded cache d store beside directory closed load =>
    have part : w.IsPartition d := ⟨s.build, cache, hot, holds.build, holds.cache cache beside, directory⟩
    refine h.backed.withStore (.opened (holds.keeps _) (h.reaches d part) load) ?_
    intro f hf same
    exact apart f.1 d (holds.isPartition_of_mem hf) part same

/-- Lowering keeps open stores backed, which stay sound. -/
theorem Backs.served (h : w.Backs s) (holds : w.Holds s) (apart : w.Apart) {stamp : Text} {hot : Bool}
    {named : Except Failure Text} {given : Except Failure (Json × Json)} {calls : LoweringCalls}
    {ps : Partitions} (served : Step.Served (w.context s stamp) s.build.version hot named given
      { tools := s.calls, partitions := s.partitions } calls ps)
    (sound : ps.Sound (w.scope s.build) s.build.version w.Right) : ps.Backed s.tree := by
  cases served with
  | unnamed opens => exact h.opens holds apart opens
  | found opens => exact h.opens holds apart opens
  | @afresh store ps key opens =>
    have backed := h.opens holds apart opens
    cases given with
    | error e => exact backed
    | ok x =>
      cases store with
      | none => exact backed
      | some f =>
        obtain ⟨d, store⟩ := f
        have mem := Partitions.mem_of_store? (opens.store?_eq rfl)
        rw [Partitions.keep] at sound ⊢
        split at sound
        next worth =>
          rw [if_pos worth]
          have changed := (sound _ (Partitions.mem_withStore ..)).1.mono fun _ _ _ => trivial
          exact backed.change mem ((backed.stores _ mem).put changed)
        next worth =>
          rw [if_neg worth]
          exact backed

/-- **One request keeps open stores backed, and takes no key from any file.** -/
theorem Backs.step (h : w.Backs s) (holds : w.Holds s) (fits : w.Fits) (apart : w.Apart) {r : Request}
    (allowed : w.Allows r) :
    w.Backs (w.step s r) ∧ ∀ loc key, s.tree.holds loc key → (w.step s r).tree.holds loc key := by
  cases r with
  | lower artifact path hot stamp =>
    obtain ⟨time, code, text, occurs⟩ := allowed
    obtain ⟨holds', served, -⟩ := holds.lower fits time text occurs hot
    exact ⟨⟨h.served holds apart served holds'.sound, h.reaches⟩, fun _ _ found => found⟩
  | persist =>
    refine ⟨⟨h.backed.persist, fun d part => ?_⟩, fun loc key => h.backed.holds_persist⟩
    refine Partitions.reaches_persistAll (h.reaches d part) fun f hf p path same => ?_
    -- a store at the place of a partition is that of the partition
    obtain rfl : p = f.1.child "cache.json" :=
      Option.some.inj (path.symm.trans (h.backed.stores f hf).path)
    rw [apart f.1 d (holds.isPartition_of_mem hf) part same]
  | move cache => exact ⟨⟨.moved cache, h.reaches⟩, fun _ _ found => found⟩
  | restart build => exact ⟨⟨.moved none, h.reaches⟩, fun _ _ found => found⟩

theorem Backs.after (h : w.Backs s) (holds : w.Holds s) (fits : w.Fits) (apart : w.Apart)
    {requests : List Request} (allowed : ∀ r ∈ requests, w.Allows r) :
    w.Backs (w.after s requests) ∧
      ∀ loc key, s.tree.holds loc key → (w.after s requests).tree.holds loc key := by
  induction requests with
  | nil => exact ⟨h, fun _ _ found => found⟩
  | cons r earlier ih =>
    have before : ∀ q ∈ earlier, w.Allows q := fun q hq => allowed q (List.mem_cons_of_mem _ hq)
    obtain ⟨backs, kept⟩ := ih before
    obtain ⟨backs', kept'⟩ := backs.step (holds.after fits before) fits apart
      (allowed r (List.mem_cons_self ..))
    exact ⟨backs', fun loc key found => kept' loc key (kept loc key found)⟩

/-- As long as nothing closes the partitions, nothing is forgotten. -/
theorem Holds.knows_after (h : w.Holds s) (fits : w.Fits) {requests : List Request}
    (allowed : ∀ r ∈ requests, w.Allows r) (open_ : ∀ r ∈ requests, r.closes = false) {d : Path}
    {key : Text} (known : s.partitions.knows d key) : (w.after s requests).partitions.knows d key := by
  induction requests with
  | nil => exact known
  | cons r earlier ih =>
    have before : ∀ q ∈ earlier, w.Allows q := fun q hq => allowed q (List.mem_cons_of_mem _ hq)
    have known := ih before fun q hq => open_ q (List.mem_cons_of_mem _ hq)
    have holds := h.after fits before
    have now := allowed r (List.mem_cons_self ..)
    cases r with
    | lower artifact path hot stamp =>
      obtain ⟨time, code, text, occurs⟩ := now
      obtain ⟨-, served, -⟩ := holds.lower fits time text occurs hot
      exact served.knows known
    | persist => exact (Partitions.knows_persist ..).trans known
    | move cache => exact absurd (open_ _ (List.mem_cons_self ..)) (by simp [Request.closes])
    | restart build => exact absurd (open_ _ (List.mem_cons_self ..)) (by simp [Request.closes])

/-- As long as nothing closes the partitions, those in use stay the same. -/
theorem Holds.partition?_after (h : w.Holds s) (fits : w.Fits) {requests : List Request}
    (allowed : ∀ r ∈ requests, w.Allows r) (open_ : ∀ r ∈ requests, r.closes = false) (hot : Bool) :
    w.partition? (w.after s requests) hot = w.partition? s hot := by
  induction requests with
  | nil => rfl
  | cons r earlier ih =>
    have before : ∀ q ∈ earlier, w.Allows q := fun q hq => allowed q (List.mem_cons_of_mem _ hq)
    refine Eq.trans ?_ (ih before fun q hq => open_ q (List.mem_cons_of_mem _ hq))
    have now := allowed r (List.mem_cons_self ..)
    cases r with
    | lower artifact path hot₁ stamp =>
      obtain ⟨time, code, text, occurs⟩ := now
      obtain ⟨-, served, -⟩ := (h.after fits before).lower fits time text occurs hot₁
      have same := served.cache
      simp only [partition?, World.after, World.step, same]
      rfl
    | persist => rfl
    | move cache => exact absurd (open_ _ (List.mem_cons_self ..)) (by simp [Request.closes])
    | restart build => exact absurd (open_ _ (List.mem_cons_self ..)) (by simp [Request.closes])

/-- **The tool is not called for what the partition in use knows**, or its file. -/
theorem Backs.calls_eq (h : w.Backs s) (holds : w.Holds s) (fits : w.Fits) {artifact : Artifact}
    {path code stamp : Text} (time : stamp.Whole) (text : artifact.code = .str code)
    (occurs : w.Occurs path code) {hot : Bool} {d : Path} (part : w.partition? s hot = some d)
    (known : ∀ key, w.name path code = .ok key → s.partitions.knows d key ∨
      s.tree.holds (Partitions.place d) key) :
    (w.lower s artifact path hot stamp).2.calls = s.calls := by
  obtain ⟨-, served, -⟩ := holds.lower fits time text occurs hot
  have unasked : Step.OnlyVersion (w.context s stamp) s.calls
      (w.lower s artifact path hot stamp).2.calls := by
    obtain ⟨cache, beside, directory⟩ := partition?_eq_some part
    refine served.unasked beside directory fun key name store opened => ?_
    rcases known key name with known | found
    · -- the store is open and has the key
      rw [Partitions.knows] at known
      rcases opened with opened | ⟨closed, -⟩
      · rw [show s.partitions.store? d = some store from opened] at known
        exact known
      · rw [show s.partitions.store? d = none from closed] at known
        cases known
    · -- the file has the key, and so has its store, whether it is open already or not
      rcases opened with opened | ⟨-, load⟩
      · exact (h.backed.stores _ (Partitions.mem_of_store? opened)).covers key found
      · exact (Store.Backed.opened (holds.keeps _) (h.reaches d (holds.isPartition part))
          load).covers key found
  rcases unasked with same | same
  · exact same
  · exact same

/-! ## The whole run -/

theorem after_append (w : World) (s : Session) (late soon : List Request) :
    w.after s (late ++ soon) = w.after (w.after s soon) late := by
  induction late with
  | nil => rfl
  | cons r late ih => exact congrArg (w.step · r) ih

/-- A session that was just started, among no files. -/
theorem holds_start {build : Build} (known : w.IsBuild build) {tree : FileTree}
    (empty : ∀ loc, tree.bytesAt? loc = none) : w.Holds ⟨build, tree, {}, []⟩ where
  build := known
  cache := nofun
  sound := .moved none
  keeps loc bytes found := by cases (empty loc).symm.trans found

theorem backs_start {build : Build} {tree : FileTree} (empty : ∀ loc, tree.bytesAt? loc = none) :
    w.Backs ⟨build, tree, {}, []⟩ where
  backed := .moved none
  reaches _ _ bytes found := by cases (empty _).symm.trans found

end World

/-- Does the file of a partition have all that its open store has? -/
def Session.Saved (s : Session) (d : Path) : Prop :=
  ∃ store, s.partitions.store? d = some store ∧ store.dirty = false

namespace World

variable {w : World} {s : Session}

/-- What an open and saved store knows is in its file. -/
theorem Backs.holds_of_saved (h : w.Backs s) {d : Path} {key : Text}
    (known : s.partitions.knows d key) (saved : s.Saved d) :
    s.tree.holds (Partitions.place d) key := by
  obtain ⟨store, opened, clean⟩ := saved
  rw [Partitions.knows, opened] at known
  exact (h.backed.stores _ (Partitions.mem_of_store? opened)).clean clean key known

/-- Writing that succeeds saves every open store. -/
theorem Holds.saved_persist (h : w.Holds s) (success : (persist s).2 = none) {d : Path}
    (open_ : (s.partitions.store? d).isSome) : (persist s).1.Saved d := by
  have entries := Partitions.store?_persist s.partitions s.tree d
  obtain ⟨store, opened⟩ : ∃ store, (s.partitions.persist s.tree).1.store? d = some store := by
    rw [← Option.isSome_iff_exists, ← Option.isSome_map (f := Store.entries), entries,
      Option.isSome_map]
    exact open_
  have mem : (d, store) ∈ (Partitions.persistAll s.tree s.partitions.stores).1 :=
    Partitions.mem_of_store? opened
  rw [(Partitions.persistAll_of_success success).1] at mem
  obtain ⟨⟨e, before⟩, hf, same⟩ := List.mem_map.mp mem
  obtain ⟨rfl, rfl⟩ := Prod.mk.inj same
  obtain ⟨-, path, -⟩ := h.sound _ hf
  exact ⟨_, opened, Store.dirty_cleaned fun none_ => nomatch none_.symm.trans path⟩

/-- **Cached lowering is plain lowering.** After any run among no files, a module is lowered to what
it is lowered to without a cache directory, up to the order of fields, or fails for the same reason.
The tool is not called if it gave an output for the same code and path in the same partition before,
as long as the partition was not closed since then, or was saved before it was closed. Writing the
partitions saves all that are open, unless it fails. -/
theorem lower_after_eq_plain (fits : w.Fits) {build : Build} (known : w.IsBuild build)
    {tree : FileTree} (empty : ∀ loc, tree.bytesAt? loc = none) {requests : List Request}
    (allowed : ∀ r ∈ requests, w.Allows r) {artifact : Artifact} {path stamp : Text} {hot : Bool}
    (asked : w.Allows (.lower artifact path hot stamp)) :
    let start : Session := ⟨build, tree, {}, []⟩
    let s := w.after start requests
    Agree (fun m n => m.normal = n.normal) (w.lower s artifact path hot stamp).1
      (w.plain s artifact path hot stamp) ∧
    (w.Apart → ∀ late soon first hot₁ stamp₁ earlier d,
      requests = late ++ soon ++ .lower first path hot₁ stamp₁ :: earlier →
      first.code = artifact.code → (∃ t, w.give artifact.code path = .ok t ∧ t.isOutput) →
      w.partition? (w.after start earlier) hot₁ = some d → w.partition? s hot = some d →
      (∀ r ∈ soon, r.closes = false) →
      late = [] ∨ (w.after start (soon ++ .lower first path hot₁ stamp₁ :: earlier)).Saved d →
      (w.lower s artifact path hot stamp).2.calls = s.calls) ∧
    ((persist s).2 = none → ∀ d, (s.partitions.store? d).isSome → (persist s).1.Saved d) := by
  intro start s
  have first_ : w.Holds start := holds_start known empty
  have holds : w.Holds s := first_.after fits allowed
  obtain ⟨time, code, text, occurs⟩ := asked
  refine ⟨?_, ?_, fun success d => holds.saved_persist success⟩
  · obtain ⟨-, -, agree⟩ := holds.lower fits time text occurs hot
    have bare : w.Holds { s with partitions := {} } := ⟨holds.build, nofun, .moved none, holds.keeps⟩
    obtain ⟨-, -, agree'⟩ := bare.lower fits time text occurs hot
    exact agree.of_agree agree' fun _ _ _ a b => a.trans b.symm
  · rintro apart late soon first hot₁ stamp₁ earlier d rfl same ⟨t, gives, output⟩ part₁ part open_ saved
    obtain ⟨backs, -⟩ := (backs_start (w := w) empty).after first_ fits apart allowed
    refine backs.calls_eq holds fits time text occurs part fun key name => ?_
    simp only [List.mem_append, List.mem_cons, List.append_assoc] at allowed
    -- the first time, the output was kept in the partition
    have before : w.Holds (w.after start earlier) :=
      first_.after fits fun r hr => allowed r (.inr (.inr (.inr hr)))
    obtain ⟨time₁, code₁, text₁, occurs₁⟩ := allowed _ (.inr (.inr (.inl rfl)))
    obtain rfl : code₁ = code := Json.str.inj (text₁.symm.trans (same.trans text))
    obtain ⟨after₁, served, -⟩ := before.lower fits time₁ text₁ occurs₁ hot₁
    obtain ⟨cache, beside, directory⟩ := partition?_eq_some part₁
    have lowers := Lowerer.lowersTo_eq steady_lowerer (lowers_iff.mpr (text ▸ gives)) name []
    have known₁ := served.knows_key beside directory name lowers output
    -- it was not forgotten while the partition stayed open
    have known₂ : (w.after start (soon ++ .lower first path hot₁ stamp₁ :: earlier)).partitions.knows
        d key := by
      rw [after_append]
      exact after₁.knows_after fits (fun r hr => allowed r (.inr (.inl hr))) open_ known₁
    rcases saved with rfl | saved
    · exact .inl known₂
    · -- and what was saved is in the file ever since
      have soon_ : ∀ r ∈ soon ++ .lower first path hot₁ stamp₁ :: earlier, w.Allows r := by
        intro r hr
        simp only [List.mem_append, List.mem_cons] at hr
        exact allowed r (.inr hr)
      obtain ⟨backs₂, -⟩ := (backs_start (w := w) empty).after first_ fits apart soon_
      obtain ⟨-, kept⟩ := backs₂.after (first_.after fits soon_) fits apart fun r hr => allowed r (.inl hr)
      have found := kept _ _ (backs₂.holds_of_saved known₂ saved)
      rw [← after_append, ← List.append_assoc] at found
      exact .inr found

/-- What the file of a partition has is given from there. -/
theorem lower_of_kept {artifact : Artifact} {path key stamp : Text} {hot : Bool} {cache d : Path}
    {store : Store} {payload : Json} (beside : s.partitions.cache = some cache)
    (directory : (w.scope s.build).directory cache s.build.version hot = .ok d)
    (closed : s.partitions.store? d = none)
    (load : Store.opened s.tree (d.child "cache.json") = .ok store)
    (name : Step.entryName w.hashing path artifact.code = .ok key)
    (kept : store.get? key = some payload) :
    (w.lower s artifact path hot stamp).1 =
      Step.finish artifact path (payload.fieldD "code", payload.fieldD "map") := by
  have opened := Step.from_openPartition_of_closed (c := w.context s stamp)
    (q := { tools := s.calls, partitions := s.partitions }) rfl beside directory closed load
  rw [World.lower, Step.from_lower_of_kept opened name kept]

/-- Writing that succeeds leaves the stores and the files that come of it. -/
theorem step_persist {stores : List (Path × Store)} {tree : FileTree}
    (written : Partitions.persistAll s.tree s.partitions.stores = (stores, tree, none)) :
    w.step s .persist = { s with tree, partitions := { s.partitions with stores } } := by
  simp only [step, persist, Partitions.persist, written]

/-- The tool is called once, whatever it gives. -/
theorem tools_lowerAfresh (stamp key path : Text) (code : Json) (store : Option (Path × Store))
    (q : Progress LoweringCalls) :
    ((Step.lowerAfresh (w.context s stamp) store key path code).from_ q).2.tools =
      (code, path) :: q.tools := by
  have given : ((LoweringTool.noting w.give).lower code path).run q.tools =
      (w.give code path, (code, path) :: q.tools) := rfl
  have asked : (w.context s stamp).tool.run q.tools = (.ok (.noting w.give), q.tools) := rfl
  simp only [Step.lowerAfresh, Step.from_bind, Step.from_tool, asked, given]
  cases w.give code path with
  | error e => rfl
  | ok t =>
    simp only
    cases store with
    | none => rfl
    | some f =>
      obtain ⟨d, store⟩ := f
      simp only
      split
      · rfl
      · rfl

/-- The tool is called for what the file of a partition does not have. -/
theorem calls_lower_of_missing {artifact : Artifact} {path key stamp : Text} {hot : Bool}
    {cache d : Path} {store : Store} (beside : s.partitions.cache = some cache)
    (directory : (w.scope s.build).directory cache s.build.version hot = .ok d)
    (closed : s.partitions.store? d = none)
    (load : Store.opened s.tree (d.child "cache.json") = .ok store)
    (name : Step.entryName w.hashing path artifact.code = .ok key) (missing : store.get? key = none) :
    (w.lower s artifact path hot stamp).2.calls = (artifact.code, path) :: s.calls := by
  have opened := Step.from_openPartition_of_closed (c := w.context s stamp)
    (q := { tools := s.calls, partitions := s.partitions }) rfl beside directory closed load
  calc (w.lower s artifact path hot stamp).2.calls
    _ = ((Step.lower (w.context s stamp) artifact path hot).from_
          { tools := s.calls, partitions := s.partitions }).2.tools := rfl
    _ = ((Step.lowered (w.context s stamp) path artifact.code hot).from_
          { tools := s.calls, partitions := s.partitions }).2.tools := by rw [Step.snd_from_lower]
    _ = (artifact.code, path) :: s.calls := by
      rw [Step.from_lowered_of_missing opened name missing]
      exact tools_lowerAfresh ..

/-! ## An instance -/

/-- A tool that gives the same for all code, and a compiler of some version. -/
def sample (version : Text) : World where
  give _ _ := .ok { code := .str "x", map := some (.obj [("version", .int 3), ("mappings", .str "")]) }
  hashing := { source := id, entry := fun s => s.filter fun c => !c.isHalf, options := fun _ => "0" }
  Occurs path code := path = "A" ∧ (code = "a" ∨ code = "b")
  IsCache c := c = Path.ofText "/cache"
  IsBuild b := b = ⟨{}, false, none, version⟩

theorem fits_sample : (sample "3").Fits where
  optionDigests _ := by show Text.IsNamePart "0"; decide
  entryDigests s := Text.whole_of_not_isHalf fun c hc => by simpa using (List.mem_filter.mp hc).2
  version := by rintro _ rfl; decide
  cache := by rintro _ rfl; exact ⟨by decide, by decide, by decide⟩
  noNull := by rintro _ _ ⟨rfl, -⟩; decide
  noCollision := by
    rintro _ _ _ _ ⟨rfl, rfl | rfl⟩ ⟨rfl, rfl | rfl⟩
    · exact fun _ => rfl
    · exact fun h => absurd h (by decide)
    · exact fun h => absurd h (by decide)
    · exact fun _ => rfl
  keepable := by
    rintro _ _ t _ ⟨⟩ -
    exact ⟨⟨⟨_, rfl⟩, by decide, by decide⟩, ⟨_, rfl⟩, nofun⟩

theorem apart_sample : (sample "3").Apart := by
  have known : ∀ d, (sample "3").IsPartition d →
      d = ⟨true, ["cache-lowering-3-9-false--0-1.4.10"], false⟩ ∨
      d = ⟨true, ["cache-lowering-3-9-false--0-hmr-0-1.4.10"], false⟩ := by
    rintro d ⟨_, _, hot, rfl, rfl, directory⟩
    cases hot with
    | false => exact .inl (Except.ok.inj directory).symm
    | true => exact .inr (Except.ok.inj directory).symm
  have apart : Partitions.place ⟨true, ["cache-lowering-3-9-false--0-1.4.10"], false⟩ ≠
      Partitions.place ⟨true, ["cache-lowering-3-9-false--0-hmr-0-1.4.10"], false⟩ := by
    decide +kernel
  intro d e hd he same
  rcases known d hd with rfl | rfl <;> rcases known e he with rfl | rfl
  · rfl
  · exact absurd same apart
  · exact absurd same.symm apart
  · rfl

/-- A session among no files. -/
def sampleStart (version : Text) : Session := ⟨⟨{}, false, none, version⟩, ⟨[], []⟩, {}, []⟩

/-- Code to be lowered. -/
def sampleArtifact (code : Text) : Artifact := { code := .str code }

/-- The cache directory is set. -/
def sampleMove : Request := .move (some (Path.ofText "/cache"))

theorem allows_sampleMove : (sample "3").Allows sampleMove := by rintro _ ⟨⟩; rfl

/-- Code is lowered, written, and followed by other code. -/
def sampleRun : List Request :=
  [.lower (sampleArtifact "b") "A" false "now", .persist, .lower (sampleArtifact "a") "A" false "now"]

theorem allows_sampleRun : ∀ r ∈ sampleRun, (sample "3").Allows r := by
  simp only [sampleRun, List.forall_mem_cons]
  exact ⟨⟨by decide, "b", rfl, rfl, .inr rfl⟩, trivial, ⟨by decide, "a", rfl, rfl, .inl rfl⟩, nofun⟩

/-- The partition in use, without reloading. -/
def samplePartition : Path := ⟨true, ["cache-lowering-3-9-false--0-1.4.10"], false⟩

theorem directory_sample : ((sample "3").scope (sampleStart "3").build).directory
    (Path.ofText "/cache") "3" false = .ok samplePartition := by rfl

/-- A store of one entry that is not written yet. -/
def sampleStore (d : Path) (key : Text) (payload : Json) : Store where
  path := some (d.child "cache.json")
  entries := [(key, Store.entry payload "now")]
  dirty := true

theorem sound_sampleStore (d : Path) (key : Text) (payload : Json) (whole : key.Whole)
    (keepable : payload.Keepable) :
    Store.Sound (fun _ _ => True) (sampleStore d key payload).entries :=
  Store.Sound.nil.put (s := {}) whole (by decide) keepable trivial

/-- The files after the store of the partition was written among no files. -/
def sampleFiles (key : Text) (payload : Json) : FileTree where
  dirs := [[Text.ofString "cache-lowering-3-9-false--0-1.4.10"]]
  files := [(Partitions.place samplePartition,
    ⟨(Text.bytes (sampleStore samplePartition key payload).text).toArray⟩)]

theorem persistAll_sampleStore (key : Text) (payload : Json) (whole : key.Whole)
    (keepable : payload.Keepable) :
    Partitions.persistAll ⟨[], []⟩ [(samplePartition, sampleStore samplePartition key payload)] =
      ([(samplePartition, { sampleStore samplePartition key payload with dirty := false })],
        sampleFiles key payload, none) := by
  have dirs : FileTree.makeDirs ⟨[], []⟩ (samplePartition.child "cache.json").parent =
    (⟨[[Text.ofString "cache-lowering-3-9-false--0-1.4.10"]], []⟩, none) := rfl
  have written : (sampleStore samplePartition key payload).persist ⟨[], []⟩ =
      (_, sampleFiles key payload, none) :=
    Store.persist_of_ascii (sound_sampleStore _ _ _ whole keepable).ascii_text rfl rfl dirs rfl rfl rfl
  simp only [Partitions.persistAll, written]

/-- What is read from these files. -/
theorem opened_sampleFiles (key : Text) (payload : Json) (whole : key.Whole)
    (keepable : payload.Keepable) :
    Store.opened (sampleFiles key payload) (samplePartition.child "cache.json") = .ok
      { path := some (samplePartition.child "cache.json")
        entries := [(key, Store.entry payload.sorted "now")] } :=
  (sound_sampleStore samplePartition key payload whole keepable).opened_singleton rfl rfl

/-- Code is lowered and written. -/
def sampleSaved : List Request :=
  [.persist, .lower (sampleArtifact "a") "A" false "now", sampleMove]

/-- The session after code was lowered to a payload. -/
def sampleLowered (payload : Json) : Session where
  build := (sampleStart "3").build
  tree := ⟨[], []⟩
  partitions := ⟨some (Path.ofText "/cache"),
    [(samplePartition, sampleStore samplePartition "A\x00a" payload)]⟩
  calls := [(.str "a", "A")]

/-- And after the partition was written. -/
def sampleWritten (payload : Json) : Session := { sampleLowered payload with
  tree := sampleFiles "A\x00a" payload
  partitions := ⟨some (Path.ofText "/cache"),
    [(samplePartition, { sampleStore samplePartition "A\x00a" payload with dirty := false })]⟩ }

theorem after_sampleSaved {payload : Json} (keepable : payload.Keepable)
    (lowered : w.after (sampleStart "3") [.lower (sampleArtifact "a") "A" false "now", sampleMove] =
      sampleLowered payload) : w.after (sampleStart "3") sampleSaved = sampleWritten payload := by
  rw [sampleSaved, after, lowered]
  exact step_persist (persistAll_sampleStore "A\x00a" payload (by decide) keepable)

/-- What the tool's output is kept as. -/
def samplePayload : Json :=
  .obj [("code", .str "x"), ("map", .obj [("version", .int 3), ("mappings", .str "")])]

theorem keepable_samplePayload : samplePayload.Keepable := ⟨⟨_, rfl⟩, by decide, by decide⟩

theorem saved_sampleSaved :
    ((sample "3").after (sampleStart "3") sampleSaved).Saved samplePartition := by
  have written : (sample "3").after (sampleStart "3") sampleSaved = sampleWritten samplePayload :=
    after_sampleSaved keepable_samplePayload rfl
  rw [written]
  exact ⟨_, rfl, rfl⟩

/-- Code is lowered and written, and everything is started anew. -/
def sampleRestart : List Request := [sampleMove, .restart (sampleStart "3").build] ++ sampleSaved

theorem allows_sampleRestart : ∀ r ∈ sampleRestart, (sample "3").Allows r := by
  simp only [sampleRestart, sampleSaved, List.cons_append, List.nil_append, List.forall_mem_cons]
  exact ⟨allows_sampleMove, rfl, trivial, ⟨by decide, "a", rfl, rfl, .inl rfl⟩, allows_sampleMove,
    nofun⟩

/-- Code is not lowered again behind other code and after the partition was written, nor after it was
written and everything was started anew. -/
theorem calls_lower_again :
    ((sample "3").lower ((sample "3").after (sampleStart "3") (sampleRun ++ [sampleMove]))
      (sampleArtifact "a") "A" false "later").2.calls =
    ((sample "3").after (sampleStart "3") (sampleRun ++ [sampleMove])).calls ∧
    ((sample "3").lower ((sample "3").after (sampleStart "3") sampleRestart)
      (sampleArtifact "a") "A" false "later").2.calls =
    ((sample "3").after (sampleStart "3") sampleRestart).calls := by
  have all : ∀ r ∈ sampleRun ++ [sampleMove], (sample "3").Allows r := by
    simpa only [List.forall_mem_append, List.forall_mem_singleton] using
      ⟨allows_sampleRun, allows_sampleMove⟩
  have asked : (sample "3").Allows (.lower (sampleArtifact "a") "A" false "later") :=
    ⟨by decide, "a", rfl, rfl, .inl rfl⟩
  have start : (sample "3").Holds ((sample "3").after (sampleStart "3") [sampleMove]) :=
    (holds_start rfl fun _ => rfl).step fits_sample allows_sampleMove
  constructor
  · obtain ⟨d, part⟩ := start.exists_partition fits_sample rfl false
    have later := start.partition?_after fits_sample allows_sampleRun
      (by simp [sampleRun, Request.closes]) false
    rw [← after_append, part] at later
    exact (lower_after_eq_plain fits_sample rfl (fun _ => rfl) all asked).2.1 apart_sample []
      [.lower (sampleArtifact "b") "A" false "now", .persist] (sampleArtifact "a") false "now"
      [sampleMove] d rfl rfl ⟨_, rfl, rfl⟩ part later (by simp [Request.closes]) (.inl rfl)
  · exact (lower_after_eq_plain fits_sample rfl (fun _ => rfl) allows_sampleRestart asked).2.1
      apart_sample [sampleMove, .restart (sampleStart "3").build] [.persist] (sampleArtifact "a") false
      "now" [sampleMove] samplePartition rfl rfl ⟨_, rfl, rfl⟩
      (congrArg Except.toOption directory_sample) (congrArg Except.toOption directory_sample)
      (by simp [Request.closes]) (.inr saved_sampleSaved)

/-- A version that no file name can hold makes cached lowering fail where plain lowering does not. -/
theorem lower_null_version :
    ((sample "3\x00").lower ((sample "3\x00").after (sampleStart "3\x00") [sampleMove])
      (sampleArtifact "a") "A" false "now").1 = .error (.file .nullByte) ∧
    ∃ m, (sample "3\x00").plain ((sample "3\x00").after (sampleStart "3\x00") [sampleMove])
      (sampleArtifact "a") "A" false "now" = .ok m :=
  ⟨rfl, _, rfl⟩

/-- A tool that gives a list for a map. -/
def listMapped : World := { sample "3" with give _ _ := .ok Step.listMapped }

/-- A map that is a list is another one after its file was read, and so is the module's map. -/
theorem lower_listMapped :
    (listMapped.lower (listMapped.after (sampleStart "3") sampleRestart)
      (sampleArtifact "a") "A" false "later").1 =
        .ok ⟨"A", "A", .str "x", .obj [("3", .str "version")], []⟩ ∧
    listMapped.plain (listMapped.after (sampleStart "3") sampleRestart)
      (sampleArtifact "a") "A" false "later" =
        .ok ⟨"A", "A", .str "x", .obj [("version", .str "3")], []⟩ := by
  let s : Session := { sampleWritten Step.listMapped.payload with
    partitions := .moved (some (Path.ofText "/cache")) }
  have written : listMapped.after (sampleStart "3") sampleSaved =
      sampleWritten Step.listMapped.payload :=
    after_sampleSaved Step.keepable_payload_listMapped rfl
  have session : listMapped.after (sampleStart "3") sampleRestart = s := by
    rw [sampleRestart, after_append, written]
    rfl
  have load := opened_sampleFiles "A\x00a" _ (by decide) Step.keepable_payload_listMapped
  rw [Step.sorted_payload_listMapped] at load
  have name : Step.entryName listMapped.hashing "A" (sampleArtifact "a").code = .ok "A\x00a" := rfl
  have kept : (listMapped.lower s (sampleArtifact "a") "A" false "later").1 = _ :=
    lower_of_kept rfl directory_sample rfl load name rfl
  rw [session]
  exact ⟨kept.trans rfl, rfl⟩

/-- The cache directory under another name as well. -/
def respelled : World := { sample "3" with
  IsCache c := c = Path.ofText "/cache" ∨ c = Path.ofText "/x/../cache" }

theorem fits_respelled : respelled.Fits := { fits_sample with
  cache := by
    rintro _ (rfl | rfl)
    · exact ⟨by decide, by decide, by decide⟩
    · exact ⟨by decide, by decide, by decide⟩ }

/-- The partition under the other name. -/
def respelledPartition : Path := ⟨true, ["x", "..", "cache-lowering-3-9-false--0-1.4.10"], false⟩

/-- Other code is lowered and written by way of the other name, and then the cache directory has its
first name again. -/
def respelledRun : List Request :=
  [sampleMove, .persist, .lower (sampleArtifact "b") "A" false "now",
    .move (some (Path.ofText "/x/../cache"))] ++ sampleSaved

theorem allows_respelledRun : ∀ r ∈ respelledRun, respelled.Allows r := by
  have move : respelled.Allows sampleMove := by rintro _ ⟨⟩; exact .inl rfl
  simp only [respelledRun, sampleSaved, List.cons_append, List.nil_append, List.forall_mem_cons]
  exact ⟨move, trivial, ⟨by decide, "b", rfl, rfl, .inr rfl⟩, by rintro _ ⟨⟩; exact .inr rfl, trivial,
    ⟨by decide, "a", rfl, rfl, .inl rfl⟩, move, nofun⟩

/-- The session before the other code is lowered. -/
def respelledStart : Session := { sampleWritten samplePayload with
  partitions := .moved (some (Path.ofText "/x/../cache")) }

/-- The session after the run. The directory on the way is there, and the file has nothing but what
was written last. -/
def respelledEnd : Session where
  build := (sampleStart "3").build
  tree := {
    dirs := [[Text.ofString "cache-lowering-3-9-false--0-1.4.10"], [Text.ofString "x"]]
    files := [(Partitions.place samplePartition,
      ⟨(Text.bytes (sampleStore respelledPartition "A\x00b" samplePayload).text).toArray⟩)] }
  partitions := .moved (some (Path.ofText "/cache"))
  calls := [(.str "b", "A"), (.str "a", "A")]

/-- Nothing is read by way of a directory that is not there. -/
theorem lower_respelledStart :
    (respelled.lower respelledStart (sampleArtifact "b") "A" false "now").2 = { respelledStart with
      partitions := ⟨some (Path.ofText "/x/../cache"),
        [(respelledPartition, sampleStore respelledPartition "A\x00b" samplePayload)]⟩
      calls := respelledEnd.calls } := by rfl

theorem persistAll_respelled : Partitions.persistAll respelledStart.tree
      [(respelledPartition, sampleStore respelledPartition "A\x00b" samplePayload)] =
    ([(respelledPartition, { sampleStore respelledPartition "A\x00b" samplePayload with
      dirty := false })], respelledEnd.tree, none) := by
  have ascii := (sound_sampleStore respelledPartition "A\x00b" samplePayload (by decide)
    keepable_samplePayload).ascii_text
  have dirs : respelledStart.tree.makeDirs (respelledPartition.child "cache.json").parent =
    ({ respelledStart.tree with dirs := respelledEnd.tree.dirs }, none) := rfl
  have located : FileTree.locate { respelledStart.tree with dirs := respelledEnd.tree.dirs }
    (respelledPartition.child "cache.json") = .ok (Partitions.place samplePartition) := rfl
  have written : (sampleStore respelledPartition "A\x00b" samplePayload).persist respelledStart.tree =
      (_, respelledEnd.tree, none) :=
    Store.persist_of_ascii ascii rfl rfl dirs located rfl rfl
  simp only [Partitions.persistAll, written]

theorem after_respelledRun : respelled.after (sampleStart "3") respelledRun = respelledEnd := by
  have written : respelled.after (sampleStart "3") sampleSaved = sampleWritten samplePayload :=
    after_sampleSaved keepable_samplePayload rfl
  rw [respelledRun, after_append, written]
  calc respelled.after (sampleWritten samplePayload) _
    _ = respelled.step (respelled.step (respelled.lower respelledStart (sampleArtifact "b") "A" false
          "now").2 .persist) sampleMove := rfl
    _ = respelledEnd := by
      rw [lower_respelledStart, step_persist persistAll_respelled]
      rfl

/-- Code is lowered again although it was written, if its partition was written under another name
since then. -/
theorem calls_respelled :
    respelled.Fits ∧ (∀ r ∈ respelledRun, respelled.Allows r) ∧
    (respelled.after (sampleStart "3") sampleSaved).Saved samplePartition ∧
    respelled.partition? (respelled.after (sampleStart "3") respelledRun) false =
      some samplePartition ∧
    (respelled.lower (respelled.after (sampleStart "3") respelledRun) (sampleArtifact "a") "A" false
        "later").2.calls =
      (.str "a", Text.ofString "A") :: (respelled.after (sampleStart "3") respelledRun).calls := by
  have load : Store.opened respelledEnd.tree (samplePartition.child "cache.json") = .ok _ :=
    (sound_sampleStore respelledPartition "A\x00b" samplePayload (by decide)
      keepable_samplePayload).opened_singleton rfl rfl
  have name : Step.entryName respelled.hashing "A" (sampleArtifact "a").code = .ok "A\x00a" := rfl
  rw [after_respelledRun]
  exact ⟨fits_respelled, allows_respelledRun, saved_sampleSaved,
    congrArg Except.toOption directory_sample,
    calls_lower_of_missing rfl directory_sample rfl load name rfl⟩

end World

end Lowering

end Componentry
