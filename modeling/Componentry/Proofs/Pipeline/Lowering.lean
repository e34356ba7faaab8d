import Componentry.Proofs.Cache.Payload
import Componentry.Proofs.Pipeline.Partition
import Componentry.Proofs.Pipeline.Steady
import Componentry.Proofs.SourceMap.Reorder

/-!
# Lowering with and without partitions

What the lowering tool gives for code at a path is kept in a partition under a digest of the two. As
long as no digests collide, what a sound partition has for them is what the tool gives for them, up
to the order of fields. So a module is lowered to the same, up to that order, with whatever is in
the partitions and with no partitions at all.
-/

namespace Componentry

variable {σ : Type}

/-! ## What the tool gives -/

/-- The text under whose digest the lowered form of code at a path is kept. -/
def loweringText (path code : Text) : Text := path ++ "\x00" ++ code

/-- What is kept of lowered code. -/
def Transformed.payload (t : Transformed) : Json :=
  .obj [("code", t.code), ("map", .ofOption t.map)]

/-- Are code and map there, so that they are worth keeping? -/
def Transformed.isOutput (t : Transformed) : Bool := t.code.truthy && (Json.ofOption t.map).truthy

theorem loweringText_inj {path path' code code' : Text} (h : .char '\x00' ∉ path)
    (h' : .char '\x00' ∉ path') (same : loweringText path code = loweringText path' code') :
    path = path' ∧ code = code' := by
  induction path generalizing path' with
  | nil =>
    cases path' with
    | nil => exact ⟨rfl, List.append_cancel_left same⟩
    | cons c rest =>
      have first : .char '\x00' = c := (List.cons.inj same).1
      exact absurd (first ▸ List.mem_cons_self ..) h'
  | cons c rest ih =>
    cases path' with
    | nil =>
      have first : c = .char '\x00' := (List.cons.inj same).1
      exact absurd (first ▸ List.mem_cons_self ..) h
    | cons c' rest' =>
      obtain ⟨rfl, rest_⟩ := List.cons.inj same
      rw [List.mem_cons, not_or] at h h'
      obtain ⟨rfl, rfl⟩ := ih h.2 h'.2 (show loweringText rest code = loweringText rest' code' from rest_)
      exact ⟨rfl, rfl⟩

/-- A lowering tool, and the digests that name what it gives. -/
structure Lowerer (σ : Type) where
  tool : Action σ (LoweringTool σ)
  hashing : Hashing

/-- The tool that lowering asks. -/
def LoweringContext.lowerer (c : LoweringContext σ) : Lowerer σ := ⟨c.tool, c.scope.hashing⟩

/-- The lowering tool of a project. -/
def Project.lowerer (p : Project σ) : Lowerer σ := ⟨p.tools.lowering, p.hashing⟩

namespace Lowerer

variable (l : Lowerer σ)

/-- Is the tool a function of what it is given? -/
structure Steady : Prop where
  tool : l.tool.Steady
  lower : ∀ tool, l.tool.Gives tool → ∀ code filename, (tool.lower code filename).Steady

/-- Is `t` what the tool gives for code at a path? -/
def Lowers (path code : Text) (t : Transformed) : Prop :=
  ∃ tool, l.tool.Gives tool ∧ (tool.lower (.str code) path).Gives t

/-- Lowered code with its map, from the tool in a state. -/
def lowersTo (s : σ) (path code : Text) : Except Failure (Json × Json) := do
  let _ ← Step.entryName l.hashing path (.str code)
  let tool ← (l.tool.run s).1
  let t ← ((tool.lower (.str code) path).run s).1
  return (t.code, .ofOption t.map)

/-- The payload that is right for a digest of code at a path, of those that occur: what the tool
gives for them, if it is worth keeping. -/
def Right (Occurs : Text → Text → Prop) (key : Text) (payload : Json) : Prop :=
  ∃ path code t, Occurs path code ∧ key = l.hashing.entry (loweringText path code) ∧
    l.Lowers path code t ∧ t.isOutput ∧ payload = t.payload.sorted

/-- Can what the tool gives for code and paths that occur be kept, and be told apart? -/
structure Keeps (Occurs : Text → Text → Prop) : Prop where
  noNull : ∀ path code, Occurs path code → .char '\x00' ∉ path
  noCollision : ∀ path code path' code', Occurs path code → Occurs path' code' →
    l.hashing.entry (loweringText path code) = l.hashing.entry (loweringText path' code') →
    loweringText path code = loweringText path' code'
  whole : ∀ path code, Occurs path code → (l.hashing.entry (loweringText path code)).Whole
  keepable : ∀ path code t, Occurs path code → l.Lowers path code t → t.isOutput →
    t.payload.Keepable ∧ (∃ s, t.code = .str s) ∧ ∀ items, t.map ≠ some (.arr items)

variable {l}

theorem lowersTo_eq {path code : Text} {t : Transformed} (steady : l.Steady)
    (h : l.Lowers path code t) {key : Text}
    (named : Step.entryName l.hashing path (.str code) = .ok key) (s : σ) :
    l.lowersTo s path code = .ok (t.code, .ofOption t.map) := by
  obtain ⟨tool, ⟨s₁, asked⟩, ⟨s₂, given⟩⟩ := h
  have tool_ : (l.tool.run s).1 = .ok tool := (steady.tool s s₁).trans asked
  have given_ : ((tool.lower (.str code) path).run s).1 = .ok t :=
    (steady.lower tool ⟨s₁, asked⟩ _ _ s s₂).trans given
  simp only [lowersTo, named, tool_, given_, bind, Except.bind]
  rfl

theorem entryName_eq_ok {path code key : Text}
    (h : Step.entryName l.hashing path (.str code) = .ok key) :
    key = l.hashing.entry (loweringText path code) := by
  rw [Step.entryName] at h
  split at h
  · cases h
  · exact (Except.ok.inj h).symm

/-- **What a sound partition has for code at a path is what the tool gives for it**, up to the order
of fields. -/
theorem Keeps.of_right {Occurs : Text → Text → Prop} (h : l.Keeps Occurs)
    {path code : Text} (occurs : Occurs path code) {payload : Json}
    (right : l.Right Occurs (l.hashing.entry (loweringText path code)) payload.sorted) :
    ∃ t, l.Lowers path code t ∧ t.payload.Keepable ∧ payload.fieldD "code" = t.code ∧
      (payload.fieldD "map").sorted = (Json.ofOption t.map).sorted ∧
      (Json.ofOption t.map).isStorable ∧ ∀ items, Json.ofOption t.map ≠ .arr items := by
  obtain ⟨path', code', t, occurs', key, lowers, output, same⟩ := right
  obtain ⟨rfl, rfl⟩ := loweringText_inj (h.noNull _ _ occurs) (h.noNull _ _ occurs')
    (h.noCollision _ _ _ _ occurs occurs' key)
  obtain ⟨keepable, ⟨s, text⟩, noList⟩ := h.keepable _ _ t occurs lowers output
  refine ⟨t, lowers, keepable, ?_, ?_, ?_, ?_⟩
  · exact (Json.fieldD_eq_str same keepable.2.1 (k := "code") text).trans text.symm
  · exact Json.fieldD_of_sorted_eq same keepable.2.1 "map"
  · exact Json.isStorable_fieldD keepable.2.1 "map"
  · intro items
    have none_ := noList items
    cases hm : t.map with
    | none => simp [Json.ofOption]
    | some map =>
      rintro rfl
      exact none_ hm

end Lowerer

/-- The lowering tool of a steady toolchain is steady. -/
theorem Toolchain.Steady.lowerer {p : Project σ} (h : p.tools.Steady) : p.lowerer.Steady :=
  ⟨h.lowering, h.lower⟩

/-! ## Opening a partition -/

namespace Step

/-- What lowering finds: sound partitions, and beside the cache directory, if there is one, the
files of sound stores. -/
structure Prepared (c : LoweringContext σ) (version : Text) (Right : Text → Json → Prop)
    (ps : Partitions) : Prop where
  answers : ∀ s, (c.version.run s).1 = .ok version
  sound : ps.Sound c.scope version Right
  fits : ∀ cache, ps.cache = some cache → c.scope.Fits version cache
  keeps : ∀ cache, ps.cache = some cache → c.tree.KeepsPartitions c.scope version Right cache

/-- A store of the partition that lowering uses. -/
def IsPartition (c : LoweringContext σ) (version : Text) (Right : Text → Json → Prop) (hot : Bool)
    (ps : Partitions) (d : Path) (s : Store) : Prop :=
  Store.Sound Right s.entries ∧ s.path = some (d.child "cache.json") ∧
    ∃ cache, ps.cache = some cache ∧ c.scope.directory cache version hot = .ok d

variable {c : LoweringContext σ} {version : Text} {Right : Text → Json → Prop} {q : Progress σ}

/-- Partitions that changed beside the same cache directory, and stayed sound. -/
theorem Prepared.of_sound {ps ps' : Partitions} (h : Prepared c version Right ps)
    (same : ps'.cache = ps.cache) (sound : ps'.Sound c.scope version Right) :
    Prepared c version Right ps' :=
  ⟨h.answers, sound, same ▸ h.fits, same ▸ h.keeps⟩

/-- How a partition is opened: without a cache directory there is none, it may be open already, and
else it is loaded from its file. -/
inductive Opens (c : LoweringContext σ) (version : Text) (hot : Bool) (ps : Partitions) :
    Option (Path × Store) → Partitions → Prop
  | nowhere (beside : ps.cache = none) : Opens c version hot ps none ps
  | already {cache d : Path} {s : Store} (beside : ps.cache = some cache)
      (directory : c.scope.directory cache version hot = .ok d) (opened : ps.store? d = some s) :
      Opens c version hot ps (some (d, s)) ps
  | loaded {cache d : Path} {s : Store} (beside : ps.cache = some cache)
      (directory : c.scope.directory cache version hot = .ok d) (closed : ps.store? d = none)
      (load : Store.opened c.tree (d.child "cache.json") = .ok s) :
      Opens c version hot ps (some (d, s)) (ps.withStore d s)

theorem Opens.cache {hot : Bool} {ps ps' : Partitions} {store : Option (Path × Store)}
    (h : Opens c version hot ps store ps') : ps'.cache = ps.cache := by
  cases h <;> rfl

/-- At most the version was asked for. -/
def OnlyVersion (c : LoweringContext σ) (s s' : σ) : Prop := s' = s ∨ s' = (c.version.run s).2

/-- A partition that is not open is read from its file. -/
theorem from_openPartition_of_closed {hot : Bool} {cache d : Path} {s : Store}
    (answer : (c.version.run q.tools).1 = .ok version) (beside : q.partitions.cache = some cache)
    (directory : c.scope.directory cache version hot = .ok d)
    (closed : q.partitions.store? d = none)
    (load : Store.opened c.tree (d.child "cache.json") = .ok s) :
    (openPartition c hot).from_ q = (.ok (some (d, s)), { q with
      tools := (c.version.run q.tools).2
      partitions := q.partitions.withStore d s
      log := q.log ++ [⟨q.round, "lowering", .debug, "Lowering cache partition " ++ d.toText⟩] }) := by
  simp only [openPartition, partition, from_bind, partitions, from_of, beside, from_tool, answer,
    check, directory, from_pure, closed, note, load, setPartitions]

/-- **A partition can always be opened**, and its store is sound. -/
theorem exists_openPartition (h : Prepared c version Right q.partitions) (hot : Bool) :
    ∃ r tools ps log, (openPartition c hot).from_ q = (.ok r, { q with tools, partitions := ps, log }) ∧
      OnlyVersion c q.tools tools ∧ Opens c version hot q.partitions r ps ∧
      Prepared c version Right ps ∧ ∀ d s, r = some (d, s) → IsPartition c version Right hot ps d s := by
  cases beside : q.partitions.cache with
  | none =>
    refine ⟨none, q.tools, q.partitions, q.log, ?_, .inl rfl, .nowhere beside, h, by simp⟩
    simp [openPartition, partition, partitions, from_bind, beside]
  | some cache =>
    obtain ⟨d, directory, named⟩ := (h.fits cache beside).exists_partition hot
    cases opened : q.partitions.store? d with
    | some s =>
      obtain ⟨sound, path, -⟩ := h.sound (d, s) (Partitions.mem_of_store? opened)
      have run : (openPartition c hot).from_ q =
          (.ok (some (d, s)), { q with tools := (c.version.run q.tools).2 }) := by
        simp only [openPartition, partition, from_bind, partitions, from_of, beside, from_tool,
          h.answers, check, directory, from_pure, opened]
      refine ⟨_, _, _, _, run, .inr rfl, .already beside directory opened, h, ?_⟩
      rintro _ _ ⟨⟩
      exact ⟨sound, path, cache, beside, directory⟩
    | none =>
      obtain ⟨entries, load, sound⟩ := Store.exists_load (h.keeps cache beside hot d directory) named
      have stored : Store.opened c.tree (d.child "cache.json") =
          .ok { path := some (d.child "cache.json"), entries } := by
        rw [Store.opened, load]
        rfl
      have changed : (q.partitions.withStore d { path := some (d.child "cache.json"), entries }).Sound
          c.scope version Right := h.sound.withStore sound rfl beside directory
      refine ⟨_, _, _, _, from_openPartition_of_closed (h.answers _) beside directory opened stored,
        .inr rfl, .loaded beside directory opened stored, h.of_sound rfl changed, ?_⟩
      rintro _ _ ⟨⟩
      exact ⟨sound, rfl, cache, beside, directory⟩

/-! ## Lowering code -/

end Step

/-- The partitions after lowered code came from the tool: it is kept in the store, if there is one,
unless code or map are missing. -/
def Partitions.keep (ps : Partitions) (store : Option (Path × Store)) (key stamp : Text) :
    Except Failure (Json × Json) → Partitions
  | .error _ => ps
  | .ok (code, map) =>
    match store with
    | none => ps
    | some (d, s) =>
      if code.truthy && map.truthy then
        ps.withStore d (s.put key (.obj [("code", code), ("map", map)]) stamp)
      else ps

theorem Partitions.cache_keep (ps : Partitions) (store : Option (Path × Store)) (key stamp : Text)
    (r : Except Failure (Json × Json)) : (ps.keep store key stamp r).cache = ps.cache := by
  cases r with
  | error e => rfl
  | ok x =>
    cases store with
    | none => rfl
    | some f =>
      rw [keep]
      split <;> rfl

namespace Step

section

variable {c : LoweringContext σ} {version : Text} {q : Progress σ} {Occurs : Text → Text → Prop}
  {path code key : Text}

/-- Lowering afresh gives what the tool gives, and keeps it where it belongs. -/
theorem exists_lowerAfresh (steady : c.lowerer.Steady) (keeps : c.lowerer.Keeps Occurs)
    (time : c.stamp.Whole) (occurs : Occurs path code) {hot : Bool} {store : Option (Path × Store)}
    (h : Prepared c version (c.lowerer.Right Occurs) q.partitions)
    (part : ∀ d s, store = some (d, s) →
      IsPartition c version (c.lowerer.Right Occurs) hot q.partitions d s)
    (named : entryName c.lowerer.hashing path (.str code) = .ok key) (s₀ : σ) :
    ∃ tools, (lowerAfresh c store key path (.str code)).from_ q =
        (c.lowerer.lowersTo s₀ path code, { q with
          tools, partitions := q.partitions.keep store key c.stamp (c.lowerer.lowersTo s₀ path code) }) ∧
      Prepared c version (c.lowerer.Right Occurs)
        (q.partitions.keep store key c.stamp (c.lowerer.lowersTo s₀ path code)) := by
  have ask : (c.lowerer.tool.run s₀).1 = (c.tool.run q.tools).1 := steady.tool s₀ q.tools
  cases asked : (c.tool.run q.tools).1 with
  | error e =>
    have none_ : c.lowerer.lowersTo s₀ path code = .error e := by
      simp only [Lowerer.lowersTo, named, ask, asked, bind, Except.bind]
    refine ⟨(c.tool.run q.tools).2, ?_, by rw [none_]; exact h⟩
    simp only [lowerAfresh, from_bind, from_tool, asked, none_, Partitions.keep]
  | ok tool =>
    have lower := steady.lower tool ⟨_, asked⟩ (.str code) path s₀ (c.tool.run q.tools).2
    let tools := ((tool.lower (.str code) path).run (c.tool.run q.tools).2).2
    cases given : ((tool.lower (.str code) path).run (c.tool.run q.tools).2).1 with
    | error e =>
      have none_ : c.lowerer.lowersTo s₀ path code = .error e := by
        simp only [Lowerer.lowersTo, named, ask, asked, lower, given, bind, Except.bind]
      refine ⟨tools, ?_, by rw [none_]; exact h⟩
      simp only [lowerAfresh, from_bind, from_tool, asked, given, none_, Partitions.keep]
      rfl
    | ok t =>
      have lowers : c.lowerer.Lowers path code t := ⟨tool, ⟨_, asked⟩, ⟨_, given⟩⟩
      rw [Lowerer.lowersTo_eq steady lowers named]
      refine ⟨tools, ?_⟩
      cases store with
      | none =>
        refine ⟨?_, h⟩
        simp only [lowerAfresh, from_bind, from_tool, asked, given]
        rfl
      | some pair =>
        obtain ⟨d, s⟩ := pair
        obtain ⟨sound, file, cache, beside, directory⟩ := part d s rfl
        rw [Partitions.keep]
        by_cases output : t.code.truthy && (Json.ofOption t.map).truthy
        · obtain ⟨keepable, -⟩ := keeps.keepable path code t occurs lowers output
          have key_ := Lowerer.entryName_eq_ok named
          have right : c.lowerer.Right Occurs key t.payload.sorted :=
            ⟨path, code, t, occurs, key_, lowers, output, rfl⟩
          have put := sound.put (key_ ▸ keeps.whole path code occurs) time keepable right
          rw [if_pos output]
          refine ⟨?_, h.of_sound rfl (h.sound.withStore put file beside directory)⟩
          simp only [lowerAfresh, from_bind, from_tool, asked, given]
          rw [if_pos output]
          rfl
        · rw [if_neg output]
          refine ⟨?_, h⟩
          simp only [lowerAfresh, from_bind, from_tool, asked, given]
          rw [if_neg output]
          rfl

/-- Lowered code with maps that differ in the order of fields at most, which may only be where maps
do not depend on it. -/
def AlikeLowered (a b : Json × Json) : Prop :=
  a.1 = b.1 ∧ a.2.sorted = b.2.sorted ∧
    (a.2 = b.2 ∨ b.2.isStorable ∧ ∀ items, b.2 ≠ .arr items)

theorem AlikeLowered.refl (a : Json × Json) : AlikeLowered a a := ⟨rfl, rfl, .inl rfl⟩

/-- What the store of a partition has under a key. -/
def kept? (store : Option (Path × Store)) (key : Text) : Option Json :=
  store.bind fun (_, s) => s.get? key

theorem lowered_eq (c : LoweringContext σ) (path : Text) (code : Json) (hot : Bool) :
    lowered c path code hot = openPartition c hot >>= fun store =>
      check (entryName c.scope.hashing path code) >>= fun key =>
        match kept? store key with
        | some payload =>
          note "lowering" ("Using cached lowering output for " ++ path) >>= fun _ =>
            pure (payload.fieldD "code", payload.fieldD "map")
        | none => lowerAfresh c store key path code := rfl

section

variable {path key : Text} {code : Json} {hot : Bool} {store : Option (Path × Store)}
  {q' : Progress σ}

/-- Code that the store has is given from there. -/
theorem from_lowered_of_kept (opened : (openPartition c hot).from_ q = (.ok store, q'))
    (name : entryName c.scope.hashing path code = .ok key) {payload : Json}
    (found : kept? store key = some payload) :
    (lowered c path code hot).from_ q = (.ok (payload.fieldD "code", payload.fieldD "map"),
      { q' with log := q'.log ++
        [⟨q'.round, "lowering", .debug, "Using cached lowering output for " ++ path⟩] }) := by
  simp only [lowered_eq, from_bind, opened, check, from_of, name, found, note, from_pure]

/-- Code that it does not have is lowered afresh. -/
theorem from_lowered_of_missing (opened : (openPartition c hot).from_ q = (.ok store, q'))
    (name : entryName c.scope.hashing path code = .ok key) (missing : kept? store key = none) :
    (lowered c path code hot).from_ q = (lowerAfresh c store key path code).from_ q' := by
  simp only [lowered_eq, from_bind, opened, check, from_of, name, missing]

end

/-- How code is served: a partition is opened, and if it has an entry of that name, the tool is not
asked; else it is, and what it gives is kept. -/
inductive Served (c : LoweringContext σ) (version : Text) (hot : Bool) (named : Except Failure Text)
    (given : Except Failure (Json × Json)) (q : Progress σ) (tools : σ) : Partitions → Prop
  | unnamed {store : Option (Path × Store)} {ps : Partitions} {e : Failure}
      (opens : Opens c version hot q.partitions store ps) (unable : named = .error e)
      (unasked : OnlyVersion c q.tools tools) : Served c version hot named given q tools ps
  | found {store : Option (Path × Store)} {ps : Partitions} {key : Text} {payload : Json}
      (opens : Opens c version hot q.partitions store ps) (name : named = .ok key)
      (kept : kept? store key = some payload) (unasked : OnlyVersion c q.tools tools) :
      Served c version hot named given q tools ps
  | afresh {store : Option (Path × Store)} {ps : Partitions} {key : Text}
      (opens : Opens c version hot q.partitions store ps) (name : named = .ok key)
      (missing : kept? store key = none) :
      Served c version hot named given q tools (ps.keep store key c.stamp given)

theorem Served.cache {hot : Bool} {named : Except Failure Text} {given : Except Failure (Json × Json)}
    {tools : σ} {ps : Partitions} (h : Served c version hot named given q tools ps) :
    ps.cache = q.partitions.cache := by
  cases h with
  | unnamed opens => exact opens.cache
  | found opens => exact opens.cache
  | afresh opens => exact (Partitions.cache_keep ..).trans opens.cache

/-- **Code is lowered to what the tool gives for it**, from whatever partitions. -/
theorem exists_lowered (steady : c.lowerer.Steady) (keeps : c.lowerer.Keeps Occurs)
    (time : c.stamp.Whole) (occurs : Occurs path code) (hot : Bool)
    (h : Prepared c version (c.lowerer.Right Occurs) q.partitions) (s₀ : σ) :
    ∃ r tools ps log, (lowered c path (.str code) hot).from_ q =
        (r, { q with tools, partitions := ps, log }) ∧
      Prepared c version (c.lowerer.Right Occurs) ps ∧
      Served c version hot (entryName c.lowerer.hashing path (.str code))
        (c.lowerer.lowersTo s₀ path code) q tools ps ∧
      Agree AlikeLowered r (c.lowerer.lowersTo s₀ path code) := by
  obtain ⟨store, tools, ps, log, opened, unasked, opens, prepared, part⟩ := exists_openPartition h hot
  cases named : entryName c.lowerer.hashing path (.str code) with
  | error e =>
    have none_ : c.lowerer.lowersTo s₀ path code = .error e := by
      rw [Lowerer.lowersTo, named]
      rfl
    refine ⟨.error e, tools, ps, log, ?_, prepared, .unnamed opens rfl unasked,
      by rw [none_]; exact .error e⟩
    rw [LoweringContext.lowerer] at named
    simp only [lowered_eq, from_bind, opened, check, from_of, named]
  | ok key =>
    have name : entryName c.scope.hashing path (.str code) = .ok key := named
    cases found : kept? store key with
    | some payload =>
      obtain ⟨⟨d, s⟩, rfl, kept⟩ := Option.bind_eq_some_iff.mp found
      obtain ⟨-, right⟩ := (part d s rfl).1.of_get? kept
      rw [Lowerer.entryName_eq_ok named] at right
      obtain ⟨t, lowers, -, code_, map, storable, noList⟩ := keeps.of_right occurs right
      refine ⟨_, tools, ps, _, from_lowered_of_kept opened name found, prepared,
        .found opens rfl found unasked, ?_⟩
      rw [Lowerer.lowersTo_eq steady lowers named]
      exact .ok ⟨code_, map, .inr ⟨storable, noList⟩⟩
    | none =>
      obtain ⟨tools', run, prepared'⟩ :=
        exists_lowerAfresh (q := { q with tools, partitions := ps, log })
          steady keeps time occurs prepared part named s₀
      refine ⟨c.lowerer.lowersTo s₀ path code, tools', _, log,
        (from_lowered_of_missing opened name found).trans run, prepared', .afresh opens rfl found, ?_⟩
      exact (Agree.of_eq rfl).mono (by rintro a _ rfl; exact .refl a)

/-! ## Lowering a module -/

/-- The module that lowered code makes. -/
def finish (artifact : Artifact) (path : Text) (lowered : Json × Json) : Except Failure Module := do
  if !lowered.1.truthy || !lowered.2.truthy then .error (.noOutput Failure.noOutputMessage)
  else
    let composed ← (SourceMap.compose (some lowered.2) artifact.map).mapError Failure.sourceMap
    return {
      sourcePath := path, path, data := lowered.1, sourceMap := .ofOption composed
      stylesheets := artifact.stylesheets }

theorem from_lower (c : LoweringContext σ) (artifact : Artifact) (path : Text) (hot : Bool)
    (q : Progress σ) : (lower c artifact path hot).from_ q =
      (lowered c path artifact.code hot >>= fun x => check (finish artifact path x)).from_ q := by
  rw [lower, from_bind, from_bind]
  rcases (lowered c path artifact.code hot).from_ q with ⟨r, q'⟩
  cases r with
  | error e => rfl
  | ok x =>
    obtain ⟨code, map⟩ := x
    simp only [finish, check, from_of]
    by_cases missing : !code.truthy || !map.truthy
    · simp only [if_pos missing]
      rfl
    · simp only [if_neg missing]
      cases SourceMap.compose (some map) artifact.map <;> rfl

/-- Making the module changes nothing else. -/
theorem snd_from_lower (c : LoweringContext σ) (artifact : Artifact) (path : Text) (hot : Bool)
    (q : Progress σ) : ((lower c artifact path hot).from_ q).2 =
      ((lowered c path artifact.code hot).from_ q).2 := by
  rw [from_lower, from_bind]
  rcases (lowered c path artifact.code hot).from_ q with ⟨r, q'⟩
  cases r with
  | error e => rfl
  | ok x => rfl

/-- A module is made of the code that the store has. -/
theorem from_lower_of_kept {artifact : Artifact} {path key : Text} {payload : Json} {hot : Bool}
    {store : Option (Path × Store)} {q' : Progress σ}
    (opened : (openPartition c hot).from_ q = (.ok store, q'))
    (name : entryName c.scope.hashing path artifact.code = .ok key)
    (found : kept? store key = some payload) :
    (lower c artifact path hot).from_ q =
      (finish artifact path (payload.fieldD "code", payload.fieldD "map"), { q' with
        log := q'.log ++
          [⟨q'.round, "lowering", .debug, "Using cached lowering output for " ++ path⟩] }) := by
  rw [from_lower, from_bind, from_lowered_of_kept opened name found]
  rfl

/-- Lowered code that is alike makes modules that are alike. -/
theorem agree_finish (artifact : Artifact) (path : Text) {a b : Json × Json} (h : AlikeLowered a b) :
    Agree (fun m n => m.normal = n.normal) (finish artifact path a) (finish artifact path b) := by
  obtain ⟨code, map⟩ := a
  obtain ⟨code', map'⟩ := b
  obtain ⟨rfl, same, order⟩ := h
  have truthy : map.truthy = map'.truthy := by
    rw [← Json.truthy_sorted, same, Json.truthy_sorted]
  have composed : Agree (fun a b => a.map Json.sorted = b.map Json.sorted)
      (SourceMap.compose (some map) artifact.map) (SourceMap.compose (some map') artifact.map) := by
    rcases order with rfl | ⟨storable, noList⟩
    · exact (Agree.of_eq rfl).mono (by rintro a _ rfl; rfl)
    · exact SourceMap.agree_compose same storable noList artifact.map
  simp only [finish, truthy]
  split
  · exact .error _
  · refine (composed.mapError Failure.sourceMap).bind fun a b alike => .ok ?_
    have sorted (map : Option Json) : (Json.ofOption map).sorted = .ofOption (map.map Json.sorted) := by
      cases map <;> rfl
    simp only [Module.normal, sorted, alike]

/-- Code with a list for a map. Such a map is read as one field, from the names of the fields of its
object, so that it matters which of them stands first. -/
def listMapped : Transformed where
  code := .str "x"
  map := some (.arr [.obj [("version", .int 0), ("3", .int 0)]])

theorem keepable_payload_listMapped : listMapped.payload.Keepable :=
  ⟨⟨_, rfl⟩, by decide, by decide⟩

theorem sorted_payload_listMapped : listMapped.payload.sorted =
    .obj [("code", .str "x"), ("map", .arr [.obj [("3", .int 0), ("version", .int 0)]])] := by
  have inner : Json.sortFields [(Text.ofString "version", .int 0), (Text.ofString "3", .int 0)] =
      [(Text.ofString "3", .int 0), (Text.ofString "version", .int 0)] := by
    refine (Json.sortFields_eq_of_perm (.swap ..) ?_).trans (Json.sortFields_of_pairwise ?_)
    · show [Text.ofString "version", Text.ofString "3"].Nodup
      decide
    · show [Text.ofString "3", Text.ofString "version"].Pairwise _
      decide
  have outer (map : Json) : Json.sortFields [(Text.ofString "code", .str "x"),
      (Text.ofString "map", map)] = [(Text.ofString "code", .str "x"), (Text.ofString "map", map)] :=
    Json.sortFields_of_pairwise (show [Text.ofString "code", Text.ofString "map"].Pairwise _ by decide)
  simp only [listMapped, Transformed.payload, Json.ofOption, Json.sorted, Json.sortedFields,
    Json.sortedItems, inner, outer]

/-- **A module is lowered to the same**, up to the order of fields, from whatever partitions. -/
theorem exists_lower (steady : c.lowerer.Steady) (keeps : c.lowerer.Keeps Occurs)
    (time : c.stamp.Whole) {artifact : Artifact} (text : artifact.code = .str code)
    (occurs : Occurs path code) (hot : Bool)
    (h : Prepared c version (c.lowerer.Right Occurs) q.partitions) (s₀ : σ) :
    ∃ r tools ps log, (lower c artifact path hot).from_ q =
        (r, { q with tools, partitions := ps, log }) ∧
      Prepared c version (c.lowerer.Right Occurs) ps ∧
      Served c version hot (entryName c.lowerer.hashing path (.str code))
        (c.lowerer.lowersTo s₀ path code) q tools ps ∧
      Agree (fun m n => m.normal = n.normal) r
        (c.lowerer.lowersTo s₀ path code >>= finish artifact path) := by
  obtain ⟨r, tools, ps, log, run, prepared, served, agree⟩ :=
    exists_lowered steady keeps time occurs hot h s₀
  refine ⟨r >>= finish artifact path, tools, ps, log, ?_, prepared, served,
    agree.bind fun a b => agree_finish artifact path⟩
  rw [from_lower, text, from_bind, run]
  cases r <;> rfl

end

end Step

end Componentry
