import Componentry.Compiler.Basic
import Componentry.Compiler.Batch
import Componentry.Proofs.Cache.Recent
import Componentry.Proofs.Compiler.Uncached

/-!
# Sound compilers

A compiler is sound when everything that it holds of earlier compiles is right: the results in
memory and on disk for the digests of documents, and what is in the partitions for the digests of
code. Looking a result up, holding a result that is right, and writing the caches keep a compiler
sound, and the files of its caches with it.
-/

namespace Componentry

variable {σ : Type}

/-- What stays as it is from batch to batch: the project, files that styles cannot tell from those
of any batch, the version of the markup tool, the documents with whether their modules are
replaceable, a state of the tools, and the cache directory, if one is used. -/
structure Setting (σ : Type) where
  project : Project σ
  base : FileTree
  version : Text
  docs : Document → Bool → Prop
  tools : σ
  dir : Path

namespace Setting

variable (w : Setting σ)

/-- Can what the documents compile to be kept, and be told apart? -/
abbrev Cacheable : Prop := w.project.Cacheable w.base w.version w.docs

/-- What a document compiles to. -/
abbrev expected (d : Document) (hot : Bool) : Option Result :=
  w.project.expected w.base w.tools d hot

/-- The scope of the project's partitions. -/
abbrev scope : PartitionScope := (w.project.lowering w.base).scope

/-- The result that is right for a digest: what a document with the digest compiles to, up to the
order of fields. -/
def RightResult (digest : Text) (r : Result) : Prop :=
  ∃ d hot r₀, w.docs d hot ∧ w.project.digest? w.version d hot = some digest ∧
    w.expected d hot = some r₀ ∧ r.normal = r₀.normal

/-- The payload that is right for a digest. -/
def RightPayload (digest : Text) (payload : Json) : Prop :=
  ∃ r, w.RightResult digest r ∧ payload = r.toJson.sorted

/-- The payload that is right for a digest of code at a path. -/
abbrev RightLowering : Text → Json → Prop :=
  w.project.lowerer.Right (w.project.Occurs w.base w.docs)

/-- Are the files of the caches, if there are any, those of sound stores? -/
structure Holds (tree : FileTree) : Prop where
  results : tree.Keeps (w.dir.child "compile-cache.json").location w.RightPayload
  lowerings : tree.KeepsPartitions w.scope w.version w.RightLowering w.dir

/-- Is everything right that the compiler holds of earlier compiles? -/
structure Sound (c : Compiler σ) : Prop where
  project : c.project = w.project
  comparable : c.comparable = true
  memory : c.memory.Sound w.RightResult
  disk : ∀ s, c.disk = some s →
    Store.Sound w.RightPayload s.entries ∧ s.path = some (w.dir.child "compile-cache.json")
  partitions : c.partitions.Sound w.scope w.version w.RightLowering
  beside : ∀ cache, c.partitions.cache = some cache →
    cache = w.dir ∧ w.scope.Fits w.version cache

variable {w} {c : Compiler σ} {tree : FileTree} {digest : Text} {r : Result} {d : Document}
  {hot : Bool}

/-! ## Right results -/

/-- **A result that is right for the digest of a document is what the document compiles to.** -/
theorem RightResult.normal_eq (right : w.RightResult digest r) (h : w.Cacheable)
    (mem : w.docs d hot) (found : w.project.digest? w.version d hot = some digest) :
    (some r).map Result.normal = (w.expected d hot).map Result.normal := by
  obtain ⟨d', hot', r₀, mem', found', value, normal⟩ := right
  obtain ⟨alike, rfl⟩ := h.alike_of_digest? mem mem' found found'
  have same : w.expected d hot = w.expected d' hot := Project.expected_congr alike w.tools hot
  rw [same, value, Option.map_some, Option.map_some, normal]

theorem RightResult.keepable (right : w.RightResult digest r) (h : w.Cacheable) : r.Keepable := by
  obtain ⟨d, hot, r₀, mem, -, value, normal⟩ := right
  exact (h.keepable mem value).of_normal_eq normal

theorem RightResult.whole (right : w.RightResult digest r) (h : w.Cacheable) : digest.Whole := by
  obtain ⟨d, hot, -, -, found, -, -⟩ := right
  obtain ⟨k, -, rfl⟩ := Option.map_eq_some_iff.mp found
  exact h.entryDigests k.text

theorem RightResult.of_normal_eq {r' : Result} (right : w.RightResult digest r)
    (same : r'.normal = r.normal) : w.RightResult digest r' := by
  obtain ⟨d, hot, r₀, mem, found, value, normal⟩ := right
  exact ⟨d, hot, r₀, mem, found, value, same.trans normal⟩

/-- A right payload is read as a right result. -/
theorem RightPayload.exists_ofJson? {payload : Json} (h : w.Cacheable)
    (right : w.RightPayload digest payload.sorted) :
    ∃ r, Result.ofJson? payload = .ok (some r) ∧ w.RightResult digest r := by
  obtain ⟨r, right, same⟩ := right
  have keepable := right.keepable h
  obtain ⟨r', read, normal⟩ := Result.exists_ofJson? same keepable.isStorable keepable.hasText
  exact ⟨r', read, right.of_normal_eq normal⟩

/-! ## Holding and looking up -/

/-- **A right result can always be held**, and the compiler stays sound. -/
theorem Sound.exists_remember (sound : w.Sound c) (h : w.Cacheable)
    (right : w.RightResult digest r) (persist : Bool) :
    ∃ c', c.remember digest r persist = (c', none) ∧ w.Sound c' := by
  have keepable := right.keepable h
  obtain ⟨size, sized⟩ := keepable.hasText.exists_size
  refine ⟨_, by rw [Compiler.remember, sized]; simp only [sound.comparable, if_true]; rfl, ?_⟩
  exact {
    project := sound.project
    comparable := rfl
    memory := sound.memory.remember right size
    partitions := sound.partitions
    beside := sound.beside
    disk := by
      intro s hs
      cases persist with
      | false => exact sound.disk s hs
      | true =>
        obtain ⟨s', hs', rfl⟩ := Option.map_eq_some_iff.mp hs
        obtain ⟨entries, path⟩ := sound.disk s' hs'
        have time : c.project.stamp.Whole := sound.project ▸ h.stamp
        exact ⟨entries.put (right.whole h) time keepable.toJson ⟨r, right, rfl⟩, path⟩ }

/-- **What is found is right.** Looking a result up never fails. -/
theorem Sound.exists_fetch (sound : w.Sound c) (h : w.Cacheable) (digest : Text) :
    ∃ found c', c.fetch digest = .ok (found, c') ∧ w.Sound c' ∧
      ∀ r, found = some r → w.RightResult digest r := by
  rw [Compiler.fetch]
  cases held : c.memory.fetch? digest with
  | some pair =>
    obtain ⟨result, memory⟩ := pair
    obtain ⟨right, memory_⟩ := sound.memory.fetch? held
    refine ⟨some result, { c with memory }, rfl, { sound with memory := memory_ }, ?_⟩
    rintro _ ⟨⟩
    exact right
  | none =>
    dsimp only
    cases kept : c.disk.bind fun s => s.get? digest with
    | none => exact ⟨none, c, rfl, sound, by rintro _ ⟨⟩⟩
    | some payload =>
      obtain ⟨s, hs, found⟩ := Option.bind_eq_some_iff.mp kept
      obtain ⟨-, right⟩ := (sound.disk s hs).1.of_get? found
      obtain ⟨result, read, right⟩ := RightPayload.exists_ofJson? h right
      obtain ⟨c', remembered, sound'⟩ := sound.exists_remember h right false
      refine ⟨some result, c', by simp only [read, remembered], sound', ?_⟩
      rintro _ ⟨⟩
      exact right

/-! ## Writing -/

/-- The file of a store of results is never that of a partition, so that writing one kind of store
keeps the files of the other. -/
theorem Holds.persist_store (holds : w.Holds tree) {s : Store}
    (entries : Store.Sound w.RightPayload s.entries)
    (path : s.path = some (w.dir.child "compile-cache.json")) : w.Holds (s.persist tree).2.1 where
  results := Store.keeps_persist holds.results fun _ _ _ => entries
  lowerings := by
    intro hot d directory
    refine Store.keeps_persist (holds.lowerings hot d directory) fun p hp here => ?_
    rw [path, Option.some.injEq] at hp
    subst hp
    exact absurd here.symm (Path.location_cacheFile_ne d w.dir)

theorem Holds.persist_partitions (holds : w.Holds tree) {ps : Partitions}
    (sound : ps.Sound w.scope w.version w.RightLowering) : w.Holds (ps.persist tree).2.1 where
  results := by
    refine Partitions.keeps_persistAll holds.results fun f hf p hp here => ?_
    obtain ⟨-, path, -⟩ := sound f hf
    rw [path, Option.some.injEq] at hp
    subst hp
    exact absurd here (Path.location_cacheFile_ne f.1 w.dir)
  lowerings hot d directory :=
    Partitions.keeps_persistAll (holds.lowerings hot d directory) fun f hf _ _ _ => (sound f hf).1

/-- **Writing the caches keeps the compiler and the files sound**, also where it fails. -/
theorem Sound.persist (sound : w.Sound c) (holds : w.Holds tree) :
    w.Sound (c.persist tree).1 ∧ w.Holds (c.persist tree).2.1 := by
  -- Whatever was written of the results, the partitions come next.
  have after (disk : Option Store) (tree' : FileTree) (holds' : w.Holds tree')
      (kept : ∀ s, disk = some s →
        Store.Sound w.RightPayload s.entries ∧ s.path = some (w.dir.child "compile-cache.json")) :
      w.Sound { c with disk, partitions := (c.partitions.persist tree').1 } ∧
        w.Holds (c.partitions.persist tree').2.1 :=
    ⟨{ sound with
        disk := kept
        partitions := sound.partitions.persist tree'
        beside := sound.beside }, holds'.persist_partitions sound.partitions⟩
  rw [Compiler.persist]
  cases hdisk : c.disk with
  | none => exact after none tree holds (by rintro s ⟨⟩)
  | some s =>
    obtain ⟨entries, path⟩ := sound.disk s hdisk
    obtain ⟨entries', path', -⟩ := Store.persist_cases s tree
    have holds' := holds.persist_store entries path
    rcases written : s.persist tree with ⟨s', tree', failure⟩
    rw [written] at entries' path' holds'
    dsimp only
    rw [written]
    cases failure with
    | some e => exact ⟨sound, holds'⟩
    | none =>
      refine after (some s') tree' holds' ?_
      rintro _ ⟨⟩
      exact ⟨entries' ▸ entries, path'.trans path⟩

/-! ## Opening -/

theorem Sound.fresh (cacheSize : Int) : w.Sound (.fresh w.project cacheSize) where
  project := rfl
  comparable := rfl
  memory := by rintro held ⟨⟩
  disk := by rintro s ⟨⟩
  partitions := .moved none
  beside := by rintro cache ⟨⟩

/-- **A compiler is always opened over the files of sound stores**, and then it is sound. -/
theorem Sound.exists_withCacheDir (holds : w.Holds tree) (fits : w.scope.Fits w.version w.dir)
    (cacheSize : Int) :
    ∃ c, (Compiler.fresh w.project cacheSize).withCacheDir tree w.dir = .ok c ∧ w.Sound c := by
  obtain ⟨entries, load, sound⟩ :=
    Store.exists_load holds.results (Path.nameable_child_compileFile fits.nameable)
  have fresh : w.Sound (.fresh w.project cacheSize) := .fresh cacheSize
  refine ⟨_, by rw [Compiler.withCacheDir, Store.opened, load]; rfl, ?_⟩
  exact { fresh with
    disk := by
      rintro s ⟨⟩
      exact ⟨sound, rfl⟩
    partitions := .moved (some w.dir)
    beside := by
      rintro cache ⟨⟩
      exact ⟨rfl, fits⟩ }

end Setting

end Componentry
