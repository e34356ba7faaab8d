import Componentry.Cache.Recent
import Componentry.Config
import Componentry.Pipeline.Compile

/-!
# Compilers

A compiler is a project with what it holds of earlier compiles: results in memory, a store of
results on disk, and the partitions of the lowering stage.
-/

namespace Componentry

/-- The size of the memory unless told otherwise. -/
def defaultCacheSize : Int := 1024 * 1024 * 10

/-- A project and what it holds of earlier compiles. -/
structure Compiler (σ : Type) where
  project : Project σ
  memory : Recent
  /-- Can sizes be compared with the limit of the memory? If not, nothing can be held. -/
  comparable : Bool := true
  /-- The results on disk, if there is a cache directory. -/
  disk : Option Store := none
  partitions : Partitions := {}

namespace Compiler

variable {σ : Type}

/-- A compiler that holds nothing. -/
def fresh (project : Project σ) (cacheSize : Int) : Compiler σ :=
  { project, memory := { limit := cacheSize } }

/-- The compiler with a cache directory, from which earlier results are read. -/
def withCacheDir (c : Compiler σ) (tree : FileTree) (dir : Path) : Except Failure (Compiler σ) := do
  let disk ← Store.opened tree (dir.child "compile-cache.json")
  return { c with disk := some disk, partitions := .moved (some dir) }

/-- A compiler for a configured project. A runtime package that is given goes before the configured
one. -/
def ofConfig (config : Config) (tools : Toolchain σ) (runtimePackage : Option Text)
    (production : Bool) (cacheSize : Int) (cwd : Path) (hashing : Hashing) (stamp : Text)
    (tree : FileTree) : Except Failure (Compiler σ) :=
  let c := fresh {
    options := config.options, production, tools, root := config.root, cwd, hashing, stamp
    runtimePackage := (Text.nonEmpty runtimePackage).or config.packageName } cacheSize
  match config.cacheDir with
  | some dir => c.withCacheDir tree dir
  | none => .ok c

/-- Holds a result, and keeps it on disk as well if `persist` says so. One without a size, or with
one that cannot be compared, is only kept on disk. -/
def remember (c : Compiler σ) (digest : Text) (result : Result) (persist : Bool) :
    Compiler σ × Option Failure :=
  let disk := if persist then c.disk.map fun s => s.put digest result.toJson c.project.stamp
    else c.disk
  match result.size with
  | .ok size =>
    if c.comparable then ({ c with disk, memory := c.memory.remember digest result size }, none)
    else ({ c with disk }, some (.conversion .noOrder))
  | .error f => ({ c with disk }, some f)

/-- The result under `digest`, from memory or else from disk. -/
def fetch (c : Compiler σ) (digest : Text) : Except Failure (Option Result × Compiler σ) :=
  match c.memory.fetch? digest with
  | some (result, memory) => .ok (some result, { c with memory })
  | none =>
    match c.disk.bind fun s => s.get? digest with
    | none => .ok (none, c)
    | some payload =>
      match Result.ofJson? payload with
      | .error e => .error e
      | .ok none => .ok (none, c)
      | .ok (some result) =>
        match c.remember digest result false with
        | (c, none) => .ok (some result, c)
        | (_, some f) => .error f

/-- The key of an input's document, and the document. -/
def key (c : Compiler σ) (tree : FileTree) (input : Input) :
    Action σ (Document × Option CacheKey) := do
  let p := c.project
  let document ← ExceptT.mk (pure (input.document p.hashing p.root tree))
  let version ← p.tools.version
  return (document,
    CacheKey.derive? document p.options input.hot version p.production p.runtimePackage)

end Compiler

end Componentry
