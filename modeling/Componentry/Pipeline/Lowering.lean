import Componentry.Cache.Payload
import Componentry.Pipeline.Step
import Componentry.SourceMap.Compose

/-!
# Lowering

The last stage lowers module code and composes its map with that of the stages before. What the tool
gives for a path and code is kept in the partition of the project's options.
-/

namespace Componentry

/-- Module code before it is lowered. -/
structure Artifact where
  code : Json
  map : Option Json := none
  stylesheets : List Stylesheet := []
  deriving Inhabited

/-- What lowering needs. -/
structure LoweringContext (σ : Type) where
  tool : Action σ (LoweringTool σ)
  version : Action σ Text
  scope : PartitionScope
  tree : FileTree
  /-- The time that entries are marked with. -/
  stamp : Text

namespace Step

variable {σ : Type}

/-- The partitions in use. -/
def partitions : Step σ Partitions := of fun p => (.ok p.partitions, p)

/-- Changes the partitions in use. -/
def setPartitions (partitions : Partitions) : Step σ Unit :=
  of fun p => (.ok (), { p with partitions })

/-- The directory of the partition, if there is a cache directory. -/
def partition (c : LoweringContext σ) (hot : Bool) : Step σ (Option Path) := do
  match (← partitions).cache with
  | none => return none
  | some cache => do
    let version ← Step.tool c.version
    return some (← check (c.scope.directory cache version hot))

/-- The partition's directory and store, opened if it is not open yet. -/
def openPartition (c : LoweringContext σ) (hot : Bool) : Step σ (Option (Path × Store)) := do
  match ← partition c hot with
  | none => return none
  | some directory => do
    let ps ← partitions
    match ps.store? directory with
    | some store => return some (directory, store)
    | none => do
      note "lowering" ("Lowering cache partition " ++ directory.toText)
      let store ← check (Store.opened c.tree (directory.child "cache.json"))
      setPartitions (ps.withStore directory store)
      return some (directory, store)

/-- The name of the entry for code at a path, which must have bytes to hash. -/
def entryName (hashing : Hashing) (path : Text) (code : Json) : Except Failure Text :=
  let text := path ++ "\x00" ++ code.shown
  match encodeFault? text with
  | some e => .error (.file (.encode e))
  | none => .ok (hashing.entry text)

/-- Lowered code with its map, from the tool; kept in the store if both are there. -/
def lowerAfresh (c : LoweringContext σ) (store : Option (Path × Store)) (key path : Text)
    (code : Json) : Step σ (Json × Json) := do
  let lowering ← Step.tool c.tool
  let result ← Step.tool (lowering.lower code path)
  let map := Json.ofOption result.map
  match store with
  | some (directory, store) =>
    if result.code.truthy && map.truthy then
      let payload := Json.obj [("code", result.code), ("map", map)]
      setPartitions ((← partitions).withStore directory (store.put key payload c.stamp))
  | none => pure ()
  return (result.code, map)

/-- Lowered code with its map, from the store if it has them. -/
def lowered (c : LoweringContext σ) (path : Text) (code : Json) (hot : Bool) :
    Step σ (Json × Json) := do
  let store ← openPartition c hot
  let key ← check (entryName c.scope.hashing path code)
  match store.bind fun (_, s) => s.get? key with
  | some payload => do
    note "lowering" ("Using cached lowering output for " ++ path)
    return (payload.fieldD "code", payload.fieldD "map")
  | none => lowerAfresh c store key path code

/-- Lowers module code. Without code or without a map there is no module. -/
def lower (c : LoweringContext σ) (artifact : Artifact) (path : Text) (hot : Bool) :
    Step σ Module := do
  let (code, map) ← lowered c path artifact.code hot
  if !code.truthy || !map.truthy then throw (.noOutput Failure.noOutputMessage)
  let composed ← check ((SourceMap.compose (some map) artifact.map).mapError Failure.sourceMap)
  return {
    sourcePath := path, path, data := code, sourceMap := .ofOption composed
    stylesheets := artifact.stylesheets }

end Step

end Componentry
