import Componentry.Cache.Key
import Componentry.Cache.Store

/-!
# Partitions

What the lowering tool gives depends on the code alone, and is kept apart for each set of options.
A partition is a directory beside the cache directory, named for all that sets it apart.
-/

namespace Componentry

/-- The version of this program. -/
def programVersion : Text := "1.4.10"

/-- The package that holds the reload runtime unless told otherwise. -/
def defaultPackage : Text := "r00t3g:melte"

/-- The options of the hot reload tool, which point at the modules of a package. -/
def hotOptions (package : Option Text) : Json.Fields :=
  let name := (Text.nonEmpty package).getD defaultPackage
  [("meta", .str "module"), ("absoluteImports", .bool false),
    ("hotApi", .str ("meteor/" ++ name ++ "/hmr-runtime.js")), ("preserveLocalState", .bool false),
    ("adapter", .str ("meteor/" ++ name ++ "/proxy-adapter.js"))]

/-- A short digest of options. -/
def shortDigest (hashing : Hashing) (options : Json.Fields) : Text :=
  (hashing.options (Json.obj options).canonical).take 6

/-- What sets the partitions of one project apart from those of another. -/
structure PartitionScope where
  options : Options
  production : Bool
  runtimePackage : Option Text
  hashing : Hashing

namespace PartitionScope

/-- What a partition's name has after the name of the cache directory. -/
def suffix (s : PartitionScope) (compilerVersion : Text) (hot : Bool) : Text :=
  "-lowering-" ++ compilerVersion ++ "-" ++ toString preprocessVersion ++ "-" ++
    (if s.production then "true" else "false") ++ "--" ++
    shortDigest s.hashing s.options.toFields ++ "-" ++
    (if hot then "hmr-" ++ shortDigest s.hashing (hotOptions s.runtimePackage) ++ "-" else "") ++
    programVersion

/-- The partition beside the cache directory. -/
def directory (s : PartitionScope) (cache : Path) (compilerVersion : Text) (hot : Bool) :
    Except Failure Path :=
  (cache.renamed (cache.name ++ s.suffix compilerVersion hot)).mapError .file

end PartitionScope

/-- The partitions in use. -/
structure Partitions where
  /-- The cache directory, if there is one. -/
  cache : Option Path := none
  /-- The stores opened so far, by the directories of their partitions. -/
  stores : List (Path × Store) := []
  deriving Inhabited

namespace Partitions

/-- The store of a partition that is open. -/
def store? (p : Partitions) (directory : Path) : Option Store :=
  (p.stores.find? fun (d, _) => d = directory).map Prod.snd

/-- Replaces the store of a directory, or adds it as the last one. -/
def setStore (stores : List (Path × Store)) (directory : Path) (store : Store) :
    List (Path × Store) :=
  match stores with
  | [] => [(directory, store)]
  | (d, s) :: rest =>
    if d = directory then (d, store) :: rest else (d, s) :: setStore rest directory store

/-- The partitions with a store opened or changed. -/
def withStore (p : Partitions) (directory : Path) (store : Store) : Partitions :=
  { p with stores := setStore p.stores directory store }

/-- The partitions beside another cache directory, none of them open. -/
def moved (cache : Option Path) : Partitions := { cache }

/-- Writes the stores, in the order in which they were opened. -/
def persistAll (tree : FileTree) :
    List (Path × Store) → List (Path × Store) × FileTree × Option Failure
  | [] => ([], tree, none)
  | (d, s) :: rest =>
    match s.persist tree with
    | (s, tree, some e) => ((d, s) :: rest, tree, some e)
    | (s, tree, none) =>
      let (rest, tree, failure) := persistAll tree rest
      ((d, s) :: rest, tree, failure)

/-- Writes every store that has changed. -/
def persist (p : Partitions) (tree : FileTree) : Partitions × FileTree × Option Failure :=
  let (stores, tree, failure) := persistAll tree p.stores
  ({ p with stores }, tree, failure)

end Partitions

end Componentry
