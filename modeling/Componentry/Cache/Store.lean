import Componentry.Failure
import Componentry.Json.Printer
import Componentry.Json.Reader

/-!
# Stores

Payloads by key, kept in a file between runs. A file that cannot be read, or that does not hold a
store of this version, counts as empty. Entries keep everything that was read with them.
-/

namespace Componentry

/-- Payloads by key. -/
structure Store where
  /-- The file that keeps the entries, if one does. -/
  path : Option Path := none
  /-- The entries, each with its payload and the time of its last change. -/
  entries : Json.Fields := []
  /-- Is there anything that the file does not have? -/
  dirty : Bool := false
  deriving Inhabited

namespace Store

/-- The version of the format. -/
def version : Int := 1

/-- Is this an entry? -/
def isEntry (raw : Json) : Bool :=
  match raw.field? "payload" with
  | some (.obj _) => true
  | _ => false

/-- The entries of a stored text that was read as data. -/
def entriesOf (data : Json) : Json.Fields :=
  if (data.fieldD "version").equalsInt version then
    match data.fieldD "entries" with
    | .obj entries => entries.filter fun (_, raw) => isEntry raw
    | _ => []
  else []

/-- May a store be started over this failure to read it? -/
def isReadable : FileError → Bool
  | .decode _ => false
  | .encode _ => false
  | .nullByte => false
  | _ => true

/-- The entries in the file at `path`. -/
def load (tree : FileTree) (path : Path) : Except Failure Json.Fields :=
  match tree.readText path with
  | .error e => if isReadable e then .ok [] else .error (.file e)
  | .ok text =>
    match Json.parse text with
    | .ok data => .ok (entriesOf data)
    | .error e =>
      match e.problem with
      | .tooManyDigits _ => .error (.json e)
      | .tooDeep _ => .error (.json e)
      | _ => .ok []

/-- The store that the file at `path` keeps. -/
def opened (tree : FileTree) (path : Path) : Except Failure Store := do
  return { path := some path, entries := ← load tree path }

/-- The payload of `key`. -/
def get? (s : Store) (key : Text) : Option Json :=
  match Json.Fields.get? key s.entries with
  | some entry =>
    match entry.field? "payload" with
    | some (.obj fields) => some (.obj fields)
    | _ => none
  | none => none

/-- The payload of `key` replaced, at the time `stamp`. -/
def put (s : Store) (key : Text) (payload : Json) (stamp : Text) : Store :=
  { s with
    entries :=
      Json.Fields.set key (.obj [("payload", payload), ("updated_at", .str stamp)]) s.entries
    dirty := true }

/-- The text that keeps the entries. -/
def text (s : Store) : Text :=
  (Json.obj [("version", .int version), ("entries", .obj s.entries)]).sorted.render

/-- Writes the file, if there is anything new and a file to write. Directories that were made stay
if the file cannot be written. -/
def persist (s : Store) (tree : FileTree) : Store × FileTree × Option Failure :=
  match s.path with
  | none => (s, tree, none)
  | some path =>
    if s.dirty then
      match tree.makeDirs path.parent with
      | (tree, some e) => (s, tree, some (.file e))
      | (tree, none) =>
        match tree.writeText path s.text with
        | .error e => (s, tree, some (.file e))
        | .ok tree => ({ s with dirty := false }, tree, none)
    else (s, tree, none)

end Store

end Componentry
