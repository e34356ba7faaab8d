import Componentry.Tool.Basic

/-!
# Style imports

How a style finds the file that it imports. A reference that starts with a dot is relative to the
document's directory; any other is looked up in the project and then in its modules. The file may be
named without its extension and without a leading underscore.
-/

namespace Componentry

/-- Where a document stands among the files. -/
structure Site where
  /-- The document's path. -/
  path : Text
  /-- The project's directory. -/
  root : Path
  /-- The directory that other relative paths start from. -/
  cwd : Path
  tree : FileTree

namespace Site

/-- The directory of the document, by its path. -/
def directory (s : Site) : Text :=
  match Text.splitLast '/' (Text.replaceAll "\\" "/" s.path) with
  | (some dir, _) => if dir.all fun (c : CodePoint) => c == '/' then dir ++ "/" else dir
  | (none, _) => ""

/-- Is there a file at `path`? -/
def isFile (s : Site) (path : Path) : Except Failure Bool := (s.tree.isFile path).mapError .file

/-- What may come before the name of a file that is imported. -/
def importMarks : List Text := ["", "_"]

/-- What may follow the name of a file that is imported. -/
def importSuffixes : List Text := ["", ".scss", ".sass", ".css"]

/-- The first of the names that is a file beside `path`. -/
def firstFile (s : Site) (path : Path) : List Text → Except Failure (Option Path)
  | [] => .ok none
  | name :: rest => do
    let candidate ← (path.renamed name).mapError Failure.file
    if ← s.isFile candidate then return some candidate else firstFile s path rest

/-- The file that `path` means. -/
def findFile (s : Site) (path : Path) : Except Failure (Option Path) := do
  if ← s.isFile path then return some path
  else s.firstFile path (importMarks.flatMap fun mark => importSuffixes.map fun suffix =>
    mark ++ path.name ++ suffix)

/-- The file that `target` means in the first of the directories that has it. -/
def findIn (s : Site) (target : Text) : List Path → Except Failure (Option Path)
  | [] => .ok none
  | dir :: rest => do
    match ← s.findFile (dir.child target) with
    | some found => return some found
    | none => findIn s target rest

/-- The directories in which a reference is looked up. -/
def importDirs (s : Site) (url : Text) : List Path :=
  if url.head? = some '.' then [s.root.child s.directory]
  else [s.root, s.root.child "node_modules"]

/-- The file that a reference means; if there is none, the first place where it was looked for. -/
def importPath (s : Site) (url : Text) : Except Failure Path := do
  let target := if url.head? = some '/' then url.drop 1 else url
  match ← s.findIn target (s.importDirs url) with
  | some found => return found
  | none => return ((s.importDirs url).headD s.root).child target

/-- The file that a reference means, if there is one. -/
def resolve (s : Site) (url : Text) : Except Failure (Option Text) := do
  let path ← s.importPath url
  return if ← s.isFile path then some path.toText else none

/-- The text of a file. What is wrong with the name is told of the name as it is given. -/
def read (s : Site) (path : Text) : Except Failure Text :=
  match nameFault? (Path.ofText path).toText with
  | some e => .error (.file (.encode e))
  | none => (s.tree.readText (s.cwd.child path)).mapError .file

/-- What a style tool may know of the files. -/
def imports (s : Site) : Imports := ⟨s.resolve, s.read⟩

end Site

end Componentry
