import Componentry.Failure

/-!
# Finding components

The components that a path means: the file itself, or all components below a directory, in the order
of their names from the top down. Installed modules are passed over.
-/

namespace Componentry

/-- The extension of components. -/
def componentExtension : Text := ".svelte"

/-- Is a location before another, name by name? -/
def Location.before : Location → Location → Bool
  | [], _ => true
  | _ :: _, [] => false
  | a :: as, b :: bs => if a = b then before as bs else decide (a < b)

/-- Is a file a component of its own? -/
def isComponent (file : Path) : Bool :=
  file.extension == componentExtension && !file.names.contains "node_modules"

/-- The components that a path means. -/
def collectComponents (tree : FileTree) (cwd path : Path) : Except Failure (List Path) := do
  let path ← (cwd.resolved path).mapError Failure.file
  if ← (tree.isFile path).mapError Failure.file then return [path]
  else if ← (tree.isDir path).mapError Failure.file then
    let found := (tree.filesBelow path.names).map fun (names, _) =>
      ({ path with names := path.names ++ names } : Path)
    return ((found.filter isComponent).mergeSort fun a b => Location.before a.names b.names)
  else throw (.noComponent path.toText)

end Componentry
