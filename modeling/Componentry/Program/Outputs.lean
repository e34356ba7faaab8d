import Componentry.Failure
import Componentry.Output

/-!
# Writing outputs

Where the outputs of a document go: modules with their maps, stylesheets beside them, and the
sections of pages, all below one directory and along the document's own path.
-/

namespace Componentry.Program

/-- Writes data, which must be a text. Gives the new files, or why there are none with the files
then: a text that has no bytes leaves its file empty. -/
def writeData (tree : FileTree) (path : Path) (data : Json) : Except Failure FileTree × FileTree :=
  match data with
  | .str text =>
    match (tree.write path .empty).mapError Failure.file with
    | .error f => (.error f, tree)
    | .ok emptied => ((tree.writeText path text).mapError .file, emptied)
  | j => (.error (.conversion (.notWritable j.typeName)), tree)

/-- Writes data, making the directories on the way. -/
def writeBelow (tree : FileTree) (path : Path) (data : Json) : Except Failure FileTree × FileTree :=
  match tree.makeDirs path.parent with
  | (tree, some e) => (.error (.file e), tree)
  | (tree, none) => writeData tree path data

/-- Writes a module and its map. -/
def writeModule (tree : FileTree) (dir : Path) (m : Module) : Except Failure FileTree × FileTree :=
  let target := dir.child (m.path ++ ".js")
  match writeBelow tree target m.data with
  | (.error f, tree) => (.error f, tree)
  | (.ok tree, _) =>
    if m.sourceMap.truthy then
      match (target.renamed (target.name ++ ".map")).mapError Failure.file with
      | .error f => (.error f, tree)
      | .ok file => ((tree.writeText file (Json.render m.sourceMap)).mapError .file, tree)
    else (.ok tree, tree)

/-- Writes outputs one by one, up to the first failure: the failure, and the files then. -/
def writeEach {α : Type} (write : FileTree → α → Except Failure FileTree × FileTree)
    (tree : FileTree) : List α → Option Failure × FileTree
  | [] => (none, tree)
  | a :: rest =>
    match write tree a with
    | (.ok tree, _) => writeEach write tree rest
    | (.error f, tree) => (some f, tree)

/-- Writes a stylesheet beside the document's module. -/
def writeStylesheet (dir : Path) (path : Text) (tree : FileTree) (s : Stylesheet) :
    Except Failure FileTree × FileTree :=
  let directory := dir.join (Path.ofText path).parent
  match tree.makeDirs directory with
  | (tree, some e) => (.error (.file e), tree)
  | (tree, none) => writeData tree (directory.child s.path) s.data

/-- Writes a section of a page. -/
def writePart (dir : Path) (path : Text) (tree : FileTree) (p : HtmlPart) :
    Except Failure FileTree × FileTree :=
  writeBelow tree (dir.child (path ++ "." ++ p.name ++ ".html")) (.str p.data)

/-- Writes all that is registered for the document at `path`. -/
def writeOutputs (dir : Path) (path : Text) (tree : FileTree) (r : Register) :
    Option Failure × FileTree :=
  match writeEach (fun tree m => writeModule tree dir m) tree r.modules with
  | (some f, tree) => (some f, tree)
  | (none, tree) =>
    match writeEach (writeStylesheet dir path) tree r.stylesheets with
    | (some f, tree) => (some f, tree)
    | (none, tree) => writeEach (writePart dir path) tree r.html

end Componentry.Program
