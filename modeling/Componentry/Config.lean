import Componentry.Options
import Componentry.Yaml.Shown

/-!
# Configuration

The settings of a project, read from the configuration file in its directory. Without a file, or
with an empty one, everything has its default; settings of a wrong type are left out, except for the
names of tools.
-/

namespace Componentry

/-- The settings of a project. -/
structure Config where
  /-- The directory of the project. -/
  root : Path
  options : Options := {}
  cacheDir : Option Path := none
  packageName : Option Text := none
  /-- Where to find the tools, by stage. -/
  tools : List (Text × Text) := []
  /-- The program that runs the bridge. -/
  node : Text := "node"

namespace Config

/-- A text that must be one that can be written out. -/
def written (text : Yaml.Outcome Text) : Except Failure Text := text.mapError .yaml

/-- A setting that is a text or a number. -/
def asText : Option Yaml.Value → Except Failure (Option Text)
  | some (.scalar (.text s)) => .ok (some s)
  | some (.scalar (.int n)) => return some (← written (Yaml.Scalar.int n).shown)
  | some (.scalar (.float x)) => .ok (some x.text)
  | some (.scalar (.nan _)) => .ok (some Binary64.nan.text)
  | _ => .ok none

/-- A setting that is a truth value, or a text that says one. -/
def asBool : Option Yaml.Value → Option Bool
  | some (.scalar (.bool b)) => some b
  | some (.scalar (.text s)) =>
    let word := Text.lowerAscii (Text.trim s)
    if (["true", "yes", "1"] : List Text).elem word then some true
    else if (["false", "no", "0"] : List Text).elem word then some false
    else none
  | _ => none

/-- A truth value, `null` if none is given. -/
def flagOr (d : Json) (v : Option Yaml.Value) : Json :=
  match asBool v with
  | some b => .bool b
  | none => d

/-- The options of a project, `compiler` giving a setting of that name. -/
def optionsOf (compiler : Text → Option Yaml.Value) : Except Failure Options := do
  let cssHashPrefix ← asText (compiler "css_hash_prefix")
  return {
    dev := flagOr .null (compiler "dev")
    hydratable := flagOr (.bool false) (compiler "hydratable")
    css := flagOr (.bool false) (compiler "css")
    cssHashPrefix := .ofText? cssHashPrefix
    isPublishing := flagOr (.bool false) (compiler "is_publishing") }

/-- The tools with one for a stage; a stage that comes again keeps its place. -/
def putTool (stage target : Text) : List (Text × Text) → List (Text × Text)
  | [] => [(stage, target)]
  | (s, t) :: rest =>
    if s = stage then (s, target) :: rest else (s, t) :: putTool stage target rest

/-- The tools that are named, each as a module and something in it, added to those before. -/
def toolsOf (doc : Yaml.Document) (acc : List (Text × Text)) :
    List (Yaml.Value × Yaml.Value) → Except Failure (List (Text × Text))
  | [] => .ok acc
  | (stage, target) :: rest => do
    match (← asText (some target)).filter fun t => t.has ':' with
    | some t =>
      let name ← written (doc.shown stage)
      toolsOf doc (putTool name t acc) rest
    | none =>
      let name ← written (doc.shown stage)
      .error (.config (.transformer name (← written (doc.literal target))))

/-- The settings in the document of a file. -/
def ofDocument (root : Path) (doc : Yaml.Document) : Except Failure Config :=
  match doc.root, doc.pairs? doc.root with
  | .scalar .null, _ => .ok { root }
  | _, some _ => do
    let setting (name : Text) : Option Yaml.Value := doc.get? name doc.root
    let compiler (name : Text) : Option Yaml.Value := (setting "compiler").bind (doc.get? name)
    let options ← optionsOf compiler
    let cacheDir ← asText (setting "cache_dir")
    let tools ← toolsOf doc [] (((setting "transformers").bind doc.pairs?).getD [])
    let packageName ← asText (setting "package_name")
    let node ← asText (setting "node")
    return {
      root, options, packageName, tools
      cacheDir := (Text.nonEmpty cacheDir).map root.child
      node := (Text.nonEmpty node).getD "node" }
  | _, none => .error (.config .notMapping)

/-- The configuration file that a path means: itself, or the one in its directory. -/
def fileOf (tree : FileTree) (cwd path : Path) : Except FileError Path := do
  if ← tree.isDir (cwd.join path) then cwd.resolved (path.child configFilename)
  else if path.name != configFilename then cwd.resolved (path.parent.child configFilename)
  else cwd.resolved path

/-- Reads the settings of a project. -/
def load (tree : FileTree) (cwd path : Path) : Except Failure Config := do
  let file ← (fileOf tree cwd path).mapError Failure.file
  let root := file.parent
  if !(← (tree.has file).mapError Failure.file) then return { root }
  let text ← (tree.readText file).mapError Failure.file
  if Text.allBlank text then return { root }
  match Yaml.Document.read text with
  | .error .malformed => throw (.config .malformed)
  | .error p => throw (.yaml p)
  | .ok doc => ofDocument root doc

end Config

end Componentry
