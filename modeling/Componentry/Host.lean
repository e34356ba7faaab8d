import Componentry.Compiler.Basic
import Componentry.Mode
import Componentry.Tool.Selection

/-!
# Hosts

What a run finds around it: the directory it starts in, the environment, and what is installed.
-/

namespace Componentry

/-- The surroundings of a run. -/
structure Host (σ : Type) where
  /-- The directory that relative paths start from. -/
  cwd : Path
  environment : Environment := []
  /-- The home directories by the name of their owner; the nameless one is that of the run. -/
  homes : Text → Option Path := fun _ => none
  /-- Where tools can be named. -/
  modules : List (ToolModule σ) := []
  programs : Programs := fun _ => none
  /-- The style library, if it is installed. -/
  styles : Option Sass.Library := none
  hashing : Hashing := .standard
  /-- The time, as stores note it. -/
  stamp : Text

namespace Host

variable {σ : Type}

/-- The settings of the project that a path means, which may start in a home directory. -/
def config (h : Host σ) (tree : FileTree) (path : Text) : Except Failure Config :=
  let path := Path.ofText path
  let owner := path.owner?.getD []
  if let some e := nameFault? owner then .error (.file (.encode e))
  else if owner.has '\x00' then .error (.file .nullByte)
  else
    match path.fromHome? h.homes with
    | some path => Config.load tree h.cwd path
    | none => .error .noHome

/-- The tools of a configured project. A project that is only packaged settles them on first use. -/
def tools (h : Host σ) (config : Config) (state : σ) : Except Failure (ToolSet σ) × σ :=
  let context : ToolContext σ := {
    root := config.root
    node := config.node
    bridge := Bridge.ofProgram h.programs config.root.toText config.node
    styles := h.styles }
  ToolSet.load context h.modules [] (config.tools.map fun (stage, target) => (stage, .named target))
    config.options.isPublishing.truthy state

/-- A compiler for a configured project. -/
def compiler (h : Host σ) (config : Config) (tree : FileTree) (state : σ) :
    Except Failure (Compiler σ) × σ :=
  match h.tools config state with
  | (.error f, state) => (.error f, state)
  | (.ok tools, state) =>
    (Compiler.ofConfig config tools.toolchain none (isProduction h.environment) defaultCacheSize
      h.cwd h.hashing h.stamp tree, state)

/-- A compiler for the project in the directory of the run. -/
def compilerHere (h : Host σ) (tree : FileTree) (state : σ) : Except Failure (Compiler σ) × σ :=
  match Config.load tree h.cwd h.cwd with
  | .error f => (.error f, state)
  | .ok config => h.compiler config tree state

end Host

end Componentry
