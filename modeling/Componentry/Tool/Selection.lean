import Componentry.Tool.Bridge
import Componentry.Tool.Sass

/-!
# Choosing tools

Which tool does the work of a stage. Every stage has a tool of its own to start with; what is
installed beside the program goes before it, and what the project names goes before both. A choice
may be a tool, a kind of tool, or something that makes one, and is only made when the tool is
needed.
-/

namespace Componentry

variable {σ : Type}

/-- A tool for one of the stages. -/
inductive StageTool (σ : Type) where
  | markup (tool : MarkupTool σ)
  | script (tool : ScriptTool σ)
  | style (tool : StyleTool σ)
  | hot (tool : HotTool σ)
  | lowering (tool : LoweringTool σ)

/-- The stage that a tool is for. -/
def StageTool.stage : StageTool σ → Stage
  | .markup _ => .markup
  | .script _ => .script
  | .style _ => .style
  | .hot _ => .hot
  | .lowering _ => .lowering

/-- A tool with what is known of it. -/
structure NamedTool (σ : Type) where
  name : Text
  tool : StageTool σ
  /-- The directories that a style tool searches. -/
  includePaths : Option (List Text) := none

/-- What a maker of tools may use. -/
structure ToolContext (σ : Type) where
  /-- The directory of the project. -/
  root : Path
  /-- The program behind the bridge. -/
  node : Text := "node"
  bridge : Except Failure (Bridge σ)
  /-- The style library, if it is installed. -/
  styles : Option Sass.Library

/-- Something that may be chosen for a stage. -/
inductive Candidate (σ : Type) where
  | tool (t : NamedTool σ)
  /-- A kind of tool, of which one is made when needed. -/
  | kind (t : NamedTool σ)
  /-- Makes something that may be chosen in its place. -/
  | maker (make : ToolContext σ → Candidate σ)
  /-- A maker that fails. -/
  | failing (f : Failure)
  /-- A tool that has to be set up first. -/
  | setup (build : ToolContext σ → Action σ (NamedTool σ))
  /-- Something that comes to one thing or another by the stage that it is for. -/
  | byStage (pick : Stage → Candidate σ)
  /-- Neither a tool nor makes one. -/
  | unfit

namespace Candidate

/-- A tool, if it is one for the stage. -/
def fitting (stage : Stage) (t : NamedTool σ) : Except Failure (NamedTool σ) :=
  if t.tool.stage = stage then .ok t else .error (.tool (.wrongTool stage.name stage.role))

/-- The tool that a choice comes to. -/
def settle (stage : Stage) (context : ToolContext σ) : Candidate σ → Action σ (NamedTool σ)
  | .tool t => MonadExcept.ofExcept (fitting stage t)
  | .kind t => MonadExcept.ofExcept (fitting stage t)
  | .maker make => settle stage context (make context)
  | .failing f => throw f
  | .setup build => do MonadExcept.ofExcept (fitting stage (← build context))
  | .byStage pick => settle stage context (pick stage)
  | .unfit => throw (.tool (.wrongTool stage.name stage.role))

/-- The names of the tools to start with. -/
def standardName : Stage → Text
  | .markup => "NodeMarkupCompiler"
  | .script => "NodeScriptTransformer"
  | .style => "SassStyleTransformer"
  | .hot => "NodeHotReloader"
  | .lowering => "NodeLowerer"

/-- A tool behind the bridge. -/
def bridged (stage : Stage) (tool : Bridge σ → StageTool σ) : Candidate σ :=
  .setup fun context => do
    let bridge ← MonadExcept.ofExcept context.bridge
    bridge.prepare stage
    return { name := standardName stage, tool := tool bridge }

/-- The style tool over the installed library, which searches the directories that `paths` gives. -/
def sass (paths : Path → List Path) : Candidate σ :=
  .setup fun context =>
    match context.styles with
    | none => throw (.setup .noStyleLibrary)
    | some library =>
      let paths := (paths context.root).map Path.toText
      return { name := standardName .style, tool := .style (Sass.tool library paths)
               includePaths := some paths }

/-- The tools to start with. -/
def standard : Stage → Candidate σ
  | .markup => bridged .markup fun b => .markup b.markupTool
  | .script => bridged .script fun b => .script b.scriptTool
  | .style => sass fun root => [root, root.child "node_modules"]
  | .hot => bridged .hot fun b => .hot b.hotTool
  | .lowering => bridged .lowering fun b => .lowering b.loweringTool

/-- The kind of a tool to start with, as something to choose. The style tool, which then searches
no directories, is made for its own stage only; the tools behind the bridge are made from a bridge,
which a maker of tools is not given. -/
def standardKind (stage : Stage) : Candidate σ :=
  .byStage fun wanted =>
    match stage, wanted with
    | .style, .style => sass fun _ => []
    | .style, _ => .failing (.conversion (.notIterable "TransformerContext"))
    | _, _ =>
      if stage = wanted then .failing (.tool (.unmade (standardName stage)))
      else .failing (.conversion (.noMethod "TransformerContext" "require"))

end Candidate

/-- A module, in which things can be named as tools. -/
structure ToolModule (σ : Type) where
  name : Text
  items : List (Text × Candidate σ) := []
  /-- Can it have modules below it? -/
  isPackage : Bool := false

namespace ToolModule

/-- What every module tells of itself. -/
def described : List Text :=
  ["__name__", "__doc__", "__file__", "__package__", "__loader__", "__spec__", "__dict__",
    "__cached__", "__builtins__"]

/-- What a module has under a name. -/
def item? (m : ToolModule σ) (name : Text) : Option (Candidate σ) :=
  (m.items.lookup name).or (if described.elem name then some .unfit else none)

/-- The module of that name. -/
def lookup (modules : List (ToolModule σ)) (name : Text) : Option (ToolModule σ) :=
  modules.find? fun m => m.name == name

/-- The module along names below `m`, or why there is none. -/
def below (modules : List (ToolModule σ)) (m : ToolModule σ) :
    List Text → Except Text (ToolModule σ)
  | [] => .ok m
  | n :: rest =>
    let name := m.name ++ "." ++ n
    if m.isPackage then
      match lookup modules name with
      | some m => below modules m rest
      | none => .error ("No module named " ++ quote name)
    else .error ("No module named " ++ quote name ++ "; " ++ quote m.name ++ " is not a package")

/-- The module of that name, or why there is none. -/
def find (modules : List (ToolModule σ)) (name : Text) : Except Text (ToolModule σ) :=
  match Text.splitOn '.' name with
  | [] => .error ("No module named " ++ quote name)
  | first :: rest =>
    match lookup modules first with
    | some m => below modules m rest
    | none => .error ("No module named " ++ quote first)

/-- What a target names: a module and, behind a colon, something in it. -/
def named (modules : List (ToolModule σ)) (target : Text) : Except Failure (Candidate σ) :=
  let (name, item) := match Text.cut? ":" target with
    | some (name, item) => (name, item)
    | none => (target, "")
  if name = "" then .error (.moduleName .empty)
  else if name.head? = some '.' then .error (.moduleName (.relative name))
  else
    match find modules name with
    | .error reason => .error (.setup (.noImport target reason))
    | .ok m =>
      match m.item? item with
      | some candidate => .ok candidate
      | none =>
        .error (.setup (.noImport target (ToolProblem.noAttribute name item).message))

end ToolModule

/-- A project's own choice for a stage. -/
inductive Choice (σ : Type) where
  /-- A target in some module. -/
  | named (target : Text)
  | given (candidate : Candidate σ)

/-- The choices for the stages, and the tools that they have come to. -/
structure ToolSet (σ : Type) where
  context : ToolContext σ
  choices : List (Stage × Candidate σ) := []
  ready : List (Stage × NamedTool σ) := []

namespace ToolSet

/-- The choice for a stage replaced. -/
def choose (choices : List (Stage × Candidate σ)) (stage : Stage) (c : Candidate σ) :
    List (Stage × Candidate σ) :=
  choices.filter (fun (s, _) => s ≠ stage) ++ [(stage, c)]

/-- Is there a tool for the stage, or a choice? -/
def has (s : ToolSet σ) (stage : Stage) : Bool :=
  (s.ready.lookup stage).isSome || (s.choices.lookup stage).isSome

/-- The tool for a stage, which is kept. -/
def get (s : ToolSet σ) (stage : Stage) : Action σ (NamedTool σ × ToolSet σ) :=
  match s.ready.lookup stage with
  | some t => pure (t, s)
  | none =>
    match s.choices.lookup stage with
    | none => throw (.setup (.noTool stage.name))
    | some c => do
      let t ← c.settle stage s.context
      return (t, { s with ready := s.ready ++ [(stage, t)] })

/-- The tool for the stage of that name. -/
def getNamed (s : ToolSet σ) (name : Text) : Action σ (NamedTool σ × ToolSet σ) :=
  match Stage.ofName? name with
  | some stage => s.get stage
  | none => throw (.tool (.noStage name))

/-- Settles the choices for the stages in order, up to the first failure: the set then, and the
failure. -/
def settleAll (s : ToolSet σ) : List Stage → σ → (ToolSet σ × Option Failure) × σ
  | [], tools => ((s, none), tools)
  | stage :: rest, tools =>
    if s.has stage then
      match (s.get stage).run tools with
      | (.ok (_, s), tools) => settleAll s rest tools
      | (.error f, tools) => ((s, some f), tools)
    else settleAll s rest tools

/-- Settles all choices. -/
def requireAll (s : ToolSet σ) (tools : σ) : (ToolSet σ × Option Failure) × σ :=
  s.settleAll Stage.all tools

/-- Takes the choices of what is installed; other stages than the known ones are passed over. -/
def addInstalled (choices : List (Stage × Candidate σ)) :
    List (Text × Candidate σ) → List (Stage × Candidate σ)
  | [] => choices
  | (name, c) :: rest =>
    match Stage.ofName? name with
    | some stage => addInstalled (choose choices stage c) rest
    | none => addInstalled choices rest

/-- Takes the choices of a project. -/
def addChosen (modules : List (ToolModule σ)) (choices : List (Stage × Candidate σ)) :
    List (Text × Choice σ) → Except Failure (List (Stage × Candidate σ))
  | [] => .ok choices
  | (name, choice) :: rest =>
    match Stage.ofName? name with
    | none => .error (.tool (.unknownStage name))
    | some stage => do
      let c ← match choice with
        | .named target => ToolModule.named modules target
        | .given c => .ok c
      addChosen modules (choose choices stage c) rest

/-- The choices for a project: the standard ones, what is installed, what the project names. Unless
`lazy`, every choice is settled at once. -/
def load (context : ToolContext σ) (modules : List (ToolModule σ))
    (installed : List (Text × Candidate σ)) (chosen : List (Text × Choice σ)) (lazy : Bool)
    (tools : σ) : Except Failure (ToolSet σ) × σ :=
  let standard := Stage.all.map fun stage => (stage, Candidate.standard stage)
  match addChosen modules (addInstalled standard installed) chosen with
  | .error f => (.error f, tools)
  | .ok choices =>
    let s : ToolSet σ := { context, choices }
    if lazy then (.ok s, tools)
    else
      match s.requireAll tools with
      | ((s, none), tools) => (.ok s, tools)
      | ((_, some f), tools) => (.error f, tools)

/-- Settles given choices in order. -/
def addReady (s : ToolSet σ) : List (Text × Candidate σ) → Action σ (ToolSet σ)
  | [] => pure s
  | (name, c) :: rest =>
    match Stage.ofName? name with
    | none => addReady s rest
    | some stage => do
      let t ← c.settle stage s.context
      addReady { s with ready := s.ready ++ [(stage, t)] } rest

/-- A set of given tools and of nothing else. -/
def of (context : ToolContext σ) (given : List (Text × Candidate σ)) : Action σ (ToolSet σ) :=
  let unknown := (given.map Prod.fst).filter fun name => (Stage.ofName? name).isNone
  if unknown.isEmpty then addReady { context } given
  else throw (.tool (.unknownStages (unknown.mergeSort fun a b => !b.before a)))

/-- The tool for a stage, taken out by `pick`. -/
def picked {α : Type} (s : ToolSet σ) (stage : Stage) (pick : StageTool σ → Option α) :
    Action σ α := do
  let (t, _) ← s.get stage
  match pick t.tool with
  | some tool => return tool
  | none => throw (.tool (.wrongTool stage.name stage.role))

/-- The tools as a compile calls them. -/
def toolchain (s : ToolSet σ) : Toolchain σ where
  markup := s.picked .markup fun
    | .markup t => some t
    | _ => none
  script := s.picked .script fun
    | .script t => some t
    | _ => none
  style := s.picked .style fun
    | .style t => some t
    | _ => none
  hot := s.picked .hot fun
    | .hot t => some t
    | _ => none
  lowering := s.picked .lowering fun
    | .lowering t => some t
    | _ => none

end ToolSet

end Componentry
