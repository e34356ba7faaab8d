import Componentry.Json.Printer
import Componentry.Json.Reader
import Componentry.Tool.Basic
import Componentry.Tool.Stage

/-!
# The bridge

Some tools run in a program of their own. The bridge sends it requests, each with an operation and a
payload, and reads its replies: `ok` with a result, or an error with a message and a place. Before a
stage is used, the bridge asks whether the modules that it needs are installed.
-/

namespace Componentry

/-- One request. -/
structure BridgeRequest where
  operation : Text
  payload : Json.Fields
  /-- The directory of the project. -/
  root : Text
  /-- The program that answers. -/
  program : Text

/-- A way to send requests for a project. -/
structure Bridge (σ : Type) where
  root : Text
  program : Text := "node"
  /-- Sends a request and waits for the text of the reply. -/
  send : BridgeRequest → Action σ Text
  /-- Writes a log line. -/
  note : Text → Action σ Unit := fun _ => pure ()

/-- What is left of a program that has ended. -/
structure Completed where
  exitCode : Nat := 0
  output : Text := ""
  errors : Text := ""

/-- The installed programs by name, each a function of its arguments and its input. -/
abbrev Programs := Text → Option (List Text → Text → Completed)

namespace Bridge

/-- A whole number; a truth value counts as one. -/
def wholeNumber? : Json → Option Int
  | .int n => some n
  | .bool b => some (if b then 1 else 0)
  | _ => none

/-- Is it a truth value? -/
def isFlag : Json → Bool
  | .bool _ => true
  | _ => false

/-- The place that an error gives, if it has a line. -/
def placeOf (start : Json) : Except Failure (Option Position) :=
  match start, wholeNumber? (start.fieldD "line") with
  | .obj _, some line => do
    let column ← (Json.toInteger ((start.fieldD "column").presentOr (.int 0))).mapError .conversion
    return some ⟨line, column⟩
  | _, _ => .ok none

/-- What an error in a reply says. -/
def diagnosticOf (error : Json) : Except Failure Diagnostic := do
  let message := ((error.fieldD "message").presentOr (.str "Unknown Node bridge failure")).shown
  let start ← placeOf (error.fieldD "start")
  return {
    message, start
    frame := (error.fieldD "frame").asText?
    flagLine := start.isSome && isFlag ((error.fieldD "start").fieldD "line") }

/-- The result in a reply. A rejected request fails in the way that `reject` says. -/
def resultOf (operation : Text) (reject : Diagnostic → Failure) (reply : Text) :
    Except Failure Json := do
  match Json.parse reply with
  | .error e =>
    match e.problem with
    | .tooManyDigits _ => throw (.json e)
    | .tooDeep _ => throw (.json e)
    | _ => throw (.bridge (.notJson operation))
  | .ok (.obj fields) =>
    let reply := Json.obj fields
    if (reply.fieldD "ok").truthy then
      match reply.fieldD "result" with
      | .obj result => return .obj result
      | _ => return .obj []
    else throw (reject (← diagnosticOf (reply.fieldD "error")))
  | .ok _ => throw (.bridge (.notObject operation))

variable {σ : Type}

/-- Sends a request and reads the reply. -/
def call (b : Bridge σ) (operation : Text) (payload : Json.Fields)
    (reject : Diagnostic → Failure := .transform) : Action σ Json := do
  b.note ("Bridge call " ++ operation)
  let reply ← b.send ⟨operation, payload, b.root, b.program⟩
  MonadExcept.ofExcept (resultOf operation reject reply)

/-- Fails unless the modules are installed; `hint` says how to install them. -/
def require (b : Bridge σ) (modules : List Text) (hint : Text) : Action σ Unit := do
  let result ← b.call "probe" [("modules", .arr (modules.map .str))]
  let missing := result.fieldD "missing"
  if missing.truthy then
    let names ← MonadExcept.ofExcept (missing.elements.mapError Failure.conversion)
    throw (.setup (.noModules (names.map Json.shown) hint))

/-- The modules that a stage needs, and how to install them. -/
def needs : Stage → Option (List Text × Text)
  | .markup => some (["svelte/compiler"], "npm install svelte")
  | .script => some (["typescript"], "npm install typescript")
  | .style => none
  | .hot => some (["svelte-hmr"], "npm install svelte-hmr")
  | .lowering =>
    some (["@babel/core", "@babel/preset-env"], "npm install @babel/core @babel/preset-env")

/-- Fails unless what a stage needs is installed. -/
def prepare (b : Bridge σ) (stage : Stage) : Action σ Unit :=
  match needs stage with
  | some (modules, hint) => b.require modules hint
  | none => pure ()

/-- The version of the markup tool. -/
def version (b : Bridge σ) : Action σ Text := do
  let result ← b.call "version" []
  return ((result.fieldD "version").presentOr (.str "unknown")).shown

/-- The version of the markup tool, asked for only if it is not known. -/
def versionOnce (b : Bridge σ) (known : Option Text) : Action σ Text :=
  match known with
  | some version => pure version
  | none => b.version

/-- The code and the map of a result. -/
def codeOf (result : Json) : Transformed where
  code := (result.fieldD "code").presentOr (.str "")
  map := (result.fieldD "map").toOption

/-- Compiles markup. -/
def compile (b : Bridge σ) (source : Text) (options : MarkupOptions) : Action σ Transformed := do
  let result ← b.call "compile" [("source", .str source), ("options", .obj options.toFields)]
  return { codeOf result with
    css := result.fieldD "css"
    cssMap := result.fieldD "cssMap"
    details := (result.fieldD "meta").presentOr (.obj []) }

/-- Lowers the content of a script block. -/
def transform (b : Bridge σ) (content filename : Text) : Action σ Transformed := do
  return codeOf (← b.call "typescript" [("content", .str content), ("filename", .str filename)])

/-- Makes code replaceable while it runs. -/
def instrument (b : Bridge σ) (r : HotRequest) : Action σ Json := do
  let options ← MonadExcept.ofExcept (r.options.toFields.mapError Failure.conversion)
  let details ← MonadExcept.ofExcept (r.details.toFields.mapError Failure.conversion)
  let result ← b.call "hot" [("id", .str r.id), ("code", r.code), ("hotOptions", .obj options),
    ("compiledMeta", .obj details), ("originalCode", .str r.markup),
    ("compileOptions", .obj r.markupOptions.toFields)]
  return .str ((result.fieldD "code").presentOr r.code).shown

/-- Lowers module code. -/
def lower (b : Bridge σ) (code : Json) (filename : Text) : Action σ Transformed := do
  return codeOf (← b.call "babel" [("code", code), ("filename", .str filename)] .lowering)

/-- The markup tool behind the bridge. -/
def markupTool (b : Bridge σ) : MarkupTool σ where
  version := b.version
  compile := b.compile

/-- The script tool behind the bridge. -/
def scriptTool (b : Bridge σ) : ScriptTool σ where
  transform content filename _ := b.transform content filename

/-- The hot reload tool behind the bridge. -/
def hotTool (b : Bridge σ) : HotTool σ where
  instrument := b.instrument

/-- The lowering tool behind the bridge. -/
def loweringTool (b : Bridge σ) : LoweringTool σ where
  lower := b.lower

/-- The script that the program runs. -/
def scriptName : Text := "bridge.js"

/-- Runs a program for one request. -/
def runProgram (run : List Text → Text → Completed) (r : BridgeRequest) :
    Except Failure Text :=
  let input := Json.render (.obj [("root", .str r.root), ("payload", .obj r.payload)])
  let done := run [scriptName, r.operation] input
  if done.exitCode = 0 then .ok done.output
  else
    .error (.bridge (.exitCode done.exitCode (Text.trim done.errors)))

/-- A bridge to an installed program. -/
def ofProgram (programs : Programs) (root program : Text)
    (note : Text → Action σ Unit := fun _ => pure ()) : Except Failure (Bridge σ) :=
  match programs program with
  | none => .error (.setup (.noProgram program))
  | some run =>
    .ok { root, program, note, send := fun r => MonadExcept.ofExcept (runProgram run r) }

end Bridge

end Componentry
