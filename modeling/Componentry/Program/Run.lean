import Componentry.Collect
import Componentry.Compiler.Batch
import Componentry.Host
import Componentry.Logging
import Componentry.Program.Commands
import Componentry.Program.Outputs

/-!
# Running the program

A run reads its arguments, loads the configuration and does what it is asked for. It ends with an
exit code, or with a failure that it does not handle.
-/

namespace Componentry.Program

/-- A service to start, with the address to listen on; `none` where nothing is given. -/
structure Served where
  host : Option Text
  portNumber : Option Int
  title : Text
  version : Text
  deriving DecidableEq, Repr

/-- What the service is called. -/
def serviceTitle : Text := "Melte Service"

/-- What a run has come to. -/
structure Run (σ : Type) where
  outcome : Except Failure Nat := .ok 0
  output : Text := ""
  errors : Text := ""
  served : List Served := []
  tree : FileTree
  tools : σ

namespace Run

variable {σ : Type}

/-- Writes a line to the error stream. -/
def complain (r : Run σ) (line : Text) : Run σ := { r with errors := r.errors ++ line ++ "\n" }

/-- Writes log lines. -/
def log (r : Run σ) (setup : LogSetup) (lines : List LogLine) : Run σ :=
  (lines.filter setup.keeps).foldl (fun r l => r.complain l.shown) r

/-- Ends with an exit code and a message. -/
def quit (r : Run σ) (code : Nat) (message : Text) : Run σ :=
  { r.complain message with outcome := .ok code }

/-- Ends with a failure. -/
def fail (r : Run σ) (f : Failure) : Run σ := { r with outcome := .error f }

end Run

/-- Is a failure one that the user can mend: a missing file or a missing tool? -/
def isExpected : Failure → Bool
  | .file (.notFound _) => true
  | .noComponent _ => true
  | .setup _ => true
  | _ => false

/-- Ends with a failure: with a message if it is one to expect. -/
def Run.stop {σ : Type} (r : Run σ) (f : Failure) : Run σ :=
  if isExpected f then r.quit 1 f.message else r.fail f

/-- A line that reports against a document. -/
def reportLine (path : Text) (r : Report) : Text :=
  path ++ ":" ++ toString r.line ++ ":" ++ toString r.column ++ ": " ++ r.message

variable {σ : Type}

/-- Reports on documents and writes their outputs, up to the first failure. -/
def deliver (setup : LogSetup) (dir : Path) : List (Text × Register) → Run σ → Run σ × Bool
  | [], run => (run, true)
  | (path, register) :: rest, run =>
    let run := register.errors.foldl (fun run e => run.complain (reportLine path e)) run
    match writeOutputs dir path run.tree register with
    | (some f, tree) => (Run.stop { run with tree } f, false)
    | (none, tree) =>
      let run := { run with tree }
      deliver setup dir rest (run.log setup [⟨"cli", .info, "Compiled " ++ path⟩])

/-- The configuration with the cache directory that an order names. -/
def withCache (cwd : Path) (config : Config) (order : CompileOrder) : Except Failure Config :=
  match Text.nonEmpty order.cacheDir with
  | none => .ok config
  | some dir => do
    let dir ← (cwd.resolved (.ofText dir)).mapError Failure.file
    return { config with cacheDir := some dir }

/-- Nothing is given where a path is needed. -/
def noPath : Failure := .conversion (.notPath (Json.arr []).typeName)

/-- Compiles what an order names, with a configuration that has the cache directory. -/
def compileWith (h : Host σ) (setup : LogSetup) (config : Config) (order : CompileOrder)
    (run : Run σ) : Run σ :=
  match h.compiler config run.tree run.tools with
  | (.error f, tools) =>
    let run := { run with tools }
    if f.isSetup then run.quit 1 f.message else run.fail f
  | (.ok compiler, tools) =>
    let run := { run with tools }
    match order.outDir, collectComponents run.tree h.cwd (.ofText order.path) with
    | none, _ => run.fail noPath
    | _, .error f => run.stop f
    | some outDir, .ok found =>
      let inputs := found.map fun p =>
        Input.of (config.root.relativeTo p) none order.arch order.package order.hot
      let batch := compiler.process run.tree run.tools inputs
      let run := { run with tree := batch.tree, tools := batch.tools }.log setup batch.log
      match batch.outcome with
      | .error f => run.stop f
      | .ok _ =>
        let documents := (inputs.map Input.path).zip batch.registers
        let dir := h.cwd.join (.ofText outDir)
        match deliver setup dir documents run with
        | (run, false) => run
        | (run, true) =>
          let failures := batch.registers.foldl (fun n r => n + r.errors.length) 0
          if failures = 0 then run
          else run.quit 1 (toString failures ++ " component(s) failed to compile")

/-- Compiles what an order names. -/
def compile (h : Host σ) (setup : LogSetup) (config : Config) (order : CompileOrder) (run : Run σ) :
    Run σ :=
  match withCache h.cwd config order with
  | .error f => run.fail f
  | .ok config => compileWith h setup config order run

/-- Does what orders say. -/
def obey (h : Host σ) (orders : Orders) (run : Run σ) : Run σ :=
  let setup := LogSetup.of orders.verbose none
  match orders.config.elim (.error noPath) (h.config run.tree) with
  | .error (.config p) => run.quit 1 p.message
  | .error f => run.fail f
  | .ok config =>
    match orders.order with
    | .compile order => compile h setup config order run
    | .serve order =>
      { run with served := [⟨order.host, order.portNumber, serviceTitle, programVersion⟩] }

/-- Runs the program. -/
def run (h : Host σ) (args : List Text) (tree : FileTree) (tools : σ) : Run σ :=
  let start : Run σ := { tree, tools }
  match readOrders args with
  | .error (.help text) => { start with output := text }
  | .error (.wrong usage title message) =>
    (start.complain usage).quit 2 (title ++ ": error: " ++ message)
  | .ok orders => obey h orders start

end Componentry.Program
