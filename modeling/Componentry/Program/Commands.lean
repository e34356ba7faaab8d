import Componentry.CommandLine.Parse
import Componentry.Document

/-!
# The program's commands

`compile` compiles components into a directory, and `serve` answers requests to compile them.
-/

namespace Componentry.Program

open CommandLine

/-- Asks for more log lines. -/
def verboseOption : OptionSpec where
  names := ["-v", "--verbose"]
  kind := .switch
  key := "verbose"
  about := some "Increase log verbosity for troubleshooting."

/-- Where the configuration is. -/
def configOption : OptionSpec where
  names := ["--config"]
  kind := .text
  key := "config"
  about := some "Path to .melte.yml or the directory containing it."

/-- Compiles components. -/
def compileCommand : Command where
  name := "compile"
  about := "Compile a component file or every component under a directory."
  operand := some ⟨"path", some "Component file or directory to compile."⟩
  options := [helpOption, verboseOption,
    ⟨["--arch"], .text, "arch",
      some "Target architecture; names starting with 'os.' compile for the server."⟩,
    ⟨["--out-dir"], .text, "out_dir",
      some "Directory receiving compiled modules, maps and stylesheets."⟩,
    ⟨["--package"], .text, "package",
      some "Owning package name, when compiling package code."⟩,
    ⟨["--cache-dir"], .text, "cache_dir",
      some "Directory for the persistent compile cache (overrides .melte.yml)."⟩,
    configOption,
    ⟨["--hmr"], .switch, "hmr", some "Instrument modules for hot reloading."⟩]

/-- Answers requests. -/
def serveCommand : Command where
  name := "serve"
  about := "Run the HTTP compile service."
  options := [helpOption, verboseOption, ⟨["--host"], .text, "host", none⟩,
    ⟨["--port"], .number, "port", none⟩, configOption]

/-- The program. -/
def program : ProgramSpec where
  name := "melte"
  about := "Compile single-file components into browser and server modules."
  options := [helpOption, verboseOption]
  commands := [compileCommand, serveCommand]

/-- What `compile` is asked for. The architecture and the directory are `none` if nothing is given
for them. -/
structure CompileOrder where
  path : Text
  arch : Option Text := some defaultArch
  outDir : Option Text := some "build"
  package : Package := .app
  cacheDir : Option Text := none
  hot : Bool := false
  deriving DecidableEq, Repr

/-- What `serve` is asked for; `none` where nothing is given. -/
structure ServeOrder where
  host : Option Text := some "127.0.0.1"
  portNumber : Option Int := some 8000
  deriving DecidableEq, Repr

/-- What the program is asked for. -/
inductive Order where
  | compile (order : CompileOrder)
  | serve (order : ServeOrder)
  deriving DecidableEq, Repr

/-- An order with the settings that all commands share. -/
structure Orders where
  verbose : Bool
  /-- Where the configuration is, unless nothing is given for it. -/
  config : Option Text
  order : Order
  deriving DecidableEq, Repr

/-- Is there a value for `key`? -/
def isGiven (values : List (Text × Value)) (key : Text) : Bool := (values.lookup key).isSome

/-- A text among the values, or else `default`; `none` if nothing is given for it. -/
def textOf (values : List (Text × Value)) (key : Text) (default : Option Text) : Option Text :=
  match values.lookup key with
  | some (.text s) => some s
  | some .nothing => none
  | _ => default

/-- The package among the values. -/
def packageOf (values : List (Text × Value)) (key : Text) : Package :=
  match values.lookup key with
  | some (.text name) => .named name
  | some .nothing => .unnamed
  | _ => .app

/-- A number among the values, or else `default`; `none` if nothing is given for it. -/
def numberOf (values : List (Text × Value)) (key : Text) (default : Int) : Option Int :=
  match values.lookup key with
  | some (.number n) => some n
  | some .nothing => none
  | _ => some default

/-- What an invocation asks for. -/
def ordersOf (i : Invocation) : Orders :=
  let text := textOf i.values
  { verbose := isGiven i.values "verbose"
    config := text "config" (some ".")
    order :=
      if i.command = compileCommand.name then
        .compile {
          path := i.operand.getD ""
          arch := text "arch" (some defaultArch)
          outDir := text "out_dir" (some "build")
          package := packageOf i.values "package"
          cacheDir := text "cache_dir" none
          hot := isGiven i.values "hmr" }
      else
        .serve {
          host := text "host" (some "127.0.0.1")
          portNumber := numberOf i.values "port" 8000 } }

/-- Reads the program's arguments. -/
def readOrders (args : List Text) : Except Halt Orders := (program.read args).map ordersOf

end Componentry.Program
