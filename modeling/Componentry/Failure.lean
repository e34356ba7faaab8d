import Componentry.Files.Tree
import Componentry.SourceMap.Basic
import Componentry.Yaml.Problem

/-!
# Failures

Everything that can go wrong in a compile, by cause. Each failure has a kind, which traces name, and
a message. A report is what a document's author sees of a failure: its message and, where a tool
gave one, its place.
-/

namespace Componentry

/-- What a tool says about its input. -/
structure Diagnostic where
  message : Text
  start : Option Position := none
  frame : Option Text := none
  /-- Was the line given as a truth value? -/
  flagLine : Bool := false
  deriving DecidableEq, Repr

/-- Why a tool is not available. -/
inductive SetupProblem where
  /-- No tool is configured for the stage. -/
  | noTool (stage : Text)
  /-- The program that runs the bridge is not installed. -/
  | noProgram (name : Text)
  | noLaunch (name : Text)
  /-- The project lacks modules that the bridge needs. -/
  | noModules (names : List Text) (hint : Text)
  | noImport (target reason : Text)
  | noEntryPoint (name reason : Text)
  /-- The style library is not installed. -/
  | noStyleLibrary
  /-- In a tool's own words. -/
  | told (message : Text)
  deriving DecidableEq, Repr

/-- The wording of a setup problem. -/
def SetupProblem.message : SetupProblem → Text
  | .noTool stage => "No transformer configured for the '" ++ stage ++ "' stage"
  | .noProgram name => "Cannot find `" ++ name ++ "`. Install Node.js to compile components."
  | .noLaunch name => "Unable to launch '" ++ name ++ "'."
  | .noModules names hint =>
    "Cannot find " ++ Text.join ", " (names.map fun n => "`" ++ n ++ "`") ++
      " in your application. Please install it with `" ++ hint ++ "`."
  | .noImport target reason => "Cannot import transformer '" ++ target ++ "': " ++ reason
  | .noEntryPoint name reason =>
    "Failed to load transformer entry point '" ++ name ++ "': " ++ reason
  | .noStyleLibrary =>
    "Cannot find the `libsass` package. Please install it with `pip install libsass`."
  | .told message => message

/-- What is wrong with a project's configuration. -/
inductive ConfigProblem where
  | malformed
  | notMapping
  | transformer (stage target : Text)
  deriving DecidableEq, Repr

/-- The name of the configuration file. -/
def configFilename : Text := ".melte.yml"

/-- The wording of a configuration problem. -/
def ConfigProblem.message : ConfigProblem → Text
  | .malformed => "Failed to parse " ++ configFilename
  | .notMapping => configFilename ++ " must contain a mapping at the root"
  | .transformer stage target =>
    "Transformer '" ++ stage ++ "' must be given as 'module:attribute', got " ++ target

/-- What is wrong with a choice of tools. -/
inductive ToolProblem where
  | unknownStage (stage : Text)
  | unknownStages (stages : List Text)
  /-- Asked for a stage that does not exist. -/
  | noStage (stage : Text)
  /-- Something that is neither a tool for the stage nor makes one. -/
  | wrongTool (stage role : Text)
  /-- Something that cannot be made out of what makers of tools may use. -/
  | unmade (name : Text)
  /-- A module that lacks what it is asked for. -/
  | noAttribute (owner name : Text)
  deriving DecidableEq, Repr

/-- The wording of a problem with tools. -/
def ToolProblem.message : ToolProblem → Text
  | .unknownStage stage => "Unknown transformer stage '" ++ stage ++ "'"
  | .unknownStages stages => "Unknown transformer stages: " ++ Text.join ", " stages
  | .noStage stage => quote stage
  | .wrongTool stage role =>
    "Transformer for '" ++ stage ++ "' must be a " ++ role ++ " or a factory for one"
  | .unmade name => name ++ " cannot be made here"
  | .noAttribute owner name => "module '" ++ owner ++ "' has no attribute '" ++ name ++ "'"

/-- What is wrong with a reply of the bridge. -/
inductive BridgeProblem where
  | notJson (operation : Text)
  | notObject (operation : Text)
  | exitCode (code : Nat) (stderr : Text)
  deriving DecidableEq, Repr

/-- The wording of a problem with the bridge. -/
def BridgeProblem.message : BridgeProblem → Text
  | .notJson operation => "Node bridge returned invalid JSON for '" ++ operation ++ "'"
  | .notObject operation => "Node bridge returned an unexpected payload for '" ++ operation ++ "'"
  | .exitCode code stderr =>
    "Node bridge failed with exit code " ++ toString code ++ ": " ++ stderr

/-- What is wrong with the name of a module. -/
inductive ModuleNameProblem where
  | empty
  /-- It is relative, to nothing. -/
  | relative (name : Text)
  deriving DecidableEq, Repr

/-- The wording of a problem with a module's name. -/
def ModuleNameProblem.message : ModuleNameProblem → Text
  | .empty => "Empty module name"
  | .relative name =>
    "the 'package' argument is required to perform a relative import for " ++ quote name

/-- The plain kinds of failure that a tool may raise. -/
inductive RaisedKind where
  | general | value | runtime | key | system
  deriving DecidableEq, Repr

/-- What a failure of another kind has for a place. -/
inductive ForeignStart where
  /-- Nothing, or what counts as nothing. -/
  | absent
  | place (p : Position)
  /-- A value of a type that lacks a part of a place. -/
  | lacking (type part : Text)
  deriving DecidableEq, Repr

/-- A failure of a kind that a tool brings along. -/
structure ForeignError where
  kind : Text
  message : Text
  start : ForeignStart := .absent
  deriving DecidableEq, Repr

/-- A failure, by cause. -/
inductive Failure where
  | sourceMap (e : SourceMap.Error)
  | conversion (e : Json.ConversionError)
  | json (e : Json.SyntaxError)
  | file (e : FileError)
  | setup (p : SetupProblem)
  | config (p : ConfigProblem)
  | tool (p : ToolProblem)
  | bridge (p : BridgeProblem)
  | moduleName (p : ModuleNameProblem)
  /-- A tool rejects its input. -/
  | transform (d : Diagnostic)
  /-- The lowering tool rejects the compiled module. -/
  | lowering (d : Diagnostic)
  /-- The lowering tool gave no code or no map. -/
  | noOutput (message : Text)
  | raised (kind : RaisedKind) (message : Text)
  | foreign (e : ForeignError)
  /-- A base 64 text that cannot be decoded. -/
  | base64
  /-- A configuration file that names something that does not exist. -/
  | yaml (p : Yaml.Problem)
  /-- A path that starts in the home directory of someone who has none. -/
  | noHome
  /-- A component path that names nothing. -/
  | noComponent (path : Text)
  deriving DecidableEq, Repr

namespace Failure

/-- The default wording for a lowering without output. -/
def noOutputMessage : Text := "no output produced"

/-- What went wrong, in words. -/
def message : Failure → Text
  | .sourceMap e => e.message
  | .conversion e => e.message
  | .json e => e.message
  | .file e => e.message
  | .setup p => p.message
  | .config p => p.message
  | .tool p => p.message
  | .bridge p => p.message
  | .moduleName p => p.message
  | .transform d => d.message
  | .lowering d => d.message
  | .noOutput message => message
  | .raised .key message => quote message
  | .raised _ message => message
  | .foreign e => e.message
  | .base64 => "Incorrect padding"
  | .yaml _ => "no such value"
  | .noHome => "Could not determine home directory."
  | .noComponent path => "No such file or directory: " ++ path

/-- The kind of a conversion error. -/
def conversionKind : Json.ConversionError → Text
  | .integerText _ => "ValueError"
  | .integerDigits _ => "ValueError"
  | .integerType _ => "TypeError"
  | .infinite => "OverflowError"
  | .nan => "ValueError"
  | .notIterable _ => "TypeError"
  | .indexRange => "IndexError"
  | .missingKey _ => "KeyError"
  | .noMethod _ _ => "AttributeError"
  | .notPair _ => "TypeError"
  | .pairLength _ _ => "ValueError"
  | .notKey _ => "TypeError"
  | .noOrder => "TypeError"
  | .noLength _ => "TypeError"
  | .noContent _ => "TypeError"
  | .notPath _ => "TypeError"
  | .notWritable _ => "TypeError"
  | .notPart _ _ => "TypeError"

/-- The kind of a text that is no data value. -/
def jsonKind (e : Json.SyntaxError) : Text :=
  match e.problem with
  | .tooManyDigits _ => "ValueError"
  | .tooDeep _ => "RecursionError"
  | _ => "JSONDecodeError"

/-- The kind of a file error. -/
def fileKind : FileError → Text
  | .notFound _ => "FileNotFoundError"
  | .isDirectory _ => "IsADirectoryError"
  | .notDirectory _ => "NotADirectoryError"
  | .occupied _ => "FileExistsError"
  | .tooLong _ => "OSError"
  | .nullByte => "ValueError"
  | .noName _ => "ValueError"
  | .badName _ => "ValueError"
  | .decode _ => "UnicodeDecodeError"
  | .encode _ => "UnicodeEncodeError"

/-- The kind of a problem with a configuration file. -/
def yamlKind : Yaml.Problem → Text
  | .malformed => "ConfigError"
  | .outOfRange => "ValueError"
  | .tooLarge => "OverflowError"
  | .noDigits => "IndexError"
  | .unknownWord => "KeyError"
  | .notMoment => "AttributeError"
  | .momentType => "TypeError"
  | .tooDeep => "RecursionError"

/-- The word for the kind of failure. -/
def kind : Failure → Text
  | .sourceMap (.conversion e) => conversionKind e
  | .sourceMap (.json e) => jsonKind e
  | .sourceMap _ => "ValueError"
  | .conversion e => conversionKind e
  | .json e => jsonKind e
  | .file e => fileKind e
  | .setup _ => "SetupError"
  | .config _ => "ConfigError"
  | .tool (.noStage _) => "KeyError"
  | .tool (.wrongTool _ _) => "TypeError"
  | .tool (.unmade _) => "TypeError"
  | .tool (.noAttribute _ _) => "AttributeError"
  | .tool _ => "ValueError"
  | .bridge _ => "RuntimeError"
  | .moduleName .empty => "ValueError"
  | .moduleName (.relative _) => "TypeError"
  | .transform _ => "TransformError"
  | .lowering _ => "LoweringError"
  | .noOutput _ => "NoOutputError"
  | .raised .general _ => "MelteError"
  | .raised .value _ => "ValueError"
  | .raised .runtime _ => "RuntimeError"
  | .raised .key _ => "KeyError"
  | .raised .system _ => "OSError"
  | .foreign e => e.kind
  | .base64 => "Error"
  | .yaml p => yamlKind p
  | .noHome => "RuntimeError"
  | .noComponent _ => "FileNotFoundError"

/-- Is a tool missing, rather than at fault? -/
def isSetup : Failure → Bool
  | .setup _ => true
  | _ => false

/-- Did the lowering tool fail? -/
def isLowering : Failure → Bool
  | .lowering _ => true
  | .noOutput _ => true
  | _ => false

/-- The message, or the kind if there is none, and a trace below it. -/
def traced (f : Failure) : Text :=
  (if f.message = "" then f.kind else f.message) ++ "\n<trace " ++ f.kind ++ ">"

/-- The place a failure carries. -/
def start : Failure → Option Position
  | .transform d => d.start
  | .lowering d => d.start
  | .foreign ⟨_, _, .place p⟩ => some p
  | _ => none

/-- Did a tool give the line as a truth value? -/
def flagLine : Failure → Bool
  | .transform d => d.flagLine
  | .lowering d => d.flagLine
  | _ => false

/-- The excerpt a failure carries. -/
def frame : Failure → Option Text
  | .transform d => d.frame
  | .lowering d => d.frame
  | _ => none

/-- Why the failure cannot be reported, if it cannot: it has something else for a place, such as an
offset other than zero. -/
def obstacle? : Failure → Option Failure
  | .file (.decode e) => if e.first = 0 then none else some (.conversion (.noMethod "int" "line"))
  | .file (.encode e) => if e.first = 0 then none else some (.conversion (.noMethod "int" "line"))
  | .foreign ⟨_, _, .lacking type part⟩ => some (.conversion (.noMethod type part))
  | _ => none

/-- Can the failure be reported? -/
def isReportable (f : Failure) : Bool := f.obstacle?.isNone

end Failure

/-- What a document's author sees of a failure; place zero if none is known. -/
structure Report where
  message : Text
  line : Int := 0
  column : Int := 0
  deriving DecidableEq, Repr

namespace Report

/-- A message with the place of a failure. -/
def at_ (f : Failure) (message : Text) : Report :=
  match f.start with
  | some p => ⟨message, p.line, p.column⟩
  | none => ⟨message, 0, 0⟩

/-- The report of a failure in preprocessing or compiling. -/
def ofFailure (f : Failure) : Except Failure Report :=
  match f.obstacle? with
  | some g => .error g
  | none => .ok (at_ f f.traced)

/-- The lines of an excerpt, each behind a bar. -/
def framed (frame : Text) : Text :=
  Text.join "\n" ((Text.splitOn '\n' frame).map fun line => "| " ++ line)

/-- The report of a failure in lowering. Only failures of the lowering tool that have a place, or
that say that there was no output, are reported; others are returned. -/
def ofLowering (f : Failure) : Except Failure Report :=
  match f with
  | .noOutput _ => .ok (at_ f f.traced)
  | .lowering d =>
    if d.start.isNone then .error f
    else
      match d.frame with
      | some frame =>
        if frame = "" then .ok (at_ f d.message)
        else .ok (at_ f (d.message ++ "\n\n" ++ framed frame))
      | none => .ok (at_ f d.message)
  | _ => .error f

end Report

end Componentry
