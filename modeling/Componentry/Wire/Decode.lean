import Componentry.Compiler.Basic
import Componentry.Mode
import Componentry.Tool.Scripted
import Componentry.Tool.Stage

/-!
# Reading values

How the library's values are read from data. What is left out has a default.
-/

namespace Componentry.Wire

/-- The field of that name, `null` if there is none. -/
def field (key : Text) (j : Json) : Json := j.fieldD key

/-- Is there a field of that name? -/
def has (key : Text) (j : Json) : Bool := (j.field? key).isSome

/-- The items of a list. -/
def items : Json → List Json
  | .arr xs => xs
  | _ => []

/-- The fields of an object. -/
def fields : Json → Json.Fields
  | .obj fs => fs
  | _ => []

/-- A text, empty if the value is none. -/
def text : Json → Text
  | .str s => s
  | _ => ""

/-- A text, or else `d`. -/
def textOr (d : Text) : Json → Text
  | .str s => s
  | _ => d

/-- The text in a field, empty if there is none. -/
def textAt (key : Text) (j : Json) : Text := text (field key j)

/-- The text in a field, if there is one. -/
def textAt? (key : Text) (j : Json) : Option Text := (field key j).asText?

/-- The path in a field, seen from `root`; an empty one is none. -/
def pathAt? (root : Path) (key : Text) (j : Json) : Option Path :=
  (Text.nonEmpty (textAt? key j)).map root.child

/-- The items of the list in a field. -/
def itemsAt (key : Text) (j : Json) : List Json := items (field key j)

/-- A whole number, zero if the value is none. -/
def integer : Json → Int
  | .int n => n
  | .bool true => 1
  | _ => 0

/-- A truth value; of other values, those that are empty or zero are false. -/
def flag (j : Json) : Bool := j.truthy

/-- The truth value in a field, false if there is none. -/
def flagAt (key : Text) (j : Json) : Bool := flag (field key j)

/-- A line and a column. -/
def pair (j : Json) : Position :=
  match j with
  | .arr [a, b] => ⟨integer a, integer b⟩
  | _ => ⟨0, 0⟩

/-- The first item of a list. -/
def first (j : Json) : Json := (items j).headD .null

/-- The second item of a list. -/
def second (j : Json) : Json := ((items j).drop 1).headD .null

/-- A list of texts. -/
def strings (j : Json) : List Text := (items j).map text

/-- The fields of `base`, with those of `changes` in their place. -/
def overridden (base changes : Json) : Json :=
  .obj ((fields changes).foldl (fun fs (k, v) => Json.Fields.set k v fs) (fields base))

/-- A failure by its kind. -/
def failureOf (j : Json) : Failure :=
  let message := textOr "" (field "message" j)
  let start := (field "start" j).toOption.map pair
  let frame := (field "frame" j).asText?
  match (text (field "kind" j)).toString? with
  | some "SetupError" => .setup (.told message)
  | some "TransformError" => .transform { message, start, frame }
  | some "LoweringError" => .lowering { message, start, frame }
  | some "NoOutputError" => .noOutput (textOr Failure.noOutputMessage (field "message" j))
  | some "ValueError" => .raised .value message
  | some "RuntimeError" => .raised .runtime message
  | some "KeyError" => .raised .key message
  | some "OSError" => .raised .system message
  | _ => .raised .general message

/-- What a scripted tool is told. -/
def scriptOf (j : Json) : Scripted.Script :=
  let result := field "result" j
  { failure := (field "error" j).toOption.map failureOf
    failOn := text (field "error_on" j)
    code := result.field? "code"
    map := (result.field? "map").map Json.toOption
    dependencies := result.field? "dependencies"
    css := result.field? "css"
    cssMap := result.field? "css_map"
    details := result.field? "meta"
    missing := flag (field "missing" j)
    version := textOr "3.0.0-test" (field "version" j) }

/-- The names of the stages. -/
def stageNames : List Text := Stage.all.map Stage.name

/-- The scripts of the stages, those in `missing` having no tool. -/
def scriptsOf (stages : Json) (missing : List Text) : Scripted.Scripts :=
  let of (stage : Text) : Scripted.Script :=
    { scriptOf (field stage stages) with missing := missing.elem stage }
  { markup := of "markup", script := of "script", style := of "style", hot := of "hot"
    lowering := of "lowering" }

/-- The stages that have no tool. -/
def missingStages (stages : Json) : List Text :=
  stageNames.filter fun stage => flag (field "missing" (field stage stages))

/-- A stylesheet. -/
def stylesheetOf (j : Json) : Stylesheet :=
  { path := text (field "path" j), data := field "data" j, sourceMap := field "source_map" j
    lazy := flag (field "lazy" j) }

/-- The options of a project. -/
def optionsOf (j : Json) : Options :=
  { dev := field "dev" j
    hydratable := (j.field? "hydratable").getD (.bool false)
    css := (j.field? "css").getD (.bool false)
    cssHashPrefix := field "css_hash_prefix" j
    isPublishing := (j.field? "is_publishing").getD (.bool false) }

/-- The options of a markup tool. -/
def markupOptionsOf (j : Json) : MarkupOptions :=
  { filename := textOr "App.svelte" (field "filename" j)
    name := textOr "App" (field "name" j)
    dev := (j.field? "dev").getD (.bool true)
    generate := textOr "dom" (field "generate" j)
    hydratable := flag (field "hydratable" j)
    css := flag (field "css" j)
    cssHashPrefix := field "css_hash_prefix" j }

/-- An input. -/
def inputOf (j : Json) : Input :=
  .of (textOr "App.svelte" (field "path" j)) (field "content" j).asText?
    (some (textOr defaultArch (field "arch" j))) (.ofName? (field "package" j).asText?)
    (flag (field "hmr" j))

/-- A document. -/
def documentOf (j : Json) : Document :=
  { path := textOr "App.svelte" (field "path" j), content := text (field "content" j)
    arch := some (textOr defaultArch (field "arch" j))
    package := .ofName? (field "package" j).asText?
    sourceHash := textOr "0" (field "hash" j) }

/-- A module that is to be lowered. -/
def artifactOf (j : Json) : Artifact :=
  { code := (j.field? "code").getD (.str "let a;"), map := (field "map" j).toOption
    stylesheets := (items (field "stylesheets" j)).map stylesheetOf }

/-- What a block becomes: its own text where nothing is said. -/
def processedOf (b : Markup.Block) (j : Json) : Except Failure Processed :=
  match j with
  | .null => .ok { code := .str b.content }
  | j =>
    if has "error" j then .error (failureOf (field "error" j))
    else do
      let dependencies ← ((j.field? "dependencies").getD (.arr [])).elements.mapError
        Failure.conversion
      return {
        dependencies
        code := (j.field? "code").getD (.str b.content)
        map := (field "map" j).toOption
        stylesheets := (itemsAt "stylesheets" j).map stylesheetOf }

/-- What a hot reload tool is asked for. -/
def hotRequestOf (j : Json) : HotRequest :=
  { id := "App.svelte", code := field "code" j, options := .obj (hotOptions none)
    details := (j.field? "meta").getD (.obj []), markup := "<p>"
    markupOptions := markupOptionsOf (field "options" j) }

/-- A section of a page. -/
def partOf (j : Json) : HtmlPart := ⟨text (field "section" j), text (field "data" j)⟩

/-- A result. -/
def resultOf (j : Json) : Result :=
  match j with
  | .arr parts => .page (parts.map partOf)
  | j => .code { sourcePath := text (field "source_path" j), path := text (field "path" j)
                 data := field "data" j, sourceMap := field "source_map" j
                 stylesheets := (items (field "stylesheets" j)).map stylesheetOf }

/-- The limit of a memory: of a number with a fraction, only its whole part counts. -/
def limitOf : Json → Int
  | .int n => n
  | .bool b => if b then 1 else 0
  | .float (.finite negative m e) => Binary64.floor negative m e
  | .float (.infinite true) => -1
  | _ => defaultCacheSize

/-- The compiler with the limit in a field, if there is one. Sizes compare with numbers only. -/
def limited {σ : Type} (c : Compiler σ) (key : Text) (j : Json) : Compiler σ :=
  match j.field? key with
  | none => c
  | some limit =>
    { c with memory := { c.memory with limit := limitOf limit }
             comparable := (Json.numberBefore (.int 0) limit).isSome || limit matches .float _ }

/-- Variables and their values. -/
def environmentOf (j : Json) : Environment := (fields j).map fun (k, v) => (k, text v)

/-- A level by its word. -/
def levelOf (name : Text) : LogLevel :=
  match name.toString? with
  | some "DEBUG" => .debug
  | some "WARNING" | some "WARN" => .warning
  | some "ERROR" => .error
  | some "CRITICAL" | some "FATAL" => .critical
  | _ => .info

end Componentry.Wire
