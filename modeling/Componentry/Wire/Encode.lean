import Componentry.Markup.Section
import Componentry.Pipeline.Compile
import Componentry.Tool.Bridge
import Componentry.Tool.Scripted
import Componentry.Tool.Stage

/-!
# Writing values

How the library's values are written as data.
-/

namespace Componentry.Wire

/-- A text. -/
def str (t : Text) : Json := .str t

/-- A text or `null`. -/
def optStr : Option Text → Json
  | some s => .str s
  | none => .null

/-- A line and a column. -/
def position (p : Position) : Json := .arr [.int p.line, .int p.column]

/-- A line and a column, the line as a truth value if it was given as one. -/
def placeOf (flagLine : Bool) (p : Position) : Json :=
  .arr [if flagLine then .bool (p.line ≠ 0) else .int p.line, .int p.column]

/-- Is the message the library's own wording? -/
def isStated : Failure → Bool
  | .sourceMap (.conversion _) => false
  | .sourceMap (.json _) => false
  | .conversion _ => false
  | .json _ => false
  | .file _ => false
  | .base64 => false
  | .yaml _ => false
  | .noHome => false
  | .moduleName _ => false
  | .foreign _ => false
  | .tool (.unmade _) => false
  | .tool (.noAttribute _ _) => false
  | _ => true

/-- Does a failure of this kind carry a place? -/
def isPlaced : Failure → Bool
  | .transform _ => true
  | .lowering _ => true
  | .noOutput _ => true
  | _ => false

/-- A failure, with its message where the wording is the library's own. -/
def failure (f : Failure) : Json :=
  let kind : Json.Fields := [("error", .str f.kind)]
  let message : Json.Fields := if isStated f then [("message", .str f.message)] else []
  let place : Json.Fields := if isPlaced f then
      [("start", (f.start.map (placeOf f.flagLine)).getD .null), ("frame", optStr f.frame)]
    else []
  .obj (kind ++ message ++ place)

/-- A value, or the failure in its place. -/
def outcome {α : Type} (encode : α → Json) : Except Failure α → Json
  | .ok a => encode a
  | .error f => failure f

/-- The same for what may fail with a source map's error. -/
def mapOutcome {α : Type} (encode : α → Json) (r : Except SourceMap.Error α) : Json :=
  outcome encode (r.mapError Failure.sourceMap)

/-- A mapping. -/
def mapping (m : SourceMap.Mapping) : Json :=
  let origin : List Json := match m.origin with
    | some o => [.str o.source, .int o.position.line, .int o.position.column]
    | none => [.null, .null, .null]
  .arr ([.int m.generated.line, .int m.generated.column] ++ origin ++ [optStr m.name])

/-- The origin of a place. -/
def located : Option (SourceMap.Origin × Option Text) → Json
  | none => .obj [("source", .null), ("line", .null), ("column", .null), ("name", .null)]
  | some (o, name) =>
    .obj [("source", .str o.source), ("line", .int o.position.line),
      ("column", .int o.position.column), ("name", optStr name)]

/-- The attributes of a block; one without a value is true. -/
def attributes (a : Markup.Attributes) : Json :=
  .obj (a.map fun (name, value) => (name, match value with
    | some v => .str v
    | none => .bool true))

/-- A block. -/
def block (b : Markup.Block) : Json :=
  .obj [("kind", .str b.kind.tag), ("content", str b.content),
    ("attributes", attributes b.attributes), ("start", .int b.start), ("end", .int b.stop),
    ("lang", optStr b.lang)]

/-- A section of a document. -/
def section_ (s : Markup.Section) : Json :=
  .obj [("section", .str s.name.tag), ("data", str s.data)]

/-- A report. -/
def report (r : Report) : Json :=
  .obj [("message", .str r.message), ("line", .int r.line), ("column", .int r.column)]

/-- What is registered for a document. -/
def registerFields (r : Register) : Json.Fields :=
  [("errors", .arr (r.errors.map report)), ("javascript", .arr (r.modules.map Module.toJson)),
    ("stylesheets", .arr (r.stylesheets.map Stylesheet.toJson)),
    ("html", .arr (r.html.map HtmlPart.toJson)), ("watched", .arr r.watched)]

/-- What a block comes to. -/
def processedFields (p : Processed) : Json.Fields :=
  [("code", p.code), ("map", Json.ofOption p.map), ("dependencies", .arr p.dependencies),
    ("stylesheets", .arr (p.stylesheets.map Stylesheet.toJson))]

/-- What a document comes to. -/
def spliced (s : Spliced) : Json :=
  .obj [("code", str s.code), ("map", Json.ofOption s.map), ("dependencies", .arr s.dependencies),
    ("stylesheets", .arr (s.stylesheets.map Stylesheet.toJson))]

/-- What a block comes to. -/
def processed (p : Processed) : Json := .obj (processedFields p)

/-- What a style block comes to. -/
def styleOutcome (o : StyleOutcome) : Json :=
  let emitted : Json.Fields := [("emit", .bool o.emitted)]
  .obj (processedFields o.toProcessed ++ emitted)

/-- The digest of a key, if there is one. -/
def keyAnswer (key : Option CacheKey) : Json :=
  match key with
  | some k => .obj [("digest", .str (k.digest .standard))]
  | none => .obj [("no_cache", .bool true)]

/-- A call of the hot reload tool. -/
def hotCall (call : Scripted.Call) : Json :=
  match call with
  | .hot r => .obj [("stage", .str "hot"), ("id", .str r.id), ("hot_options", r.options),
      ("meta", r.details), ("original", .str r.markup), ("options", .obj r.markupOptions.toFields)]
  | _ => .null

/-- A request of the bridge. -/
def request (r : BridgeRequest) : Json :=
  .arr [.str r.operation, .obj r.payload, .str r.root, .str r.program, .str Bridge.scriptName]

/-- A result of a tool. -/
def transformed (r : Transformed) : Json :=
  .obj [("code", r.code), ("map", Json.ofOption r.map), ("dependencies", .arr r.dependencies),
    ("diagnostics", .arr []), ("css", r.css), ("css_map", r.cssMap), ("meta", r.details)]

/-- The kind of a result. -/
def resultKind : Option Result → Json
  | some (.page _) => .str "html"
  | some (.code _) => .str "module"
  | none => .null

/-- How often each stage was called, of those that were. -/
def callCounts (calls : Scripted.Calls) : Json :=
  .obj ((Stage.all.map Stage.name).filterMap fun stage =>
    let n := (calls.filter fun c => c.stage == stage).length
    if n == 0 then none else some (stage, .int n))

/-- The options that the markup tool was called with, in the order of their texts. -/
def markupCalls (calls : Scripted.Calls) : List Json :=
  let options := calls.filterMap fun
    | .markup o => some (Json.obj o.toFields).sorted
    | _ => none
  options.mergeSort fun a b => !Text.before b.render a.render

end Componentry.Wire
