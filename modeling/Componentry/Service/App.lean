import Componentry.Cache.Payload
import Componentry.Compiler.Batch
import Componentry.Service.Address
import Componentry.Service.Request

/-!
# The service

Answers requests to compile a document. The compiler is made for the first request that needs it and
kept; if that fails, the next request tries again. A missing tool makes the service unavailable, and
any other failure is an internal error of that request alone.
-/

namespace Componentry.Service

/-- A request. -/
structure Request where
  method : Text := "POST"
  /-- The address that it goes to. -/
  path : Text := "/compile"
  body : ByteArray := .empty

/-- The answer to a request. -/
inductive Reply where
  | data (status : Nat) (body : Json)
  /-- The request is wrong. -/
  | rejected (errors : List FieldError)
  /-- Something went wrong that has nothing to do with the request. -/
  | crashed

/-- An answer with data, if the data can be sent. -/
def answer (status : Nat) (body : Json) : Reply :=
  if canSend body then .data status body else .crashed

/-- A message in the place of an answer. -/
def detail (status : Nat) (message : Text) : Reply :=
  answer status (.obj [("detail", .str message)])

/-- The answer to a wrong request, which shows what was found where it is wrong. -/
def rejection (errors : List FieldError) : Reply :=
  if errors.all fun e => canSend e.found then .rejected errors else .crashed

/-- The service between requests. -/
structure State (σ : Type) where
  compiler : Option (Compiler σ) := none
  /-- How often a compiler was made or tried to be. -/
  built : Nat := 0
  tree : FileTree
  tools : σ

variable {σ : Type}

/-- How a compiler is made. -/
abbrev Factory (σ : Type) : Type := FileTree → σ → Except Failure (Compiler σ) × σ

/-- The answer to a failure. -/
def failed (f : Failure) : Reply := if f.isSetup then detail 503 f.message else .crashed

/-- Is it an object, or nothing? -/
def isMap : Json → Bool
  | .null | .obj _ => true
  | _ => false

/-- May the stylesheet stand in an answer? -/
def isPlain (s : Stylesheet) : Bool := s.data.asText?.isSome && isMap s.sourceMap

/-- A stylesheet in an answer. -/
def stylesheet (s : Stylesheet) : Json :=
  .obj [("path", .str s.path), ("data", s.data), ("source_map", s.sourceMap)]

/-- A report in an answer. -/
def report (r : Report) : Json :=
  .obj [("message", .str r.message), ("line", .int r.line), ("column", .int r.column)]

/-- What is registered for a document, as an answer. Numbers in maps that are not finite are left
out. -/
def compiled (r : Register) : Reply :=
  if r.stylesheets.all isPlain then
    let (code, map) := match r.modules.getLast? with
      | some m => (m.data, m.sourceMap)
      | none => (.null, .null)
    answer 200 (finite (.obj [
      ("status", .str (if r.errors.isEmpty then "ok" else "error")), ("code", code),
      ("source_map", map), ("stylesheets", .arr (r.stylesheets.map stylesheet)),
      ("html", .arr (r.html.map HtmlPart.toJson)), ("errors", .arr (r.errors.map report))]))
  else .crashed

/-- The compiler, which is made if there is none. -/
def ready (factory : Factory σ) (s : State σ) : Except Failure (Compiler σ) × State σ :=
  match s.compiler with
  | some c => (.ok c, s)
  | none =>
    match factory s.tree s.tools with
    | (.ok c, tools) => (.ok c, { s with compiler := some c, built := s.built + 1, tools })
    | (.error f, tools) => (.error f, { s with built := s.built + 1, tools })

/-- Compiles the document in a body. -/
def compile (factory : Factory σ) (s : State σ) (body : Option Json) : Reply × State σ :=
  match ready factory s with
  | (.error f, s) => (failed f, s)
  | (.ok compiler, s) =>
    match inputOf body with
    | .error errors => (rejection errors, s)
    | .ok input =>
      let batch := compiler.process s.tree s.tools [input]
      let s := { s with compiler := some batch.compiler, tree := batch.tree, tools := batch.tools }
      match batch.outcome with
      | .error f => (failed f, s)
      | .ok _ => (compiled (batch.registers.headD {}), s)

/-- Answers a request. Its method may be in letters of any case. -/
def handle (factory : Factory σ) (s : State σ) (r : Request) : Reply × State σ :=
  match route? r.path, (Text.upperAscii r.method).toString? with
  | none, _ => (detail 404 "Not Found", s)
  | some .page, some "GET" => (.data 200 .null, s)
  | some .health, some "GET" => (.data 200 (.obj [("status", .str "ok")]), s)
  | some .compile, some "POST" =>
    match bodyOf r.body with
    | none => (detail 400 "There was an error parsing the body", s)
    | some (.error errors) => (rejection errors, s)
    | some (.ok body) => compile factory s body
  | some _, _ => (detail 405 "Method Not Allowed", s)

end Componentry.Service
