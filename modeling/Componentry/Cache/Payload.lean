import Componentry.Json.Printer
import Componentry.Output

/-!
# Payloads

Results as data values, the way the cache on disk keeps them. Reading is lenient: an object that is
no payload gives no result, and values of other types are shown as text.
-/

namespace Componentry

namespace Stylesheet

/-- The stylesheet as a data value. -/
def toJson (s : Stylesheet) : Json :=
  .obj [("path", .str s.path), ("data", s.data), ("source_map", s.sourceMap),
    ("lazy", .bool s.lazy)]

/-- Reads a stylesheet; only an object can be one. -/
def ofJson? : Json → Option Stylesheet
  | .obj fields =>
    let item := Json.obj fields
    some {
      path := (item.fieldD "path").shown
      data := .str ((item.fieldD "data").presentOr (.str "")).shown
      sourceMap := item.fieldD "source_map"
      lazy := (item.fieldD "lazy").truthy }
  | _ => none

end Stylesheet

namespace HtmlPart

/-- The section as a data value. -/
def toJson (p : HtmlPart) : Json := .obj [("section", .str p.name), ("data", .str p.data)]

/-- Reads a section; only an object can be one. -/
def ofJson? : Json → Option HtmlPart
  | .obj fields =>
    let item := Json.obj fields
    some ⟨(item.fieldD "section").shown, ((item.fieldD "data").presentOr (.str "")).shown⟩
  | _ => none

end HtmlPart

namespace Module

/-- The module as a data value. -/
def toJson (m : Module) : Json :=
  .obj [("source_path", .str m.sourcePath), ("path", .str m.path), ("data", m.data),
    ("source_map", m.sourceMap), ("stylesheets", .arr (m.stylesheets.map Stylesheet.toJson))]

end Module

namespace Result

/-- The result as a data value. -/
def toJson : Result → Json
  | .page parts => .obj [("kind", .str "html"), ("sections", .arr (parts.map HtmlPart.toJson))]
  | .code m => .obj [("kind", .str "module"), ("output", m.toJson)]

/-- The items of a field that may be missing or empty. -/
def itemsOf (key : Text) (j : Json) : Except Failure (List Json) :=
  (((j.fieldD key).presentOr (.arr [])).elements).mapError .conversion

/-- Reads a page: none if one of its sections is no object. -/
def pageOf? (payload : Json) : Except Failure (Option Result) := do
  return ((← itemsOf "sections" payload).mapM HtmlPart.ofJson?).map .page

/-- Reads a module: none if it is no object. -/
def moduleOf? (payload : Json) : Except Failure (Option Result) :=
  match payload.fieldD "output" with
  | .obj fields => do
    let raw := Json.obj fields
    let stylesheets := (← itemsOf "stylesheets" raw).filterMap Stylesheet.ofJson?
    return some (.code {
      sourcePath := (raw.fieldD "source_path").shown
      path := (raw.fieldD "path").shown
      data := .str ((raw.fieldD "data").presentOr (.str "")).shown
      sourceMap := raw.fieldD "source_map"
      stylesheets })
  | _ => .ok none

/-- Reads a result: none if the object is not one. -/
def ofJson? : Json → Except Failure (Option Result)
  | .obj fields =>
    let payload := Json.obj fields
    match payload.fieldD "kind" with
    | .str kind =>
      if kind = "html" then pageOf? payload
      else if kind = "module" then moduleOf? payload
      else .ok none
    | _ => .ok none
  | j => .error (.conversion (.noMethod j.typeName "get"))

end Result

end Componentry
