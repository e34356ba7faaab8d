import Componentry.SourceMap.Draft
import Componentry.Text.Blank
import Componentry.Tool.Basic

/-!
# Scripted tools

Tools that stand in for the real ones. Each does something simple and visible with its input, can be
told to fail or to give fixed results, and notes every call.
-/

namespace Componentry.Scripted

/-- What a scripted tool is told. -/
structure Script where
  /-- The failure it raises when its input has `failOn` in it. -/
  failure : Option Failure := none
  failOn : Text := ""
  /-- Fields of its result that are replaced. -/
  code : Option Json := none
  map : Option (Option Json) := none
  dependencies : Option Json := none
  css : Option Json := none
  cssMap : Option Json := none
  details : Option Json := none
  /-- Is the tool missing? -/
  missing : Bool := false
  /-- The version of the markup tool. -/
  version : Text := "3.0.0-test"
  deriving Inhabited

/-- A call of a tool. -/
inductive Call where
  | markup (options : MarkupOptions)
  | script
  | style
  | hot (request : HotRequest)
  | lowering

/-- The stage of a call. -/
def Call.stage : Call → Text
  | .markup _ => "markup"
  | .script => "script"
  | .style => "style"
  | .hot _ => "hot"
  | .lowering => "lowering"

/-- The calls so far. -/
abbrev Calls := List Call

/-- Something that may fail, as an action. -/
def checked {α : Type} (r : Except Json.ConversionError α) : Action Calls α :=
  MonadExcept.ofExcept (r.mapError Failure.conversion)

/-- Notes a call, and fails if the script says so. -/
def called (s : Script) (call : Call) (input : Json) : Action Calls Unit := do
  modify (· ++ [call])
  match s.failure with
  | some f => if ← checked (input.holds s.failOn) then throw f
  | none => pure ()

/-- The result with the fields that the script replaces. -/
def Script.applied (s : Script) (r : Transformed) : Action Calls Transformed := do
  let dependencies ← match s.dependencies with
    | some given => checked given.elements
    | none => pure r.dependencies
  return {
    dependencies
    code := s.code.getD r.code
    map := s.map.getD r.map
    css := s.css.getD r.css
    cssMap := s.cssMap.getD r.cssMap
    details := s.details.getD r.details }

/-- The mappings of lines that are not empty, `number` being that of the first: each moved down by
`offset`. -/
def lineMappings (filename : Text) (offset : Int) : (number : Int) → List Text →
    List SourceMap.Mapping
  | _, [] => []
  | number, line :: rest =>
    (if line.isEmpty then []
      else [⟨⟨number + offset, 0⟩, some ⟨filename, ⟨number, 0⟩⟩, none⟩]) ++
      lineMappings filename offset (number + 1) rest

/-- A map that moves every line down by `offset`. -/
def lineMap (text filename : Text) (offset : Int) (content : Option Text) : Json :=
  let draft : SourceMap.Draft :=
    (SourceMap.Draft.addAll {} (lineMappings filename offset 1 (Text.splitOn '\n' text))).1
  match content with
  | some content => (draft.setContent filename (.str content)).toJson
  | none => draft.toJson

/-- Heads the source by a line that names the component. -/
def markupTool (s : Script) : MarkupTool Calls where
  version := pure s.version
  compile source options := do
    called s (.markup options) (.str source)
    if Text.contains "<broken>" source then
      throw (.transform { message := "Unexpected token", start := some ⟨3, 4⟩ })
    s.applied {
      code := .str
        ("// compiled " ++ options.name ++ " (" ++ options.generate ++ ")\n" ++ source)
      map := some (lineMap source options.filename 1 (some source))
      details := .obj [("vars", .arr [])] }

/-- Takes away one kind of type annotation. -/
def scriptTool (s : Script) : ScriptTool Calls where
  transform content filename _ := do
    called s .script (.str content)
    let code := Text.replaceAll ": number" [] content
    s.applied { code := .str code, map := some (lineMap code filename 0 none) }

/-- The reference of a line that imports. -/
def importOf? (line : Text) : Option Text :=
  let line := Text.trimOf " \t" line
  if Text.startsWith "@import \"" line && Text.endsWith "\";" line &&
      11 ≤ line.length then
    some (Text.slice line 9 (line.length - 2))
  else none

/-- Puts imported texts in the place of the lines that import them. -/
def expand (imports : Imports) : List Text → Except Failure (List Text × List Text)
  | [] => .ok ([], [])
  | line :: rest => do
    match importOf? line with
    | none =>
      let (lines, dependencies) ← expand imports rest
      return (line :: lines, dependencies)
    | some url =>
      match ← imports.resolve url with
      | none => throw (.transform { message := "File to import not found or unreadable: " ++ url })
      | some path =>
        let text ← imports.read path
        let (lines, dependencies) ← expand imports rest
        return (Text.trimOf " \t\r\n" text :: lines, path :: dependencies)

/-- Puts imported texts in their places. -/
def styleTool (s : Script) : StyleTool Calls where
  transform content _ _ imports := do
    called s .style (.str content)
    let (lines, dependencies) ←
      ExceptT.mk (pure (expand imports (Text.splitOn '\n' content)))
    s.applied {
      code := .str (Text.join "\n" lines)
      dependencies := dependencies.map .str }

/-- Appends code that accepts updates. -/
def hotTool (s : Script) : HotTool Calls where
  instrument request := do
    let details ← checked request.details.toFields
    called s (.hot { request with details := .obj details }) request.code
    match s.code with
    | some code => return code
    | none =>
      let api := (request.options.fieldD "hotApi").shown
      let hook := "import.meta && import.meta.hot"
      return .str (request.code.shown ++ "\nimport hot from \"" ++ api ++ "\";\nif (" ++ hook ++
        ") \x7b accept(\"" ++ request.id ++ "\"); \x7d\nif (" ++ hook ++ ") \x7b dispose(); \x7d")

/-- Heads the code by a line. -/
def loweringTool (s : Script) : LoweringTool Calls where
  lower code filename := do
    called s .lowering code
    let some text := code.asText? | throw (.conversion (.noMethod code.typeName "split"))
    s.applied {
      code := .str ("\"use strict\";\n" ++ text), map := some (lineMap text filename 1 none) }

/-- What the tools of a project are told. -/
structure Scripts where
  markup : Script := {}
  script : Script := {}
  style : Script := {}
  hot : Script := {}
  lowering : Script := {}
  deriving Inhabited

/-- A tool, unless it is missing. -/
def available {α : Type} (s : Script) (stage : Text) (tool : α) : Action Calls α :=
  if s.missing then throw (.setup (.noTool stage)) else pure tool

/-- The scripted tools. -/
def toolchain (s : Scripts) : Toolchain Calls where
  markup := available s.markup "markup" (markupTool s.markup)
  script := available s.script "script" (scriptTool s.script)
  style := available s.style "style" (styleTool s.style)
  hot := available s.hot "hot" (hotTool s.hot)
  lowering := available s.lowering "lowering" (loweringTool s.lowering)

end Componentry.Scripted
