import Componentry.Json.Convert
import Componentry.Json.Reader
import Componentry.Text.Base64
import Componentry.Text.Blank
import Componentry.Text.Word
import Componentry.Tool.Basic

/-!
# The Sass tool

Style blocks are lowered by a library, which asks for every import on its way. It ends its output by
a comment that holds the source map; the comment is taken off, and the map names the document where
the library names its own input.
-/

namespace Componentry.Sass

/-- A run of the library, with the files imported so far. -/
abbrev Importing (α : Type) : Type := ExceptT Failure (StateM (List Text)) α

/-- The style library: lowers a text, with directories to search and a way to ask for an import. -/
structure Library where
  compile : (content : Text) → (includePaths : List Text) →
    (importer : Text → Importing (Option (Text × Text))) → Importing Text

/-- The start of the comment that holds the map. -/
def commentStart : Text := "/*# sourceMappingURL=data:application/json;"

/-- May `c` stand in the data of the comment? -/
def isDataChar (c : CodePoint) : Bool := (Base64.digit? c).isSome || c == '='

/-- The text before a comment, given all that stands before its data. -/
def beforeComment? (s : Text) : Option Text :=
  match Text.before? "base64," s with
  | none => none
  | some s =>
    match Text.before? commentStart s with
    | some before => some before
    | none =>
      match Text.before? ";" s with
      | none => none
      | some s =>
        let charset := s.reverse.takeWhile fun c => isWordChar c || c == '-'
        if charset.isEmpty then none
        else
          (Text.before? "charset=" (s.take (s.length - charset.length))).bind
            (Text.before? commentStart)

/-- The text before the comment at the end, without the blanks between, and the data in the comment.
-/
def splitComment? (css : Text) : Option (Text × Text) :=
  match Text.before? " */" (Text.trimRight css) with
  | none => none
  | some s =>
    let data := (s.reverse.takeWhile isDataChar).reverse
    if data.isEmpty then none
    else
      (beforeComment? (s.take (s.length - data.length))).map fun before =>
        (Text.trimRight before, data)

/-- The map that the comment's data stands for. -/
def mapOf (data : Text) : Except Failure Json :=
  match Base64.decode? data with
  | none => .error .base64
  | some bytes => do
    let text ← (decodeUtf8 ⟨bytes.toArray⟩).mapError fun e => Failure.file (.decode e)
    (Json.parse text).mapError .json

/-- The map with `filename` for the library's own name of its input. -/
def named (filename : Text) (map : Json) : Except Failure Json :=
  match map with
  | .obj fields => do
    let sources ← (((Json.Fields.get? "sources" fields).getD (.arr [])).elements).mapError
      Failure.conversion
    let renamed := sources.map fun s =>
      if s.asText? = some (Text.ofString "stdin") then .str filename else s
    return .obj (Json.Fields.set "sources" (.arr renamed) fields)
  | j => .error (.conversion (.noMethod j.typeName "get"))

/-- Takes the map off the library's output. -/
def splitMap (css filename : Text) : Except Failure (Text × Option Json) :=
  match splitComment? css with
  | none => .ok (css, none)
  | some (before, data) => do
    let map ← named filename (← mapOf data)
    return (before ++ "\n", some map)

/-- Answers the library's question for an import. -/
def importer (imports : Imports) (url : Text) : Importing (Option (Text × Text)) := do
  match ← MonadExcept.ofExcept (imports.resolve url) with
  | none => return none
  | some path =>
    modify (· ++ [path])
    return some (path, ← MonadExcept.ofExcept (imports.read path))

/-- Lowers a style. -/
def transform (library : Library) (includePaths : List Text) (content filename : Text)
    (imports : Imports) : Except Failure Transformed := do
  let (output, dependencies) := (library.compile content includePaths (importer imports)).run []
  let (code, map) ← splitMap (← output) filename
  return { code := .str code, map, dependencies := dependencies.map .str }

/-- The tool over an installed library. -/
def tool {σ : Type} (library : Library) (includePaths : List Text) : StyleTool σ where
  transform content filename _ imports :=
    MonadExcept.ofExcept (transform library includePaths content filename imports)

end Componentry.Sass
