import Componentry.SourceMap.Vlq
import Componentry.Text.Search

/-!
# Decoded maps

A source map that has been read: its sources, names and texts, and its mappings in the order of
their generated positions. Looking a place up takes the nearest mapping at or before it on its
line.
-/

namespace Componentry.SourceMap

/-- The entries of a map given as an object or as the text of one. -/
def entriesOf (raw : Json) : Except Error Json.Entries :=
  match raw with
  | .str s => do
    match ← (Json.parse s).mapError Error.json with
    | .obj fields => converted (Json.obj fields).toEntries
    | _ => .error .notObject
  | j => converted j.toEntries

/-- The entries of a map, which must have the known version and be no map of maps. -/
def loadEntries (raw : Json) : Except Error Json.Entries := do
  let entries ← entriesOf raw
  let fields := entries.toFields
  if (Json.Fields.get? "sections" fields).isSome then .error .indexed
  else
    let version := (Json.Fields.get? "version" fields).getD (.int 3)
    let n ← converted version.toInteger
    if n ≠ 3 then .error (.version version.shown) else return entries

/-- The fields of a map given as an object or as the text of one. -/
def load (raw : Json) : Except Error Json.Fields := return (← loadEntries raw).toFields

/-- The keys of a map in increasing order. -/
def keysOf (raw : Json) : Except Error (List Json) := do
  converted (Json.sortKeys ((← loadEntries raw).map Prod.fst))

/-- A map that has been read. -/
structure Decoded where
  file : Json
  sources : List Text
  names : List Text
  contents : List Json
  mappings : Array Mapping

/-- A source's name under the map's root: absolute names and addresses stay as they are. -/
def joinRoot (root source : Text) : Text :=
  if root.isEmpty || Text.contains "://" source || Text.startsWith "/" source then source
  else (root.reverse.dropWhile fun (c : CodePoint) => c == '/').reverse ++ "/" ++ source

/-- The running sums of a mappings text, all relative to zero at its start. -/
structure Tally where
  source : Int := 0
  line : Int := 0
  column : Int := 0
  name : Int := 0

/-- The item at a running sum. -/
def tallied {α : Type} (xs : List α) (i : Int) : Except Error α :=
  match itemAt? xs i with
  | some x => .ok x
  | none => .error (.conversion .indexRange)

/-- One segment on generated line `line`, `column` being the column of the segment before it. -/
def readSegment (sources names : List Text) (line column : Int) (t : Tally) (text : Text) :
    Except Error (Mapping × Tally) := do
  let values ← Vlq.decodeSegment text
  match values with
  | [c] => return (⟨⟨line, column + c⟩, none, none⟩, t)
  | [c, s, l, k] =>
    let t := { t with source := t.source + s, line := t.line + l, column := t.column + k }
    let source ← tallied sources t.source
    return (⟨⟨line, column + c⟩, some ⟨source, ⟨t.line + 1, t.column⟩⟩, none⟩, t)
  | [c, s, l, k, n] =>
    let t : Tally := ⟨t.source + s, t.line + l, t.column + k, t.name + n⟩
    let name ← tallied names t.name
    let source ← tallied sources t.source
    return (⟨⟨line, column + c⟩, some ⟨source, ⟨t.line + 1, t.column⟩⟩, some name⟩, t)
  | _ => .error (.segment text)

/-- The segments of one line; empty ones are skipped. -/
def readLine (sources names : List Text) (line column : Int) (t : Tally) :
    List Text → Except Error (List Mapping × Tally)
  | [] => .ok ([], t)
  | text :: rest =>
    if text.isEmpty then readLine sources names line column t rest
    else do
      let (m, t) ← readSegment sources names line column t text
      let (ms, t) ← readLine sources names line m.generated.column t rest
      return (m :: ms, t)

/-- The lines of a mappings text, the first being generated line `line`. -/
def readLines (sources names : List Text) (line : Int) (t : Tally) :
    List Text → Except Error (List Mapping)
  | [] => .ok []
  | text :: rest => do
    let (ms, t) ← readLine sources names line 0 t (Text.splitOn ',' text)
    let more ← readLines sources names (line + 1) t rest
    return ms ++ more

/-- Does `a` come before or at `b` in the generated text? -/
def atOrBefore (a b : Position) : Bool :=
  a.line < b.line || (a.line == b.line && a.column ≤ b.column)

/-- All mappings of a mappings text, in the order of their generated positions. -/
def readMappings (sources names : List Text) (text : Text) : Except Error (List Mapping) := do
  let ms ← readLines sources names 1 {} (Text.splitOn ';' text)
  return ms.mergeSort fun a b => atOrBefore a.generated b.generated

namespace Decoded

/-- Decodes the fields of a map. -/
def ofFields (fields : Json.Fields) : Except Error Decoded := do
  let get (key : Text) : Json := (Json.Fields.get? key fields).getD .null
  let root := (get "sourceRoot").presentOr (.str "")
  let sources ← converted ((get "sources").presentOr (.arr [])).elements
  let names ← converted ((get "names").presentOr (.arr [])).elements
  let contents ← converted ((get "sourcesContent").presentOr (.arr [])).elements
  let sources := sources.map fun s =>
    (joinRoot root.shown s.shown)
  let names := names.map Json.shown
  let text := ((get "mappings").presentOr (.str "")).shown
  let mappings ← readMappings sources names text
  return ⟨get "file", sources, names, contents, mappings.toArray⟩

/-- Decodes a map given as an object or as the text of one. -/
def ofJson (raw : Json) : Except Error Decoded := do ofFields (← load raw)

/-- The first mapping of those that share the generated position of mapping `i`. -/
def firstAt (ms : Array Mapping) : Nat → Nat
  | 0 => 0
  | i + 1 =>
    if (ms[i]?).map Mapping.generated = (ms[i + 1]?).map Mapping.generated then firstAt ms i
    else i + 1

/-- The mapping that answers for a place: on its line, the first of those with the greatest column
that is not after it. -/
def nearest? (d : Decoded) (p : Position) : Option Mapping :=
  match countLeading (fun (m : Mapping) => atOrBefore m.generated p) d.mappings with
  | 0 => none
  | n + 1 =>
    (d.mappings[firstAt d.mappings n]?).filter fun m => m.generated.line == p.line

/-- The source place that a generated place came from, with the name used there. -/
def locate (d : Decoded) (p : Position) : Except Error (Option (Origin × Option Text)) :=
  if p.valid then .ok ((d.nearest? p).bind fun m => m.origin.map fun o => (o, m.name))
  else .error .lookup

/-- The text of a source, if the map carries it. -/
def contentFor (d : Decoded) (source : Text) : Json :=
  match d.sources.findIdx? (· == source) with
  | none => .null
  | some i => d.contents.getD i .null

end Decoded

end Componentry.SourceMap
