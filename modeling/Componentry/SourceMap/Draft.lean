import Componentry.SourceMap.Vlq
import Componentry.Json.Printer

/-!
# Drafts

A source map while it is being written: the mappings added so far, in the order in which they were
added, and the texts of the sources. Mappings are written in increasing order of their generated
positions; sources and names are listed in the order of their first use.
-/

namespace Componentry.SourceMap

/-- A map that is being written. -/
structure Draft where
  file : Option Text := none
  mappings : Array Mapping := #[]
  contents : Json.Fields := []

/-- The distinct items of a list, each where it first occurs. -/
def firstUses {α : Type} [DecidableEq α] : List α → List α
  | [] => []
  | x :: xs => x :: (firstUses xs).filter fun y => y ≠ x

namespace Draft

/-- The sources in the order of their first use. -/
def sources (d : Draft) : List Text :=
  firstUses (d.mappings.toList.filterMap fun m => m.origin.map Origin.source)

/-- The names in the order of their first use. -/
def names (d : Draft) : List Text := firstUses (d.mappings.toList.filterMap Mapping.name)

/-- Why a mapping is refused, if it is: a position is out of range, or only one of source and
place in the source is given. -/
def refusal? (generated : Position) (place : Option Position) (source : Option Text) :
    Option Error :=
  if !generated.valid then some (.generatedPosition generated)
  else
    match place, source with
    | none, none => none
    | some p, some _ => if p.valid then none else some (.sourcePosition p)
    | _, _ => some .unpaired

/-- The origin that a position and a source make. -/
def originOf : Option Position → Option Text → Option Origin
  | some p, some s => some ⟨s, p⟩
  | _, _ => none

/-- Adds a mapping, unless it is refused. -/
def add (d : Draft) (generated : Position) (place : Option Position) (source : Option Text)
    (name : Option Text) : Except Error Draft :=
  match refusal? generated place source with
  | some e => .error e
  | none => .ok { d with mappings := d.mappings.push ⟨generated, originOf place source, name⟩ }

/-- Why a mapping is refused, if it is. -/
def refusalOf? (m : Mapping) : Option Error :=
  refusal? m.generated (m.origin.map Origin.position) (m.origin.map Origin.source)

/-- Adds one mapping. -/
def addMapping (d : Draft) (m : Mapping) : Except Error Draft :=
  d.add m.generated (m.origin.map Origin.position) (m.origin.map Origin.source) m.name

/-- Adds mappings up to the first that is refused; the draft then keeps those before it. -/
def addAll (d : Draft) : List Mapping → Draft × Option Error
  | [] => (d, none)
  | m :: rest =>
    match refusalOf? m with
    | none => addAll { d with mappings := d.mappings.push m } rest
    | some e => (d, some e)

/-- Sets or, given `null`, removes the text of a source. -/
def setContent (d : Draft) (source : Text) (content : Json) : Draft :=
  match content with
  | .null => { d with contents := d.contents.filter fun (s, _) => s ≠ source }
  | content => { d with contents := Json.Fields.set source content d.contents }

/-- The order of written mappings: by generated position, then source, place in the source and name,
absent parts counting as empty or zero. -/
def compareMappings (a b : Mapping) : Ordering :=
  let source (m : Mapping) : Text := (m.origin.map Origin.source).getD ""
  let place (m : Mapping) := (m.origin.map Origin.position).getD ⟨0, 0⟩
  (compare a.generated.line b.generated.line).then <|
  (compare a.generated.column b.generated.column).then <|
  (compare (source a) (source b)).then <|
  (compare (place a).line (place b).line).then <|
  (compare (place a).column (place b).column).then <|
  compare (a.name.getD "") (b.name.getD "")

/-- The mappings in the order in which they are written; equal ones keep their order. -/
def sortedMappings (d : Draft) : List Mapping :=
  d.mappings.toList.mergeSort fun a b => (compareMappings a b).isLE

/-- The numbers that the next mapping is written relative to, and the last mapping written. -/
structure Cursor where
  line : Int := 1
  column : Int := 0
  source : Int := 0
  sourceLine : Int := 0
  sourceColumn : Int := 0
  name : Int := 0
  last : Option Mapping := none

/-- One segment, and the cursor after it. -/
def segment (sources names : List Text) (c : Cursor) (m : Mapping) : Text × Cursor :=
  let column := Vlq.encode (m.generated.column - c.column)
  let c := { c with column := m.generated.column, last := some m }
  match m.origin with
  | none => (column, c)
  | some o =>
    let source : Int := sources.idxOf o.source
    let line := o.position.line - 1
    let origin := Vlq.encode (source - c.source) ++ Vlq.encode (line - c.sourceLine) ++
      Vlq.encode (o.position.column - c.sourceColumn)
    let c := { c with source, sourceLine := line, sourceColumn := o.position.column }
    match m.name with
    | none => (column ++ origin, c)
    | some name =>
      let index : Int := names.idxOf name
      (column ++ origin ++ Vlq.encode (index - c.name), { c with name := index })

/-- The segments of sorted mappings: a semicolon ends a line, a comma parts the segments of a line,
and a segment equal to the one before it on its line is left out. -/
def written (sources names : List Text) : Cursor → List Mapping → Text
  | _, [] => []
  | c, m :: rest =>
    if m.generated.line ≠ c.line then
      let (text, c') := segment sources names { c with line := m.generated.line, column := 0 } m
      List.replicate (m.generated.line - c.line).toNat (.char ';') ++ text ++
        written sources names c' rest
    else
      match c.last with
      | none =>
        let (text, c') := segment sources names c m
        text ++ written sources names c' rest
      | some last =>
        if m = last then written sources names c rest
        else
          let (text, c') := segment sources names c m
          "," ++ text ++ written sources names c' rest

/-- The `mappings` field. -/
def mappingsText (d : Draft) : Text :=
  written d.sources d.names {} d.sortedMappings

/-- The finished map. The sources' texts are listed only if some text is set. -/
def toFields (d : Draft) : Json.Fields :=
  let texts (ts : List Text) : Json := .arr (ts.map .str)
  let parts : Json.Fields := [("version", .int 3), ("sources", texts d.sources),
    ("names", texts d.names), ("mappings", .str d.mappingsText)]
  let file : Json.Fields := match d.file with
    | none => []
    | some file => [("file", .str file)]
  let contents : Json.Fields :=
    if d.contents.isEmpty then []
    else [("sourcesContent",
      .arr (d.sources.map fun s => (Json.Fields.get? s d.contents).getD .null))]
  parts ++ file ++ contents

/-- The finished map as a data value. -/
def toJson (d : Draft) : Json := .obj d.toFields

end Draft

end Componentry.SourceMap
