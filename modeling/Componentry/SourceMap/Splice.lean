import Componentry.SourceMap.Decoded
import Componentry.SourceMap.Draft
import Componentry.Text.Blank
import Componentry.Text.LineIndex

/-!
# Splices

A text that is rebuilt from spans of one source text, with a map back into it. Copied spans are
mapped at the start of every line and at every token, replaced ones through the replacement's own
map, or line by line to the start of the span.
-/

namespace Componentry.SourceMap

/-- Is `c` part of a word? -/
def isWordChar (c : CodePoint) : Bool := c.isAlphanum || c == '_' || c == '$'

/-- Does a token start at `c`, which follows `prev`? A run of word characters is one token, any
other character that is not blank is one by itself. -/
def startsToken (prev c : CodePoint) : Bool :=
  if isWordChar c then !isWordChar prev else !isBlank c

/-- The offsets after the first character at which tokens start, `prev` being the character at
offset `offset - 1`. -/
def tokenStarts (prev : CodePoint) (offset : Nat) : Text → List Nat
  | [] => []
  | c :: s =>
    if startsToken prev c then offset :: tokenStarts c (offset + 1) s
    else tokenStarts c (offset + 1) s

/-- The offsets of a line that get a mapping when it is copied: its start, if the line is not empty,
and its tokens. -/
def anchors : Text → List Nat
  | [] => []
  | c :: s => 0 :: tokenStarts c 1 s

/-- A text under construction. -/
structure Splice where
  source : Text
  index : LineIndex
  draft : Draft
  /-- What has been rebuilt, piece by piece. A replacement may be no text. -/
  parts : List Json := []
  line : Int := 1
  column : Int := 0
  changed : Bool := false

namespace Splice

/-- Nothing rebuilt yet of `text`, the text of `source`. -/
def start (text : Text) (source : Text) : Splice :=
  { source, index := .ofText text
    draft := Draft.setContent {} source (.str text) }

/-- The place at which the next text goes. -/
def here (s : Splice) : Position := ⟨s.line, s.column⟩

/-- Appends `text`, moving on to the place after it. -/
def append (s : Splice) (text : Text) : Splice :=
  let lines := Text.splitOn '\n' text
  let last := (lines.getLast?.getD []).length
  { s with
    parts := s.parts ++ [.str text]
    line := s.line + (lines.length - 1 : Nat)
    column := if lines.length ≤ 1 then s.column + last else last }

/-- Adds mappings and then the text they are for. If a mapping is refused, those before it stay and
the text is not added. -/
def place (s : Splice) (mappings : List Mapping) (text : Text) : Splice × Option Error :=
  match s.draft.addAll mappings with
  | (draft, none) => ({ s with draft }.append text, none)
  | (draft, some e) => ({ s with draft }, some e)

/-- The mappings of copied lines: the first goes to `generated`, and comes from `offset`. -/
def copyMappings (s : Splice) (generated : Position) (offset : Int) : List Text → List Mapping
  | [] => []
  | line :: rest =>
    (anchors line).map (fun i =>
      ⟨⟨generated.line, generated.column + i⟩,
        some ⟨s.source, s.index.position (offset + i)⟩, none⟩)
    ++ s.copyMappings ⟨generated.line + 1, 0⟩ (offset + line.length + 1) rest

/-- Appends `text`, which stands unchanged at `offset` in the source text. -/
def copy (s : Splice) (text : Text) (offset : Int) : Splice × Option Error :=
  s.place (s.copyMappings s.here offset (Text.splitOn '\n' text)) text

/-- The source of a replacement's map that stands for the replaced span itself. -/
def ownSource? (s : Splice) (d : Decoded) : Option Text :=
  if d.sources.contains s.source then some s.source else d.sources.head?

/-- The mappings of a replacement's own map, moved to where the replacement goes and to where the
span it replaces stands; mappings into other sources are dropped. -/
def liftMappings (s : Splice) (offset : Int) (d : Decoded) : List Mapping :=
  d.mappings.toList.filterMap fun m => do
    let origin ← m.origin
    if s.ownSource? d = some origin.source then
      some ⟨s.here.shift m.generated,
        some ⟨s.source, (s.index.position offset).shift origin.position⟩, none⟩
    else none

/-- The mappings of replaced lines that have no map: each leads to the start of the span. -/
def replaceMappings (s : Splice) (generated : Position) (place : Position) :
    List Text → List Mapping
  | [] => []
  | line :: rest =>
    (if line.isEmpty then [] else [⟨generated, some ⟨s.source, place⟩, none⟩]) ++
      s.replaceMappings ⟨generated.line + 1, 0⟩ place rest

/-- Appends `text` in place of the span at `offset` of the source text. -/
def replace (s : Splice) (text : Text) (offset : Int) (map : Option Json) :
    Splice × Option Error :=
  let s := { s with changed := true }
  match map with
  | none =>
    s.place (s.replaceMappings s.here (s.index.position offset) (Text.splitOn '\n' text)) text
  | some raw =>
    match Decoded.ofJson raw with
    | .error e => (s, some e)
    | .ok d => s.place (s.liftMappings offset d) text

/-- Appends what is no text. A list counts as long as it is, unless a line end is in it. -/
def appendOdd (s : Splice) (value : Json) : Splice × Option Error :=
  let s := { s with parts := s.parts ++ [value] }
  let lacks (name : Text) : Option Error :=
    some (.conversion (.noMethod value.typeName name))
  match value with
  | .arr items =>
    let lines := items.countP fun j => j.isStr "\n"
    if lines = 0 then ({ s with column := s.column + items.length }, none)
    else ({ s with line := s.line + lines }, lacks "rfind")
  | _ => (s, lacks "count")

/-- Appends a replacement that is no text in place of the span at `offset`. Without a map nothing
can be said of it. -/
def replaceOdd (s : Splice) (value : Json) (offset : Int) (map : Option Json) :
    Splice × Option Error :=
  let s := { s with changed := true }
  match map with
  | none => (s, some (.conversion (.noMethod value.typeName "split")))
  | some raw =>
    match Decoded.ofJson raw with
    | .error e => (s, some e)
    | .ok d =>
      match s.draft.addAll (s.liftMappings offset d) with
      | (draft, some e) => ({ s with draft }, some e)
      | (draft, none) => { s with draft }.appendOdd value

/-- Appends a replacement in place of the span at `offset`, whatever it is. -/
def replaceBy (s : Splice) (value : Json) (offset : Int) (map : Option Json) :
    Splice × Option Error :=
  match value with
  | .str text => s.replace text offset map
  | _ => s.replaceOdd value offset map

/-- Notes that a span of the source text was left out. -/
def drop (s : Splice) : Splice := { s with changed := true }

/-- The rebuilt text. -/
def code (s : Splice) : Except Error Text := (Json.joined 0 s.parts).mapError .conversion

/-- The map back into the source text, or none if nothing changed. -/
def map? (s : Splice) : Option Json := if s.changed then some s.draft.toJson else none

end Splice

end Componentry.SourceMap
