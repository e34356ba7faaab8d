import Componentry.Json.Convert
import Componentry.Json.Reader

/-!
# Source maps

A source map says, for places of a generated text, from which place of which source they came.
Lines count from one and columns from zero, in characters.
-/

namespace Componentry

/-- A line and a column. Maps from outside may hold any integers. -/
structure Position where
  line : Int
  column : Int
  deriving DecidableEq, Repr, Inhabited

/-- Are line and column in range? -/
def Position.valid (p : Position) : Bool := 1 ≤ p.line && 0 ≤ p.column

/-- The pair as messages show it; none if a number in it is too long. -/
def Position.shown? (p : Position) : Option Text := do
  return "(" ++ (← Numeral.shown? p.line) ++ ", " ++ (← Numeral.shown? p.column) ++ ")"

/-- A message about a position, or why the position cannot be shown. -/
def Position.message (about : Text) (p : Position) : Text :=
  match p.shown? with
  | some shown => about ++ " " ++ shown
  | none => Numeral.tooLongToShow

/-- The place `p` of a text that starts at `base`: columns shift on its first line only. -/
def Position.shift (base p : Position) : Position :=
  if p.line = 1 then ⟨base.line, base.column + p.column⟩
  else ⟨base.line + p.line - 1, p.column⟩

namespace SourceMap

/-- A place of a source. -/
structure Origin where
  source : Text
  position : Position
  deriving DecidableEq, Repr

/-- One segment of a map: a place of the generated text, and where it came from, if it came from a
source. -/
structure Mapping where
  generated : Position
  origin : Option Origin
  name : Option Text
  deriving DecidableEq, Repr

/-- Why a source map could not be written or read. -/
inductive Error where
  /-- A number breaks off. -/
  | numberEnd
  /-- A character that is no base 64 digit. -/
  | numberDigit (c : CodePoint)
  | generatedPosition (p : Position)
  | sourcePosition (p : Position)
  /-- A place in a source without the source, or a source without the place. -/
  | unpaired
  | notObject
  | indexed
  | version (shown : Text)
  | segment (text : Text)
  | lookup
  | conversion (e : Json.ConversionError)
  | json (e : Json.SyntaxError)
  deriving DecidableEq, Repr

/-- The wording of an error. -/
def Error.message : Error → Text
  | .numberEnd => "Unexpected end of VLQ segment"
  | .numberDigit c => "Invalid base64 VLQ character: " ++ quote ([c])
  | .generatedPosition p => p.message "Invalid generated position"
  | .sourcePosition p => p.message "Invalid original position"
  | .unpaired => "Original position and source must be given together"
  | .notObject => "Source map must be a JSON object"
  | .indexed => "Indexed source maps are not supported"
  | .version shown => "Unsupported source map version: " ++ shown
  | .segment text => "Invalid mapping segment " ++ (quote text)
  | .lookup => "Line must be >= 1 and column must be >= 0"
  | .conversion e => e.message
  | .json e => e.message

/-- Lifts a conversion into the errors of source maps. -/
def converted {α : Type} (r : Except Json.ConversionError α) : Except Error α :=
  r.mapError .conversion

end SourceMap

end Componentry
