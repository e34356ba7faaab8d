import Componentry.Json.Basic
import Componentry.Text.Basic

/-!
# Writing data values

A value is written on one line, in ASCII: every other character is escaped by its UTF-16 units. Two
layouts are in use: a spaced one for files, and a compact one with sorted fields, which gives equal
objects equal texts.
-/

namespace Componentry.Json

/-- What stands between items, and between a field's name and its value. -/
structure Layout where
  item : Text
  field : Text

/-- A blank after each comma and colon. -/
def Layout.spaced : Layout := ⟨", ", ": "⟩

/-- No blanks. -/
def Layout.compact : Layout := ⟨",", ":"⟩

/-- The escape of one UTF-16 unit. -/
def unitEscape (n : Nat) : Text := '\\' :: 'u' :: Text.hexFixed 4 n

/-- One character of a written string. -/
def writtenChar (c : CodePoint) : Text :=
  if c = '"' then "\\\""
  else if c = '\\' then "\\\\"
  else if c = '\n' then "\\n"
  else if c = '\r' then "\\r"
  else if c = '\t' then "\\t"
  else if c = '\x0c' then "\\f"
  else if c = '\x08' then "\\b"
  else if ' ' ≤ c ∧ c ≤ '~' then [c]
  else if c.toNat < 0x10000 then unitEscape c.toNat
  else
    let n := c.toNat - 0x10000
    unitEscape (0xD800 + n / 0x400) ++ unitEscape (0xDC00 + n % 0x400)

/-- A string between double quotes. -/
def writtenString (s : Text) : Text := '"' :: (s.flatMap writtenChar ++ "\"")

/-- A floating point number; the infinities and NaN have words. -/
def writtenFloat : Binary64 → Text
  | .nan => "NaN"
  | .infinite false => "Infinity"
  | .infinite true => "-Infinity"
  | x => x.text

mutual

/-- The value written in layout `l`. -/
def written (l : Layout) : Json → Text
  | .null => "null"
  | .bool true => "true"
  | .bool false => "false"
  | .int n => toString n
  | .float x => writtenFloat x
  | .str s => writtenString s
  | .arr items => '[' :: (writtenItems l items ++ "]")
  | .obj fields => '\x7b' :: (writtenFields l fields ++ "\x7d")

/-- The items of a list. -/
def writtenItems (l : Layout) : List Json → Text
  | [] => []
  | [j] => written l j
  | j :: rest => written l j ++ l.item ++ writtenItems l rest

/-- The fields of an object. -/
def writtenFields (l : Layout) : List (Text × Json) → Text
  | [] => []
  | [(k, j)] => writtenString k ++ l.field ++ written l j
  | (k, j) :: rest =>
    writtenString k ++ l.field ++ written l j ++ l.item ++ writtenFields l rest

end

/-- Fields in increasing order of their names; fields of one name keep their order. -/
def sortFields (fields : Fields) : Fields :=
  fields.mergeSort fun a b => !Text.before b.1 a.1

mutual

/-- The value with the fields of every object sorted by name. -/
def sorted : Json → Json
  | .arr items => .arr (sortedItems items)
  | .obj fields => .obj (sortFields (sortedFields fields))
  | j => j

/-- Sorts inside every item. -/
def sortedItems : List Json → List Json
  | [] => []
  | j :: rest => sorted j :: sortedItems rest

/-- Sorts inside every field. -/
def sortedFields : List (Text × Json) → List (Text × Json)
  | [] => []
  | (k, j) :: rest => (k, sorted j) :: sortedFields rest

end

/-- The value on one line, with blanks after commas and colons. -/
def render (j : Json) : Text := written .spaced j

/-- The canonical text: sorted fields, no blanks. -/
def canonical (j : Json) : Text := written .compact j.sorted

end Componentry.Json
