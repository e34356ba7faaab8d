import Componentry.Markup.Block
import Componentry.SourceMap.Splice

/-!
# Extracted styles

A style that leaves its component is replaced by a placeholder, and the elements that hold nothing
but the placeholder are removed before the markup is compiled. Removing keeps a map back.
-/

namespace Componentry.Markup

/-- What stands in for a style that was taken out. -/
def placeholder : Text := "/** extracted into global style */"

/-- Is this the text of a global style's tag after the tag's name? The word must not come first. -/
def mentionsGlobal (raw : Text) : Bool := Text.contains "global" (raw.drop 1)

/-- Does `c` not end a tag? -/
def isInTag (c : CodePoint) : Bool := c != '>'

/-- A global style element with nothing but the placeholder in it, and its length. -/
def extracted? (s : Text) : Option (Unit × Nat) := do
  let rest ← Text.after? "<style" s
  let ending := ">" ++ placeholder ++ Kind.style.closing
  if Text.startsWith ending (rest.dropWhile isInTag) then
    let raw := rest.takeWhile isInTag
    if mentionsGlobal raw then some ((), 6 + raw.length + ending.length) else none
  else none

/-- The markup without its extracted styles. -/
def strip (markup : Text) : Text := Text.remove extracted? markup

open SourceMap in
/-- Copies `s`, whose first character has offset `offset` in the whole text, without the matches. -/
def stripSpans (markup : Text) : (offset : Nat) → List (Text.Found Unit) → Splice →
    Splice × Option Error
  | offset, [], splice => splice.copy (markup.drop offset) offset
  | offset, found :: rest, splice =>
    match splice.copy (Text.slice markup offset found.start) offset with
    | (splice, none) => stripSpans markup found.stop rest splice.drop
    | failed => failed

/-- The markup without its extracted styles, with a map back into it. -/
def stripMapped (markup : Text) (filename : Text) : Except SourceMap.Error (Text × Option Json) :=
  match stripSpans markup 0 (Text.scan extracted? markup) (.start markup filename) with
  | (splice, none) => return (← splice.code, splice.map?)
  | (_, some e) => .error e

end Componentry.Markup
