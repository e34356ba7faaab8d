import Componentry.SourceMap.Basic
import Componentry.Text.Search

/-!
# Lines of a text

Converts offsets into lines and columns by the offsets at which the lines start.
-/

namespace Componentry

/-- The offsets at which the lines of a text start. -/
structure LineIndex where
  starts : Array Nat

namespace LineIndex

/-- The offsets just after the line feeds of `s`, whose first character has offset `offset`. -/
def lineEnds (offset : Nat) : Text → List Nat
  | [] => []
  | c :: s => if c = '\n' then (offset + 1) :: lineEnds (offset + 1) s else lineEnds (offset + 1) s

/-- The lines of a text. -/
def ofText (s : Text) : LineIndex := ⟨(0 :: lineEnds 0 s).toArray⟩

/-- The line and column of an offset. An offset past the end is on the last line; one before the
start is on line zero, its column relative to the start of the last line. -/
def position (index : LineIndex) (offset : Int) : Position :=
  let line := countLeading (fun (start : Nat) => (start : Int) ≤ offset) index.starts
  let start := if line = 0 then index.starts.back?.getD 0 else index.starts.getD (line - 1) 0
  ⟨line, offset - start⟩

end LineIndex

end Componentry
