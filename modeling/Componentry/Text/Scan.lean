import Componentry.Text.Basic

/-!
# Scanning

A scan walks a text from the left with a matcher, which says what starts at a place and how long it
is. Matches do not overlap: after one, the walk goes on behind it.
-/

namespace Componentry.Text

/-- A match: where it starts, how long it is, and what it is. -/
structure Found (α : Type) where
  start : Nat
  length : Nat
  value : α
  deriving Repr

/-- The offset after a match. -/
def Found.stop {α : Type} (f : Found α) : Nat := f.start + f.length

/-- The matches of `match?` in a text whose first character has offset `offset`; the first `skip`
characters belong to a match already found. -/
def scanFrom {α : Type} (match? : Text → Option (α × Nat)) :
    (skip offset : Nat) → Text → List (Found α)
  | _, _, [] => []
  | skip + 1, offset, _ :: s => scanFrom match? skip (offset + 1) s
  | 0, offset, c :: s =>
    match match? (c :: s) with
    | some (value, length) =>
      ⟨offset, length, value⟩ :: scanFrom match? (length - 1) (offset + 1) s
    | none => scanFrom match? 0 (offset + 1) s

/-- The matches of `match?`, from left to right. -/
def scan {α : Type} (match? : Text → Option (α × Nat)) (s : Text) : List (Found α) :=
  scanFrom match? 0 0 s

/-- The text without the matches of `match?`, the first `skip` characters of which belong to a match
already found. -/
def removeFrom {α : Type} (match? : Text → Option (α × Nat)) : (skip : Nat) → Text → Text
  | _, [] => []
  | skip + 1, _ :: s => removeFrom match? skip s
  | 0, c :: s =>
    match match? (c :: s) with
    | some (_, length) => removeFrom match? (length - 1) s
    | none => c :: removeFrom match? 0 s

/-- The text without the matches of `match?`. -/
def remove {α : Type} (match? : Text → Option (α × Nat)) (s : Text) : Text := removeFrom match? 0 s

end Componentry.Text
