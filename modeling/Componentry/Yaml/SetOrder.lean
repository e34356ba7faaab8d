import Componentry.Yaml.Scalar

/-!
# The order of sets

The members of a set have no order of their own. They are put into a table with room to spare, each
at the first free place that its residue leads to, and listed as the table holds them. Numbers that
are equal have one residue, whatever their kind. Where some member has no residue, the members stay
in the order in which they were written.
-/

namespace Componentry.Yaml

namespace Scalar

/-- The modulus of residues, a prime one below a power of two. -/
def modulus : Nat := Nat.pow 2 61 - 1

/-- A residue with a sign. The one of minus one is not used. -/
def signedResidue (negative : Bool) (r : Nat) : Int :=
  if negative then (if r = 1 then -2 else -r) else r

/-- The residue of a scalar. A negative power of two has one too, since the powers of two come round
after 61 steps. -/
def residue? : Scalar → Option Int
  | .bool b => some (if b then 1 else 0)
  | .int n => some (signedResidue (n < 0) (n.natAbs % modulus))
  | .float (.finite negative m e) =>
    some (signedResidue negative (m * Nat.pow 2 (e % 61).toNat % modulus))
  | .float (.infinite negative) => some (signedResidue negative 314159)
  | .text [] => some 0
  | .bytes [] => some 0
  | _ => none

end Scalar

namespace SetOrder

/-- The least power of two, from `size` on, that is above `n`. -/
def sizeAbove (n : Nat) : (fuel : Nat) → (size : Nat) → Nat
  | 0, size => size
  | fuel + 1, size => if n < size then size else sizeAbove n fuel (2 * size)

/-- The size of the table for `n` members: at least eight, and more than half of a larger one is
free. -/
def tableSize (n : Nat) : Nat := if n ≤ 4 then 8 else sizeAbove (2 * n) n 8

/-- How many places after the first one are looked at before jumping. -/
def reach : Nat := 9

/-- The places that are looked at from `i` on, none of them beyond the end of the table. -/
def window (size i : Nat) : List Nat := List.range' i (if i + reach < size then reach + 1 else 1)

/-- The first free place for a residue, looked for from `i` on; `left` is what is left of the
residue to jump by. -/
def freePlace? {α : Type} (table : Array (Option α)) : (fuel i left : Nat) → Option Nat
  | 0, _, _ => none
  | fuel + 1, i, left =>
    match (window table.size i).find? fun j => (table[j]?.bind id).isNone with
    | some j => some j
    | none =>
      let left := left / 32
      freePlace? table fuel ((i * 5 + 1 + left) % table.size) left

/-- Puts a member into the table. -/
def put {α : Type} (table : Array (Option α)) (member : α × Int) : Array (Option α) :=
  let start := (member.2 % (Nat.pow 2 64 : Nat)).toNat
  match freePlace? table (table.size + 64) (start % table.size) start with
  | some j => table.setIfInBounds j (some member.1)
  | none => table

/-- The members of a set in the order in which they are listed. -/
def listed {α : Type} (residue? : α → Option Int) (members : List α) : List α :=
  match members.mapM residue? with
  | none => members
  | some residues =>
    let empty : Array (Option α) := Array.replicate (tableSize members.length) none
    ((members.zip residues).foldl put empty).toList.filterMap id

end SetOrder

end Componentry.Yaml
