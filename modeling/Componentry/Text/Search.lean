/-!
# Binary search

The first position at which a property stops holding, found by halving. For a property that never
starts to hold again, it is the number of positions at which the property holds.
-/

namespace Componentry

/-- The least position of `[lo, hi]` where `p` fails (`hi` if it fails nowhere before), for a `p`
that holds up to some position and never after it. -/
def partitionPoint (p : Nat → Bool) : (fuel lo hi : Nat) → Nat
  | 0, lo, _ => lo
  | fuel + 1, lo, hi =>
    if lo < hi then
      let mid := (lo + hi) / 2
      if p mid then partitionPoint p fuel (mid + 1) hi else partitionPoint p fuel lo mid
    else lo

/-- How many items of `xs` satisfy `p`, for an array whose items satisfy `p` first. -/
def countLeading {α : Type} (p : α → Bool) (xs : Array α) : Nat :=
  partitionPoint (fun i => (xs[i]?).any p) xs.size 0 xs.size

end Componentry
