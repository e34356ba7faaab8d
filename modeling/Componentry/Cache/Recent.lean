import Componentry.Output

/-!
# Recent results

The results that are held in memory. Those not used for longest are let go when the total size
passes the limit; a result that is larger than the limit is not held at all.
-/

namespace Componentry

/-- A result that is held, under the digest of its key. -/
structure Held where
  digest : Text
  result : Result
  size : Nat

/-- The results in memory, least recently used first. -/
structure Recent where
  limit : Int
  held : List Held := []
  /-- The total size of what is held. -/
  size : Int := 0

namespace Recent

/-- Lets go of the oldest results until `size` is within the limit. -/
def evict (limit : Int) : List Held → Int → List Held × Int
  | [], size => ([], size)
  | h :: rest, size => if size > limit then evict limit rest (size - h.size) else (h :: rest, size)

/-- The result under `digest`, which becomes the most recently used. -/
def fetch? (m : Recent) (digest : Text) : Option (Result × Recent) :=
  match m.held.find? fun h => h.digest == digest with
  | some h => some (h.result, { m with held := m.held.filter (·.digest != digest) ++ [h] })
  | none => none

/-- Holds a result of a size as the most recently used one, in the place of an earlier one. -/
def remember (m : Recent) (digest : Text) (result : Result) (size : Nat) : Recent :=
  if size > m.limit then m
  else
    let earlier := ((m.held.find? fun h => h.digest == digest).map Held.size).getD 0
    let (held, total) := evict m.limit
      (m.held.filter (·.digest != digest) ++ [⟨digest, result, size⟩]) (m.size - earlier + size)
    { m with held, size := total }

end Recent

end Componentry
