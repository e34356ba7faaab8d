import Componentry.SourceMap.Decoded
import Componentry.SourceMap.Draft

/-!
# Composition of maps

A map of a later stage composed with the map of an earlier one leads from the later stage's output
straight to the earlier stage's sources. A stage without a map moves nothing, so its place is taken
by the other map.
-/

namespace Componentry.SourceMap

/-- The mappings of `later` with their origins looked up in `earlier`; a mapping that leads nowhere
is dropped, and so are names. -/
def follow (earlier : Decoded) : List Mapping → Draft → Except Error Draft
  | [], d => .ok d
  | m :: rest, d =>
    match m.origin with
    | none => follow earlier rest d
    | some o => do
      match ← earlier.locate o.position with
      | none => follow earlier rest d
      | some (origin, _) =>
        let d ← d.addMapping ⟨m.generated, some origin, none⟩
        follow earlier rest d

/-- The first text of the earlier map, kept for its first source. -/
def keepContent (earlierFields : Json.Fields) (earlier : Decoded) (d : Draft) :
    Except Error Draft := do
  let contents := (Json.Fields.get? "sourcesContent" earlierFields).getD .null
  match earlier.sources with
  | source :: _ =>
    if contents.truthy then return d.setContent source (← converted contents.firstItem)
    else return d
  | [] => return d

/-- `later` composed with `earlier`, of which neither is absent. -/
def composeFields (later earlier : Json) : Except Error Json.Fields := do
  let earlierFields ← load earlier
  let laterMap ← Decoded.ofJson later
  let earlierMap ← Decoded.ofFields earlierFields
  let d ← follow earlierMap laterMap.mappings.toList {}
  let d ← keepContent earlierFields earlierMap d
  return d.toFields

/-- `later` composed with `earlier`; an absent map moves nothing. -/
def compose (later earlier : Option Json) : Except Error (Option Json) := do
  match later, earlier with
  | none, none => return none
  | none, some e => return some (.obj (← load e))
  | some l, none => return some (.obj (← load l))
  | some l, some e => return some (.obj (← composeFields l e))

end Componentry.SourceMap
