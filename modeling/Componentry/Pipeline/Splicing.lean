import Componentry.Markup.Block
import Componentry.Output
import Componentry.SourceMap.Splice

/-!
# Splicing

A document is processed block by block, and the blocks' new contents are put in the place of the old
ones. Everything around them stays as it is.
-/

namespace Componentry

/-- What a block has become: what its tool gave, or its own text. -/
structure Processed where
  code : Json
  map : Option Json := none
  /-- The files that the block depends on. -/
  dependencies : List Json := []
  stylesheets : List Stylesheet := []
  deriving Inhabited

/-- What a document has become. -/
structure Spliced where
  code : Text
  map : Option Json := none
  dependencies : List Json := []
  stylesheets : List Stylesheet := []
  deriving Inhabited

open SourceMap in
/-- Puts the result of a block in its place, or copies the block if the result is its own text. -/
def placeBlock (block : Markup.Block) (result : Processed) (splice : Splice) :
    Splice × Option Error :=
  if result.code.asText? = some block.content then
    splice.copy block.content block.start
  else splice.replaceBy result.code block.start result.map

open SourceMap in
/-- Copies the document from `offset` on, with the results of the blocks in their places. Gives the
files that the blocks depend on as well. -/
def spliceFrom (source : Text) : (offset : Nat) → List (Markup.Block × Processed) → Splice →
    Except Error (Splice × List Json)
  | offset, [], splice =>
    match splice.copy (source.drop offset) offset with
    | (splice, none) => .ok (splice, [])
    | (_, some e) => .error e
  | offset, (block, result) :: rest, splice =>
    match splice.copy (Text.slice source offset block.start) offset with
    | (_, some e) => .error e
    | (splice, none) =>
      match placeBlock block result splice with
      | (_, some e) => .error e
      | (splice, none) => do
        let (splice, others) ← spliceFrom source block.stop rest splice
        return (splice, result.dependencies ++ others)

/-- The document with the results of its blocks in their places. Its map leads back into `source`,
and there is none if nothing changed. -/
def spliceBlocks (source : Text) (filename : Text) (blocks : List Markup.Block)
    (results : List Processed) : Except SourceMap.Error Spliced := do
  let (splice, dependencies) ← spliceFrom source 0 (blocks.zip results) (.start source filename)
  return {
    code := ← splice.code
    map := splice.map?
    dependencies := ← (Json.distinctKeys [] dependencies).mapError .conversion
    stylesheets := results.flatMap (·.stylesheets) }

end Componentry
