import Componentry.Markup.Block
import Componentry.Pipeline.Splicing
import Componentry.Pipeline.Step

/-!
# Script blocks

A script in a typed language is lowered, any other is passed through. The tool is asked for only
when there is something to lower.
-/

namespace Componentry

/-- Is this script lowered? -/
def isTyped (b : Markup.Block) : Bool := b.lang == some "ts" || b.lang == some "typescript"

/-- Processes a script block. -/
def Step.script {σ : Type} (tool : Action σ (ScriptTool σ)) (filename : Text)
    (b : Markup.Block) : Step σ Processed := do
  if isTyped b then
    note "preprocess.script" ("Lowering TypeScript block in " ++ filename)
    let scripts ← Step.tool tool
    let result ← Step.tool (scripts.transform b.content filename b.attributes)
    return { code := result.code, map := result.map, dependencies := result.dependencies }
  else return { code := .str b.content }

end Componentry
