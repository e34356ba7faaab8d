import Componentry.Pipeline.Partition
import Componentry.Pipeline.Step

/-!
# Hot reload

Module code that can be replaced while it runs. The tool guards its code by a hook that hosts of
this program do not have; the first such guard is made to ask for the module's own.
-/

namespace Componentry

/-- The guard that the tool writes. -/
def toolHook : Text := "import.meta && import.meta.hot"

/-- The guard that hosts have. -/
def hostHook : Text := "module && module.hot"

/-- The code with its first guard replaced. -/
def patchHook (code : Text) : Text :=
  (Text.replaceFirst toolHook hostHook code)

/-- The code of a tool with its first guard replaced. -/
def patchTool (code : Json) : Except Failure Text :=
  match code with
  | .str s => .ok (patchHook s)
  | j => .error (.conversion (.noMethod j.typeName "replace"))

/-- Makes module code replaceable. -/
def Step.instrument {σ : Type} (tool : HotTool σ) (package : Option Text) (path : Text)
    (code details : Json) (markup : Text) (markupOptions : MarkupOptions) : Step σ Text := do
  note "postproc.hot_reload" ("Instrumenting " ++ path ++ " for hot reload")
  let instrumented ← Step.tool (tool.instrument {
    id := path, code, options := .obj (hotOptions package), details, markup, markupOptions })
  check (patchTool instrumented)

end Componentry
