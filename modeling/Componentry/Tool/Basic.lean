import Componentry.Markup.Attributes
import Componentry.Options

/-!
# Tools

The tools that a compile calls, one for each stage. A tool may keep a state of its own and may fail,
and asking for a tool may fail, too: then it is missing. Nothing else is known of them.
-/

namespace Componentry

/-- Something that may change a tool's state and may fail. -/
abbrev Action (σ α : Type) : Type := ExceptT Failure (StateM σ) α

/-- What a tool gives back. Tools are programs of others, so this may be any data: each stage
settles what it can use. -/
structure Transformed where
  code : Json
  map : Option Json := none
  /-- The files that were read on the way. -/
  dependencies : List Json := []
  css : Json := .null
  cssMap : Json := .null
  /-- What later stages want to know of the code. -/
  details : Json := .obj []
  deriving Inhabited

/-- How a style tool finds and reads the files that a style imports. -/
structure Imports where
  resolve : Text → Except Failure (Option Text)
  read : Text → Except Failure Text

/-- What a hot reload tool is asked for. -/
structure HotRequest where
  id : Text
  code : Json
  options : Json
  details : Json
  markup : Text
  markupOptions : MarkupOptions

/-- Compiles markup to module code. -/
structure MarkupTool (σ : Type) where
  version : Action σ Text
  compile : (source : Text) → MarkupOptions → Action σ Transformed

/-- Lowers the content of a script block. -/
structure ScriptTool (σ : Type) where
  transform : (content filename : Text) → Markup.Attributes → Action σ Transformed

/-- Lowers the content of a style block. -/
structure StyleTool (σ : Type) where
  transform : (content filename : Text) → Markup.Attributes → Imports → Action σ Transformed

/-- Makes module code replaceable while it runs. -/
structure HotTool (σ : Type) where
  instrument : HotRequest → Action σ Json

/-- Lowers module code. -/
structure LoweringTool (σ : Type) where
  lower : (code : Json) → (filename : Text) → Action σ Transformed

/-- The tools of a project. -/
structure Toolchain (σ : Type) where
  markup : Action σ (MarkupTool σ)
  script : Action σ (ScriptTool σ)
  style : Action σ (StyleTool σ)
  hot : Action σ (HotTool σ)
  lowering : Action σ (LoweringTool σ)

/-- The version of the markup tool. -/
def Toolchain.version {σ : Type} (tools : Toolchain σ) : Action σ Text := do
  (← tools.markup).version

end Componentry
