import Componentry.Text.Basic

/-!
# Stages

The stages of a compile, in order. Each has a name, which settings use, and a word for the tool that
does its work.
-/

namespace Componentry

/-- A stage of a compile. -/
inductive Stage where
  | markup | script | style | hot | lowering
  deriving DecidableEq, Repr

namespace Stage

/-- The stages in order. -/
def all : List Stage := [.markup, .script, .style, .hot, .lowering]

/-- The name of a stage. -/
def name : Stage → Text
  | .markup => "markup"
  | .script => "script"
  | .style => "style"
  | .hot => "hot"
  | .lowering => "lowering"

/-- The stage of a name. -/
def ofName? (name : Text) : Option Stage := all.find? fun s => s.name == name

/-- What a tool for the stage is called. -/
def role : Stage → Text
  | .markup => "MarkupCompiler"
  | .script => "ScriptTransformer"
  | .style => "StyleTransformer"
  | .hot => "HotReloader"
  | .lowering => "Lowerer"

end Stage

end Componentry
