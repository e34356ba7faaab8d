import Componentry.Markup.Extraction
import Componentry.Pipeline.Import
import Componentry.Pipeline.Splicing
import Componentry.Pipeline.Step

/-!
# Style blocks

A style in a language of its own is lowered. A style leaves its component, as a stylesheet of its
own, if it is global, and a lowered one also where styles are not part of the module.
-/

namespace Componentry

/-- The language that styles are lowered from. -/
def scssLang : Text := "scss"

/-- Is this style lowered? -/
def isScss (b : Markup.Block) : Bool := b.lang == some scssLang

/-- Does a lowered style leave the component? -/
def shouldEmit (inlineCss : Bool) (b : Markup.Block) : Bool :=
  b.attributes.has "global" || !inlineCss

/-- Does a style that is not lowered leave the component? -/
def emitsPlain (b : Markup.Block) : Bool := b.attributes.has "global" && !Text.allBlank b.content

/-- Does the style take a stylesheet name? A lowered one takes it even if lowering fails. -/
def takesName (inlineCss : Bool) (b : Markup.Block) : Bool :=
  if isScss b then shouldEmit inlineCss b else emitsPlain b

/-- The name of the stylesheet after `taken` others. -/
def stylesheetName (basename : Text) (taken : Nat) : Text :=
  if taken = 0 then basename ++ ".css" else basename ++ "." ++ toString taken ++ ".css"

/-- What a style block has become. -/
structure StyleOutcome extends Processed where
  /-- Has it left the component? -/
  emitted : Bool := false
  deriving Inhabited

namespace Step

variable {σ : Type}

/-- Watches a file. It is read, so that what is no text is noticed; a missing one is not. -/
def watch (site : Site) (name : Json) : Step σ Unit := do
  of fun p =>
    (.ok (), { p with register := { p.register with watched := p.register.watched ++ [name] } })
  let some path := name.asText? | throw (.conversion (.notPath name.typeName))
  match site.read path with
  | .error (.file e) =>
    match e with
    | .decode _ => throw (.file e)
    | .encode _ => throw (.file e)
    | .nullByte => throw (.file e)
    | _ => pure ()
  | _ => pure ()

/-- Watches files in order. -/
def watchAll (site : Site) : List Json → Step σ Unit
  | [] => pure ()
  | name :: rest => do
    watch site name
    watchAll site rest

/-- A style that leaves the component under `name`. -/
def emit (name : Text) (css : Json) (map : Option Json) (dependencies : List Json) :
    Step σ StyleOutcome := do
  note "preprocess.style" ("Emitting " ++ name ++ " as a standalone stylesheet")
  return {
    code := .str Markup.placeholder
    dependencies
    stylesheets := [{ path := name, data := css, sourceMap := .ofOption map }]
    emitted := true }

/-- Processes a style block; `name` is the stylesheet name that it takes if it takes one. A failure
of the tool is reported, and the block is left empty. -/
def style (tool : Action σ (StyleTool σ)) (site : Site) (inlineCss : Bool) (name : Text)
    (b : Markup.Block) : Step σ StyleOutcome := do
  let content := b.content
  if isScss b then
    let styles ← Step.tool tool
    let lowered ← outcome (job (Step.tool
      (styles.transform content site.path b.attributes site.imports)))
    match lowered with
    | .error f =>
      note "preprocess.style" ("SCSS lowering failed for " ++ site.path ++ ": " ++ f.message)
      report f
      return { code := .str "" }
    | .ok result =>
      watchAll site result.dependencies
      if shouldEmit inlineCss b then emit name result.code result.map result.dependencies
      else return { code := result.code, map := result.map, dependencies := result.dependencies }
  else if emitsPlain b then emit name (.str content) none []
  else return { code := .str content }

end Step

end Componentry
