import Componentry.Markup.Section
import Componentry.Pipeline.HotReload
import Componentry.Pipeline.Lowering
import Componentry.Pipeline.Script
import Componentry.Pipeline.Style

/-!
# Compiling a document

The stages from a document to a module: its blocks are processed, styles that left it are stripped,
the markup is compiled, made replaceable if asked, and lowered, and the maps of all stages are
composed. A document that is a page gives its sections. What a tool says against the document is
reported, and then there is no result; a missing tool fails the compile.
-/

namespace Componentry

/-- What a project fixes for the compile of its documents. -/
structure Project (σ : Type) where
  options : Options
  production : Bool
  runtimePackage : Option Text
  tools : Toolchain σ
  root : Path
  cwd : Path
  hashing : Hashing
  /-- The time that cache entries are marked with. -/
  stamp : Text

namespace Project

variable {σ : Type}

/-- What lowering needs. -/
def lowering (p : Project σ) (tree : FileTree) : LoweringContext σ where
  tool := p.tools.lowering
  version := p.tools.version
  scope := ⟨p.options, p.production, p.runtimePackage, p.hashing⟩
  tree := tree
  stamp := p.stamp

/-- Where a document stands among the files. -/
def site (p : Project σ) (tree : FileTree) (path : Text) : Site := ⟨path, p.root, p.cwd, tree⟩

end Project

namespace Step

variable {σ : Type}

/-- The steps for the blocks of a document, `taken` stylesheet names being taken already. -/
def blockSteps (p : Project σ) (site : Site) (inlineCss : Bool) :
    (taken : Nat) → List Markup.Block → List (Step σ Processed)
  | _, [] => []
  | taken, b :: rest =>
    match b.kind with
    | .script => job (script p.tools.script site.path b) :: blockSteps p site inlineCss taken rest
    | .style =>
      let name := stylesheetName (basename site.path) taken
      (do return (← style p.tools.style site inlineCss name b).toProcessed) ::
        blockSteps p site inlineCss (if takesName inlineCss b then taken + 1 else taken) rest

/-- Processes the blocks of a text, each by its step, and puts the results in their places. -/
def preprocess (source : Text) (filename : Text)
    (steps : List Markup.Block → List (Step σ Processed)) : Step σ Spliced := do
  let blocks := Markup.blocks source
  let results ← together (steps blocks)
  check ((spliceBlocks source filename blocks results).mapError Failure.sourceMap)

/-- The outcome of a stage: a failure other than a missing tool is reported, and nothing is given.
-/
def stage {α : Type} (complaint : Text) (step : Step σ α) : Step σ (Option α) := do
  match ← outcome step with
  | .ok a => return some a
  | .error f =>
    if f.isSetup then throw f
    else do
      note "compiler" complaint
      report f
      return none

/-- The stylesheets of a module: those of its blocks, and the one that the markup tool gives unless
it is blank, styles are part of the module or the module is for a server. -/
def moduleStylesheets (document : Document) (markupOptions : MarkupOptions)
    (blocks : List Stylesheet) (compiled : Transformed) : Except Failure (List Stylesheet) :=
  match compiled.css with
  | .str css => do
    let server ← document.isServer
    if !Text.allBlank css && !markupOptions.css && !server then
      .ok (blocks ++ [{ path := document.basename ++ ".component.css", data := .str css,
                        sourceMap := compiled.cssMap }])
    else .ok blocks
  | j => if j.truthy then .error (.conversion (.noMethod j.typeName "strip")) else .ok blocks

/-- Strips styles that left the component and compiles the markup: the markup, the map of the
stripping, and what the tool gives. -/
def compileMarkup (p : Project σ) (code : Text) (markupOptions : MarkupOptions) :
    Step σ (Text × Option Json × Transformed) := do
  let (stripped, map) ←
    check ((Markup.stripMapped code markupOptions.filename).mapError Failure.sourceMap)
  let markup := stripped
  let tool ← Step.tool p.tools.markup
  let compiled ← job (Step.tool (tool.compile markup markupOptions))
  return (markup, map, compiled)

/-- Makes the code of a module replaceable. -/
def makeHot (p : Project σ) (path : Text) (code details : Json) (markup : Text)
    (markupOptions : MarkupOptions) : Step σ Text := do
  let tool ← Step.tool p.tools.hot
  job (instrument tool p.runtimePackage path code details markup markupOptions)

/-- Lowers a module. What the tool says against it is reported, with its place. -/
def lowerModule (p : Project σ) (tree : FileTree) (artifact : Artifact) (path : Text)
    (hot : Bool) : Step σ (Option Module) := do
  match ← outcome (job (lower (p.lowering tree) artifact path hot)) with
  | .ok m => return some m
  | .error f =>
    if f.isLowering then do
      addReport (← check (Report.ofLowering f))
      return none
    else throw f

/-- Compiles a document that is not a page, up to the module that is to be lowered. -/
def compileComponent (p : Project σ) (tree : FileTree) (document : Document) (hot : Bool) :
    Step σ (Option Artifact) := do
  let path := document.path
  let markupOptions ← check (MarkupOptions.ofDocument document p.options p.production)
  let site := p.site tree path
  let some preprocessed ← stage ("Preprocessing failed for " ++ path)
    (preprocess document.content path (blockSteps p site markupOptions.css 0))
    | return none
  let some (markup, stripMap, compiled) ← stage ("Markup compilation failed for " ++ path)
    (compileMarkup p preprocessed.code markupOptions)
    | return none
  let markupMap ← check ((SourceMap.compose stripMap preprocessed.map).mapError Failure.sourceMap)
  let map ← check ((SourceMap.compose compiled.map markupMap).mapError Failure.sourceMap)
  let stylesheets ←
    check (moduleStylesheets document markupOptions preprocessed.stylesheets compiled)
  if hot then
    let some code ← stage ("Hot reload instrumentation failed for " ++ path)
      (makeHot p path compiled.code compiled.details markup markupOptions)
      | return none
    return some { code := .str code, map, stylesheets }
  else return some { code := compiled.code, map, stylesheets }

/-- The sections of a document that is a page. -/
def page? (document : Document) : Option Result :=
  (Markup.sections? document.content).map fun sections =>
    .page (sections.map fun s => ⟨s.name.tag, s.data⟩)

end Step

end Componentry
