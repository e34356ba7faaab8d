import Componentry.Proofs.Pipeline.Frame
import Mathlib.Data.List.Forall2

/-!
# Steady steps

Tools are steady if what they give depends on what they are given alone, and not on their state.
With steady tools, and with files that styles cannot tell apart, a document is compiled to the same
outcome whatever the state of the tools: two steps are alike when they come to the same outcome and
leave the same progress behind, the state of the tools apart.
-/

namespace Componentry

variable {σ α β : Type}

/-- Does what the action gives not depend on the state? -/
def Action.Steady (a : Action σ α) : Prop := ∀ s s', (a.run s).1 = (a.run s').1

/-- Is the tool that an action asks for in some state `tool`? -/
def Action.Gives (a : Action σ α) (tool : α) : Prop := ∃ s, (a.run s).1 = .ok tool

/-- Are all tools functions of what they are given? -/
structure Toolchain.Steady (tools : Toolchain σ) : Prop where
  markup : tools.markup.Steady
  script : tools.script.Steady
  style : tools.style.Steady
  hot : tools.hot.Steady
  lowering : tools.lowering.Steady
  version : ∀ tool, tools.markup.Gives tool → tool.version.Steady
  compile : ∀ tool, tools.markup.Gives tool → ∀ source options, (tool.compile source options).Steady
  scriptTransform : ∀ tool, tools.script.Gives tool → ∀ content filename attributes,
    (tool.transform content filename attributes).Steady
  styleTransform : ∀ tool, tools.style.Gives tool → ∀ content filename attributes imports,
    (tool.transform content filename attributes imports).Steady
  instrument : ∀ tool, tools.hot.Gives tool → ∀ request, (tool.instrument request).Steady
  lower : ∀ tool, tools.lowering.Gives tool → ∀ code filename, (tool.lower code filename).Steady

namespace Step

/-! ## Steps that are alike -/

/-- Do the steps come to the same outcome and leave the same progress, whatever the states of the
tools? -/
def Alike (s t : Step σ α) : Prop :=
  ∀ p tools, ∃ tools', t.from_ { p with tools } =
    ((s.from_ p).1, { (s.from_ p).2 with tools := tools' })

namespace Alike

variable {s t : Step σ α}

theorem pure (a : α) : Alike (Pure.pure a : Step σ α) (Pure.pure a) := fun _ tools => ⟨tools, rfl⟩

theorem throw (f : Failure) : Alike (MonadExcept.throw f : Step σ α) (MonadExcept.throw f) :=
  fun _ tools => ⟨tools, rfl⟩

theorem check (r : Except Failure α) : Alike (Step.check r : Step σ α) (Step.check r) :=
  fun _ tools => ⟨tools, rfl⟩

theorem note (source text : Text) :
    Alike (Step.note source text : Step σ Unit) (Step.note source text) :=
  fun _ tools => ⟨tools, rfl⟩

theorem addReport (report : Report) :
    Alike (Step.addReport report : Step σ Unit) (Step.addReport report) :=
  fun _ tools => ⟨tools, rfl⟩

/-- What comes after a step is told what the step can give. -/
theorem bind_of {P : α → Prop} {f g : α → Step σ β} (h : Alike s t)
    (post : ∀ p a, (s.from_ p).1 = .ok a → P a) (next : ∀ a, P a → Alike (f a) (g a)) :
    Alike (s >>= f) (t >>= g) := by
  intro p tools
  obtain ⟨tools', run⟩ := h p tools
  have given := post p
  rw [from_bind, from_bind, run]
  cases hs : s.from_ p with
  | mk r q =>
    rw [hs] at given
    cases r with
    | ok a => exact next a (given a rfl) q tools'
    | error e => exact ⟨tools', rfl⟩

theorem bind {f g : α → Step σ β} (h : Alike s t) (next : ∀ a, Alike (f a) (g a)) :
    Alike (s >>= f) (t >>= g) :=
  h.bind_of (P := fun _ => True) (fun _ _ _ => trivial) fun a _ => next a

theorem report (f : Failure) : Alike (Step.report f : Step σ Unit) (Step.report f) :=
  (check _).bind addReport

theorem tool {a b : Action σ α} (h : ∀ s s', (a.run s).1 = (b.run s').1) :
    Alike (Step.tool a) (Step.tool b) := by
  intro p tools
  refine ⟨(b.run tools).2, ?_⟩
  rw [from_tool, from_tool, h p.tools tools]

/-- What comes after asking for a tool is told which tool it is. -/
theorem bind_tool {a : Action σ α} {f g : α → Step σ β} (steady : a.Steady)
    (next : ∀ x, a.Gives x → Alike (f x) (g x)) : Alike (Step.tool a >>= f) (Step.tool a >>= g) :=
  (tool steady).bind_of (fun p _ given => ⟨p.tools, given⟩) next

theorem outcome (h : Alike s t) : Alike (Step.outcome s) (Step.outcome t) := by
  intro p tools
  obtain ⟨tools', run⟩ := h p tools
  refine ⟨tools', ?_⟩
  simp only [Step.outcome, from_of, run]

theorem job (h : Alike s t) : Alike (Step.job s) (Step.job t) := by
  intro p tools
  obtain ⟨tools', run⟩ := h p tools
  refine ⟨tools', ?_⟩
  simp only [Step.job, from_of, run]

theorem stage (complaint : Text) (h : Alike s t) :
    Alike (Step.stage complaint s) (Step.stage complaint t) := by
  refine h.outcome.bind fun r => ?_
  cases r with
  | ok a => exact pure _
  | error f =>
    dsimp only
    split
    · exact throw f
    · exact (note _ _).bind fun _ => (report f).bind fun _ => pure none

/-- Steps that are alike one by one are alike when they run one after the other. -/
theorem eachFrom {ss ts : List (Step σ α)} (h : List.Forall₂ Alike ss ts) (start : Nat)
    (p : Progress σ) (tools : σ) : ∃ tools', Step.eachFrom start ts { p with tools } =
      ((Step.eachFrom start ss p).1, { (Step.eachFrom start ss p).2 with tools := tools' }) := by
  induction h generalizing p tools with
  | nil => exact ⟨tools, rfl⟩
  | cons first rest ih =>
    obtain ⟨tools₁, run⟩ := first { p with round := start } tools
    obtain ⟨tools₂, others⟩ := ih (p := (_ : Progress σ)) tools₁
    refine ⟨tools₂, ?_⟩
    simp only [Step.eachFrom]
    rw [run]
    simp only
    rw [others]

theorem together {ss ts : List (Step σ α)} (h : List.Forall₂ Alike ss ts) :
    Alike (Step.together ss) (Step.together ts) := by
  intro p tools
  have empty : ss.isEmpty = ts.isEmpty := by
    cases h <;> rfl
  obtain ⟨tools', runs⟩ := eachFrom h (p.round + 1) p tools
  simp only [Step.together, from_of, ← empty]
  split
  · exact ⟨tools, rfl⟩
  · refine ⟨tools', ?_⟩
    rw [runs]
    simp only
    split <;> rfl

end Alike

end Step

/-! ## Files that styles cannot tell apart -/

/-- Why a watched file is refused, if it is: it is no text, or its name cannot be looked up. -/
def Site.refusal? (s : Site) (file : Text) : Option FileError :=
  match s.read file with
  | .error (.file e) => if Store.isReadable e then none else some e
  | _ => none

/-- Does the style tool give the same for styles among either files, and are the files that it has
read refused in neither or both? -/
structure Project.StylesAgree (p : Project σ) (t t' : FileTree) : Prop where
  transform : ∀ tool, p.tools.style.Gives tool → ∀ content path attributes s s',
    ((tool.transform content path attributes (p.site t path).imports).run s).1 =
      ((tool.transform content path attributes (p.site t' path).imports).run s').1
  watched : ∀ tool, p.tools.style.Gives tool → ∀ content path attributes result,
    (tool.transform content path attributes (p.site t path).imports).Gives result →
    ∀ file, .str file ∈ result.dependencies →
      (p.site t path).refusal? file = (p.site t' path).refusal? file

namespace Step

/-- What a step does about a file that may be refused. -/
def refuse : Option FileError → Step σ Unit
  | some e => throw (.file e)
  | none => pure ()

/-- A file that is watched is named first, and then it may be refused. -/
theorem watch_str (site : Site) (file : Text) :
    (watch site (.str file) : Step σ Unit) =
      (of fun p => (.ok (), { p with register :=
        { p.register with watched := p.register.watched ++ [.str file] } })) >>= fun _ =>
          refuse (site.refusal? file) := by
  rw [watch]
  congr 1
  funext _
  simp only [Json.asText?, Site.refusal?]
  cases site.read file with
  | ok text => rfl
  | error f =>
    cases f with
    | file e => cases e <;> rfl
    | _ => rfl

section

variable {p : Project σ} {t t' : FileTree}

theorem alike_watch {site site' : Site} {name : Json}
    (h : ∀ file, name = .str file → site.refusal? file = site'.refusal? file) :
    Alike (watch site name : Step σ Unit) (watch site' name) := by
  cases name with
  | str file =>
    rw [watch_str, watch_str, h file rfl]
    refine Alike.bind (fun _ tools => ⟨tools, rfl⟩) fun _ => ?_
    cases site'.refusal? file with
    | some e => exact .throw _
    | none => exact .pure _
  | _ => exact Alike.bind (fun _ tools => ⟨tools, rfl⟩) fun _ => .throw _

theorem alike_watchAll {site site' : Site} {names : List Json}
    (h : ∀ file, .str file ∈ names → site.refusal? file = site'.refusal? file) :
    Alike (watchAll site names : Step σ Unit) (watchAll site' names) := by
  induction names with
  | nil => exact .pure _
  | cons name rest ih =>
    refine (alike_watch fun file same => h file (same ▸ List.mem_cons_self ..)).bind fun _ => ?_
    exact ih fun file hf => h file (List.mem_cons_of_mem _ hf)

theorem alike_emit (name : Text) (css : Json) (map : Option Json) (dependencies : List Json) :
    Alike (emit name css map dependencies : Step σ StyleOutcome)
      (emit name css map dependencies) :=
  (Alike.note _ _).bind fun _ => .pure _

/-- A style block comes to the same among files that styles cannot tell apart. -/
theorem alike_style (steady : p.tools.Steady) (same : p.StylesAgree t t') (path : Text)
    (inlineCss : Bool) (name : Text) (b : Markup.Block) :
    Alike (style p.tools.style (p.site t path) inlineCss name b)
      (style p.tools.style (p.site t' path) inlineCss name b) := by
  rw [style, style]
  split
  · refine Alike.bind_tool steady.style fun tool given => ?_
    have lowered := (Alike.tool (same.transform tool given b.content path b.attributes)).job.outcome
    refine lowered.bind_of (P := fun r => ∀ result, r = .ok result →
      (tool.transform b.content path b.attributes (p.site t path).imports).Gives result) ?_ ?_
    · rintro q _ ⟨⟩ result given
      exact ⟨q.tools, given⟩
    · intro r gives
      cases r with
      | error f =>
        exact (Alike.note _ _).bind fun _ => (Alike.report f).bind fun _ => .pure _
      | ok result =>
        refine (alike_watchAll (same.watched tool given _ _ _ _ (gives result rfl))).bind fun _ => ?_
        split
        · exact alike_emit _ _ _ _
        · exact .pure _
  · split
    · exact alike_emit _ _ _ _
    · exact .pure _

theorem alike_script (steady : p.tools.Steady) (path : Text) (b : Markup.Block) :
    Alike (script p.tools.script path b) (script p.tools.script path b) := by
  rw [script]
  split
  · refine (Alike.note _ _).bind fun _ => Alike.bind_tool steady.script fun tool given => ?_
    exact (Alike.tool (steady.scriptTransform tool given _ _ _)).bind fun _ => .pure _
  · exact .pure _

theorem alike_blockSteps (steady : p.tools.Steady) (same : p.StylesAgree t t') (path : Text)
    (inlineCss : Bool) (taken : Nat) (blocks : List Markup.Block) :
    List.Forall₂ Alike (blockSteps p (p.site t path) inlineCss taken blocks)
      (blockSteps p (p.site t' path) inlineCss taken blocks) := by
  induction blocks generalizing taken with
  | nil => exact .nil
  | cons b rest ih =>
    rw [blockSteps, blockSteps]
    cases b.kind with
    | script => exact .cons (alike_script steady path b).job (ih taken)
    | style =>
      exact .cons ((alike_style steady same path inlineCss _ b).bind fun _ => .pure _) (ih _)

theorem alike_compileMarkup (steady : p.tools.Steady) (code : Text) (options : MarkupOptions) :
    Alike (compileMarkup p code options) (compileMarkup p code options) := by
  refine (Alike.check _).bind fun stripped => ?_
  refine Alike.bind_tool steady.markup fun tool given => ?_
  exact (Alike.tool (steady.compile tool given _ _)).job.bind fun _ => .pure _

theorem alike_makeHot (steady : p.tools.Steady) (path : Text) (code details : Json) (markup : Text)
    (options : MarkupOptions) :
    Alike (makeHot p path code details markup options) (makeHot p path code details markup options) := by
  refine Alike.bind_tool steady.hot fun tool given => Alike.job ?_
  refine (Alike.note _ _).bind fun _ => ?_
  exact (Alike.tool (steady.instrument tool given _)).bind fun _ => .check _

/-- **A component is compiled to the same** whatever the state of its tools, and among files that
styles cannot tell apart. -/
theorem alike_compileComponent (steady : p.tools.Steady) (same : p.StylesAgree t t')
    (document : Document) (hot : Bool) :
    Alike (compileComponent p t document hot) (compileComponent p t' document hot) := by
  refine (Alike.check _).bind fun options => ?_
  have preprocessed := (Alike.together (alike_blockSteps steady same document.path options.css 0
    (Markup.blocks document.content))).bind fun results => Alike.check
      ((spliceBlocks document.content document.path (Markup.blocks document.content) results).mapError
        Failure.sourceMap)
  refine (preprocessed.stage _).bind fun preprocessed => ?_
  cases preprocessed with
  | none => exact .pure _
  | some preprocessed =>
    refine ((alike_compileMarkup steady _ options).stage _).bind fun compiled => ?_
    cases compiled with
    | none => exact .pure _
    | some compiled =>
      refine (Alike.check _).bind fun _ => (Alike.check _).bind fun _ => (Alike.check _).bind fun _ => ?_
      split
      · refine ((alike_makeHot steady _ _ _ _ _).stage _).bind fun code => ?_
        cases code with
        | none => exact .pure _
        | some code => exact .pure _
      · exact .pure _

end

end Step

end Componentry
