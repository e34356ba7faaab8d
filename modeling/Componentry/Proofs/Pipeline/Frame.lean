import Componentry.Pipeline.Compile

/-!
# What steps leave alone

Steps may change the tools, the time and the log at will. What they do to the rest of the progress
is told by a relation between the progress before and after. Compiling a document up to its lowering
respects every relation that also leaves room for reports and watched files, and so does lowering if
there is room for partitions as well. Hence neither ever registers a result. Both say why when they
give nothing: there is a report then.
-/

namespace Componentry

variable {σ α β : Type}

namespace Step

/-! ## Runs -/

@[simp] theorem from_pure (a : α) (p : Progress σ) : (pure a : Step σ α).from_ p = (.ok a, p) := rfl

@[simp] theorem from_throw (f : Failure) (p : Progress σ) :
    (throw f : Step σ α).from_ p = (.error f, p) := rfl

@[simp] theorem from_of (f : Progress σ → Except Failure α × Progress σ) (p : Progress σ) :
    (of f).from_ p = f p := rfl

theorem from_bind (s : Step σ α) (f : α → Step σ β) (p : Progress σ) :
    (s >>= f).from_ p = match s.from_ p with
      | (.ok a, q) => (f a).from_ q
      | (.error e, q) => (.error e, q) := by
  show (ExceptT.bindCont f (s.from_ p).1).run (s.from_ p).2 = _
  rcases s.from_ p with ⟨r, q⟩
  cases r <;> rfl

theorem from_tool (a : Action σ α) (p : Progress σ) :
    (tool a).from_ p = ((a.run p.tools).1, { p with tools := (a.run p.tools).2 }) := rfl

/-! ## Relations that steps respect -/

/-- Does every run of the step relate the progress before it to the progress after it? -/
def Respects (R : Progress σ → Progress σ → Prop) (s : Step σ α) : Prop :=
  ∀ p, R p (s.from_ p).2

/-- A relation that says nothing about the tools, the time and the log. -/
structure Framing (R : Progress σ → Progress σ → Prop) : Prop where
  refl : ∀ p, R p p
  trans : ∀ {p q r}, R p q → R q r → R p r
  aside : ∀ p tools round log, R p { p with tools, round, log }

namespace Framing

variable {R : Progress σ → Progress σ → Prop} {s : Step σ α}

theorem pure (frame : Framing R) (a : α) : Respects R (Pure.pure a : Step σ α) := frame.refl

theorem throw (frame : Framing R) (f : Failure) :
    Respects R (MonadExcept.throw f : Step σ α) := frame.refl

theorem check (frame : Framing R) (r : Except Failure α) :
    Respects R (Step.check r : Step σ α) := frame.refl

theorem note (frame : Framing R) (source text : Text) :
    Respects R (Step.note source text : Step σ Unit) := fun p => frame.aside p _ _ _

theorem tool (frame : Framing R) (a : Action σ α) : Respects R (Step.tool a) :=
  fun p => frame.aside p _ _ _

theorem bind (frame : Framing R) {f : α → Step σ β} (h : Respects R s)
    (next : ∀ a, Respects R (f a)) : Respects R (s >>= f) := by
  intro p
  have first := h p
  rw [from_bind]
  rcases run : s.from_ p with ⟨r, q⟩
  rw [run] at first
  cases r with
  | ok a => exact frame.trans first (next a q)
  | error e => exact first

theorem outcome (h : Respects R s) : Respects R (Step.outcome s) := h

theorem job (frame : Framing R) (h : Respects R s) : Respects R (Step.job s) :=
  fun p => frame.trans (h p) (frame.aside _ _ _ _)

theorem eachFrom (frame : Framing R) {ss : List (Step σ α)} (h : ∀ s ∈ ss, Respects R s)
    (start : Nat) (p : Progress σ) : R p (Step.eachFrom start ss p).2 := by
  induction ss generalizing p with
  | nil => exact frame.refl p
  | cons s rest ih =>
    have first := h s (List.mem_cons_self ..) { p with round := start }
    have others := ih (fun t ht => h t (List.mem_cons_of_mem _ ht))
      (s.from_ { p with round := start }).2
    -- the clock is set back before each step, which the relation does not see
    exact frame.trans (frame.aside p _ start _) (frame.trans first others)

theorem together (frame : Framing R) {ss : List (Step σ α)} (h : ∀ s ∈ ss, Respects R s) :
    Respects R (Step.together ss) := by
  intro p
  have all := frame.eachFrom h (p.round + 1) p
  simp only [Step.together, from_of]
  split
  · exact frame.refl p
  · split <;> exact frame.trans all (frame.aside _ _ _ _)

theorem compileMarkup (frame : Framing R) (p : Project σ) (code : Text) (options : MarkupOptions) :
    Respects R (Step.compileMarkup p code options) := by
  refine frame.bind (frame.check _) fun _ => ?_
  refine frame.bind (frame.tool _) fun tool => ?_
  exact frame.bind (frame.job (frame.tool _)) fun _ => frame.pure _

theorem makeHot (frame : Framing R) (p : Project σ) (path : Text) (code details : Json)
    (markup : Text) (options : MarkupOptions) :
    Respects R (Step.makeHot p path code details markup options) := by
  refine frame.bind (frame.tool _) fun tool => frame.job ?_
  exact frame.bind (frame.note _ _) fun _ => frame.bind (frame.tool _) fun _ => frame.check _

theorem script (frame : Framing R) (tool : Action σ (ScriptTool σ)) (path : Text)
    (b : Markup.Block) : Respects R (Step.script tool path b) := by
  rw [Step.script]
  split
  · refine frame.bind (frame.note _ _) fun _ => frame.bind (frame.tool _) fun _ => ?_
    exact frame.bind (frame.tool _) fun _ => frame.pure _
  · exact frame.pure _

theorem emit (frame : Framing R) (name : Text) (css : Json) (map : Option Json)
    (dependencies : List Json) : Respects R (Step.emit name css map dependencies : Step σ _) :=
  frame.bind (frame.note _ _) fun _ => frame.pure _

/-- Watching files needs room for them alone. -/
theorem watchAll (frame : Framing R)
    (watched : ∀ p names, R p { p with register := { p.register with watched := names } })
    (site : Site) (names : List Json) :
    Respects R (Step.watchAll site names : Step σ Unit) := by
  induction names with
  | nil => exact frame.pure _
  | cons name rest ih =>
    have first : Respects R (Step.watch site name : Step σ Unit) := by
      refine frame.bind (fun p => watched p _) fun _ => ?_
      split
      · split
        · split <;> first | exact frame.throw _ | exact frame.pure _
        · exact frame.pure _
      · exact frame.throw _
    exact frame.bind first fun _ => ih

/-! ## Lowering -/

section

variable (frame : Framing R) (room : ∀ p partitions, R p { p with partitions })
include frame room

theorem openPartition (c : LoweringContext σ) (hot : Bool) :
    Respects R (Step.openPartition c hot) := by
  have found : Respects R (Step.partition c hot) := by
    refine frame.bind frame.refl fun ps => ?_
    split
    · exact frame.pure _
    · exact frame.bind (frame.tool _) fun _ => frame.bind (frame.check _) fun _ => frame.pure _
  refine frame.bind found fun directory => ?_
  split
  · exact frame.pure _
  · refine frame.bind frame.refl fun ps => ?_
    split
    · exact frame.pure _
    · refine frame.bind (frame.note _ _) fun _ => frame.bind (frame.check _) fun _ => ?_
      exact frame.bind (fun p => room p _) fun _ => frame.pure _

theorem lowerAfresh (c : LoweringContext σ) (store : Option (Path × Store)) (key path : Text)
    (code : Json) : Respects R (Step.lowerAfresh c store key path code) := by
  refine frame.bind (frame.tool _) fun tool => frame.bind (frame.tool _) fun result => ?_
  dsimp only
  split
  · split
    · refine frame.bind frame.refl fun _ => ?_
      exact frame.bind (fun p => room p _) fun _ => frame.pure _
    · exact frame.pure _
  · exact frame.pure _

theorem lower (c : LoweringContext σ) (artifact : Artifact) (path : Text) (hot : Bool) :
    Respects R (Step.lower c artifact path hot) := by
  have lowered : Respects R (Step.lowered c path artifact.code hot) := by
    refine frame.bind (frame.openPartition room c hot) fun store => ?_
    refine frame.bind (frame.check _) fun key => ?_
    split
    · exact frame.bind (frame.note _ _) fun _ => frame.pure _
    · exact frame.lowerAfresh room c store key path _
  refine frame.bind lowered fun pair => ?_
  dsimp only
  split
  · exact frame.bind (frame.throw _) fun _ => frame.bind (frame.check _) fun _ => frame.pure _
  · exact frame.bind (frame.check _) fun _ => frame.pure _

end

end Framing

/-- A relation that says nothing about reports and watched files either. -/
structure Reporting (R : Progress σ → Progress σ → Prop) : Prop extends Framing R where
  room : ∀ p report, R p { p with register := p.register.reported report }
  watched : ∀ p names, R p { p with register := { p.register with watched := names } }

namespace Reporting

variable {R : Progress σ → Progress σ → Prop}

theorem report (h : Reporting R) (f : Failure) : Respects R (Step.report f : Step σ Unit) :=
  h.bind (h.check _) fun _ p => h.room p _

theorem stage (h : Reporting R) (complaint : Text) {s : Step σ α} (inner : Respects R s) :
    Respects R (Step.stage complaint s) := by
  refine h.bind (Framing.outcome inner) fun r => ?_
  cases r with
  | ok a => exact h.pure _
  | error f =>
    dsimp only
    split
    · exact h.throw f
    · exact h.bind (h.note _ _) fun _ => h.bind (h.report f) fun _ => h.pure _

theorem watchAll (h : Reporting R) (site : Site) (names : List Json) :
    Respects R (Step.watchAll site names : Step σ Unit) :=
  h.toFraming.watchAll h.watched site names

theorem style (h : Reporting R) (tool : Action σ (StyleTool σ)) (site : Site) (inlineCss : Bool)
    (name : Text) (b : Markup.Block) : Respects R (Step.style tool site inlineCss name b) := by
  rw [Step.style]
  split
  · refine h.bind (h.tool _) fun styles => ?_
    refine h.bind (Framing.outcome (h.job (h.tool _))) fun lowered => ?_
    cases lowered with
    | error f => exact h.bind (h.note _ _) fun _ => h.bind (h.report f) fun _ => h.pure _
    | ok result =>
      refine h.bind (h.watchAll site _) fun _ => ?_
      split
      · exact h.emit _ _ _ _
      · exact h.pure _
  · split
    · exact h.emit _ _ _ _
    · exact h.pure _

theorem blockSteps (h : Reporting R) (p : Project σ) (site : Site) (inlineCss : Bool) (taken : Nat)
    (blocks : List Markup.Block) :
    ∀ s ∈ Step.blockSteps p site inlineCss taken blocks, Respects R s := by
  induction blocks generalizing taken with
  | nil => exact fun s hs => absurd hs List.not_mem_nil
  | cons b rest ih =>
    rw [Step.blockSteps]
    cases b.kind with
    | script =>
      exact List.forall_mem_cons.mpr ⟨h.job (h.script _ _ b), ih taken⟩
    | style =>
      exact List.forall_mem_cons.mpr ⟨h.bind (h.style _ _ _ _ b) fun _ => h.pure _, ih _⟩

/-- **Compiling a document up to its lowering** changes nothing that a relation with room for reports
and watched files speaks about. -/
theorem compileComponent (h : Reporting R) (p : Project σ) (tree : FileTree) (document : Document)
    (hot : Bool) : Respects R (Step.compileComponent p tree document hot) := by
  refine h.bind (h.check _) fun options => ?_
  have preprocessed : Respects R (preprocess document.content document.path
      (Step.blockSteps p (p.site tree document.path) options.css 0)) :=
    h.bind (h.together (h.blockSteps p _ _ _ _)) fun _ => h.check _
  refine h.bind (h.stage _ preprocessed) fun preprocessed => ?_
  cases preprocessed with
  | none => exact h.pure _
  | some preprocessed =>
    refine h.bind (h.stage _ (h.compileMarkup p _ options)) fun compiled => ?_
    cases compiled with
    | none => exact h.pure _
    | some compiled =>
      refine h.bind (h.check _) fun _ => h.bind (h.check _) fun _ => h.bind (h.check _) fun _ => ?_
      split
      · refine h.bind (h.stage _ (h.makeHot p _ _ _ _ _)) fun code => ?_
        cases code with
        | none => exact h.pure _
        | some code => exact h.pure _
      · exact h.pure _

/-- **Lowering a module** changes nothing that a relation with room for reports and partitions speaks
about. -/
theorem lowerModule (h : Reporting R) (partitions : ∀ p partitions, R p { p with partitions })
    (p : Project σ) (tree : FileTree) (artifact : Artifact) (path : Text) (hot : Bool) :
    Respects R (Step.lowerModule p tree artifact path hot) := by
  refine h.bind (Framing.outcome (h.job (h.lower partitions _ artifact path hot))) fun r => ?_
  cases r with
  | ok m => exact h.pure _
  | error f =>
    dsimp only
    split
    · exact h.bind (h.check _) fun _ => h.bind (fun p => h.room p _) fun _ => h.pure _
    · exact h.throw f

end Reporting

/-! ## Two relations -/

theorem reporting_partitions :
    Reporting fun p q : Progress σ => q.partitions = p.partitions where
  refl _ := rfl
  trans first second := second.trans first
  aside _ _ _ _ := rfl
  room _ _ := rfl
  watched _ _ := rfl

end Step

/-- Has nothing been registered? -/
structure Register.Silent (r : Register) : Prop where
  modules : r.modules = []
  stylesheets : r.stylesheets = []
  html : r.html = []

namespace Step

theorem reporting_silent :
    Reporting fun p q : Progress σ => p.register.Silent → q.register.Silent where
  refl _ := id
  trans first second := second ∘ first
  aside _ _ _ _ := id
  room _ _ silent := ⟨silent.modules, silent.stylesheets, silent.html⟩
  watched _ _ silent := ⟨silent.modules, silent.stylesheets, silent.html⟩

/-! ## Nothing without a report -/

/-- Is there a report whenever the step gives nothing? -/
def Explains (s : Step σ (Option α)) : Prop :=
  ∀ p, (s.from_ p).1 = .ok none → (s.from_ p).2.register.errors ≠ []

theorem explains_some (a : α) : Explains (pure (some a) : Step σ (Option α)) := nofun

theorem explains_bind {s : Step σ α} {f : α → Step σ (Option β)} (next : ∀ a, Explains (f a)) :
    Explains (s >>= f) := by
  intro p
  rw [from_bind]
  rcases s.from_ p with ⟨r, q⟩
  cases r with
  | ok a => exact next a q
  | error e => exact nofun

/-- A failure is reported, unless the reporting itself fails. -/
theorem from_report (f : Failure) (p : Progress σ) :
    (∃ e, (report f).from_ p = (.error e, p)) ∨
      ∃ r, (report f).from_ p = (.ok (), { p with register := p.register.reported r }) := by
  rw [report, from_bind, check, from_of]
  cases Report.ofFailure f with
  | error e => exact .inl ⟨e, rfl⟩
  | ok r => exact .inr ⟨r, rfl⟩

theorem errors_reported (r : Register) (report : Report) : (r.reported report).errors ≠ [] := by
  simp [Register.reported]

/-- A stage without a result has reported why. -/
theorem explains_stage (complaint : Text) (s : Step σ α) : Explains (stage complaint s) := by
  refine explains_bind fun r => ?_
  cases r with
  | ok a => exact explains_some a
  | error f =>
    dsimp only
    split
    · exact nofun
    · refine explains_bind fun _ => ?_
      intro p
      rw [from_bind]
      rcases from_report f p with ⟨e, run⟩ | ⟨r, run⟩
      · rw [run]
        exact nofun
      · rw [run]
        exact fun _ => errors_reported _ r

/-- What goes on after a stage, and stops if it gives nothing, gives nothing without a report either.
-/
theorem explains_stage_bind (complaint : Text) (s : Step σ α) {f : Option α → Step σ (Option β)}
    (stops : f none = pure none) (next : ∀ a, Explains (f (some a))) :
    Explains (stage complaint s >>= f) := by
  intro p
  have stopped := explains_stage complaint s p
  rw [from_bind]
  rcases run : (stage complaint s).from_ p with ⟨r, q⟩
  rw [run] at stopped
  rcases r with e | (_ | a)
  · exact nofun
  · simp only [stops]
    exact fun _ => stopped rfl
  · exact next a q

/-- **A component without a module has a report.** -/
theorem explains_compileComponent (p : Project σ) (tree : FileTree) (document : Document)
    (hot : Bool) : Explains (compileComponent p tree document hot) := by
  refine explains_bind fun options => ?_
  refine explains_stage_bind _ _ rfl fun preprocessed => ?_
  refine explains_stage_bind _ _ rfl fun compiled => ?_
  refine explains_bind fun _ => explains_bind fun _ => explains_bind fun _ => ?_
  split
  · exact explains_stage_bind _ _ rfl fun code => explains_some _
  · exact explains_some _

/-- **A module that is not lowered has a report.** -/
theorem explains_lowerModule (p : Project σ) (tree : FileTree) (artifact : Artifact) (path : Text)
    (hot : Bool) : Explains (lowerModule p tree artifact path hot) := by
  refine explains_bind fun r => ?_
  cases r with
  | ok m => exact explains_some m
  | error f =>
    dsimp only
    split
    · refine explains_bind fun report => ?_
      exact fun q _ => errors_reported q.register report
    · exact nofun

end Step

end Componentry
