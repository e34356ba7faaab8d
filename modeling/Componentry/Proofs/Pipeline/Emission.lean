import Componentry.Proofs.Pipeline.Steady

/-!
# Where styles go

A lowered style leaves its component if it is global, and otherwise unless the options ask for
styles within modules. That option is not heeded in builds for servers. So builds of one document
for two architectures hand the same markup and stylesheets on if both are for servers or neither is,
if the option is not set, or if all lowered styles are global; otherwise the build for a server has
more stylesheets.
-/

namespace Componentry

variable {σ α β : Type}

namespace Step

/-! ## What steps can give -/

/-- Can the step give `a`? -/
def Yields (s : Step σ α) (a : α) : Prop := ∃ p, (s.from_ p).1 = .ok a

theorem exists_of_from_bind {s : Step σ α} {f : α → Step σ β} {p r : Progress σ} {b : β}
    (h : (s >>= f).from_ p = (.ok b, r)) :
    ∃ a q, s.from_ p = (.ok a, q) ∧ (f a).from_ q = (.ok b, r) := by
  rw [from_bind] at h
  rcases run : s.from_ p with ⟨x, q⟩
  rw [run] at h
  cases x with
  | error e => cases h
  | ok a => exact ⟨a, q, rfl, h⟩

theorem exists_of_bind {s : Step σ α} {f : α → Step σ β} {b : β} (h : (s >>= f).Yields b) :
    ∃ a, s.Yields a ∧ (f a).Yields b := by
  obtain ⟨p, h⟩ := h
  obtain ⟨a, q, first, next⟩ := exists_of_from_bind (Prod.ext (y := (_, _)) h rfl)
  exact ⟨a, ⟨p, congrArg Prod.fst first⟩, q, congrArg Prod.fst next⟩

theorem eq_of_pure {a b : α} (h : (pure a : Step σ α).Yields b) : a = b := by
  obtain ⟨p, h⟩ := h
  exact Except.ok.inj h

theorem eq_of_check {r : Except Failure α} {a : α} (h : (check r : Step σ α).Yields a) :
    r = .ok a := by
  obtain ⟨p, h⟩ := h
  exact h

theorem ok_of_mapError {ε ε' : Type} {f : ε → ε'} {r : Except ε α} {a : α}
    (h : r.mapError f = .ok a) : r = .ok a := by
  cases r with
  | error e => cases h
  | ok b => exact congrArg Except.ok (Except.ok.inj h)

theorem gives_of_tool {a : Action σ α} {x : α} (h : (tool a).Yields x) : a.Gives x := by
  obtain ⟨p, h⟩ := h
  exact ⟨p.tools, h⟩

theorem values_of_gather {ends : List (Except Failure α × Nat)} {values : List α} {last : Nat}
    (h : gather ends = .ok (values, last)) : ends.map Prod.fst = values.map .ok := by
  induction ends generalizing values last with
  | nil =>
    obtain ⟨rfl, -⟩ := Prod.mk.inj (Except.ok.inj h)
    rfl
  | cons e rest ih =>
    obtain ⟨r, n⟩ := e
    cases r with
    | error f =>
      rw [gather] at h
      split at h <;> cases h
    | ok a =>
      rw [gather] at h
      cases others : gather rest with
      | error e =>
        rw [others] at h
        cases h
      | ok found =>
        rw [others] at h
        obtain ⟨rfl, -⟩ := Prod.mk.inj (Except.ok.inj h)
        rw [List.map_cons, List.map_cons, ih others]

theorem forall₂_eachFrom {steps : List (Step σ α)} {values : List α} {start : Nat} {p : Progress σ}
    (h : (eachFrom start steps p).1.map Prod.fst = values.map .ok) :
    List.Forall₂ Yields steps values := by
  induction steps generalizing values p with
  | nil =>
    obtain rfl : values = [] := by simpa [eachFrom] using h.symm
    exact .nil
  | cons step rest ih =>
    cases values with
    | nil => simp [eachFrom] at h
    | cons a values =>
      obtain ⟨first, others⟩ := List.cons.inj h
      exact .cons ⟨_, first⟩ (ih others)

/-- Each value of steps that run together is one that its step can give. -/
theorem forall₂_of_together {steps : List (Step σ α)} {values : List α}
    (h : (together steps).Yields values) : List.Forall₂ Yields steps values := by
  obtain ⟨p, h⟩ := h
  simp only [together, from_of] at h
  split at h
  · rename_i empty
    obtain rfl := Except.ok.inj h
    rw [List.isEmpty_iff.mp empty]
    exact .nil
  · split at h
    · rename_i gathered
      obtain rfl := Except.ok.inj h
      exact forall₂_eachFrom (values_of_gather gathered)
    · cases h

/-! ## What becomes of a lowered style -/

/-- Can the style tool lower the block to `result`? -/
def LowersTo (p : Project σ) (site : Site) (b : Markup.Block) (result : Transformed) : Prop :=
  ∃ tool, p.tools.style.Gives tool ∧
    (tool.transform b.content site.path b.attributes site.imports).Gives result

/-- Can the style tool fail on the block? -/
def Refuses (p : Project σ) (site : Site) (b : Markup.Block) : Prop :=
  ∃ tool s f, p.tools.style.Gives tool ∧
    ((tool.transform b.content site.path b.attributes site.imports).run s).1 = .error f

/-- What a lowered style becomes: nothing if the tool fails, and otherwise a stylesheet with the
placeholder in its place, or the lowered text, depending on whether it leaves the component. -/
inductive Lowered (p : Project σ) (site : Site) (leaves : Prop) (b : Markup.Block) :
    Processed → Prop where
  | refused : Refuses p site b → Lowered p site leaves b { code := .str "" }
  | emitted {result : Transformed} (name : Text) : leaves → LowersTo p site b result →
      Lowered p site leaves b {
        code := .str Markup.placeholder
        dependencies := result.dependencies
        stylesheets :=
          [{ path := name, data := result.code, sourceMap := .ofOption result.map }] }
  | kept {result : Transformed} : ¬ leaves → LowersTo p site b result →
      Lowered p site leaves b {
        code := result.code, map := result.map, dependencies := result.dependencies }

section Blocks

variable {p : Project σ} {site : Site} {inlineCss : Bool} {name : Text} {b : Markup.Block}

theorem eq_of_emit {css : Json} {map : Option Json} {dependencies : List Json} {r : StyleOutcome}
    (h : (emit name css map dependencies : Step σ StyleOutcome).Yields r) :
    r.toProcessed = {
      code := .str Markup.placeholder
      dependencies
      stylesheets := [{ path := name, data := css, sourceMap := .ofOption map }] } := by
  obtain ⟨_, -, h⟩ := exists_of_bind h
  rw [← eq_of_pure h]

/-- What is left to do of a style behind the style tool's answer. -/
def afterLowering (site : Site) (inlineCss : Bool) (name : Text) (b : Markup.Block) :
    Except Failure Transformed → Step σ StyleOutcome
  | .error f => do
    note "preprocess.style" ("SCSS lowering failed for " ++ site.path ++ ": " ++ f.message)
    report f
    return { code := .str "" }
  | .ok result => do
    watchAll site result.dependencies
    if shouldEmit inlineCss b then emit name result.code result.map result.dependencies
    else return { code := result.code, map := result.map, dependencies := result.dependencies }

theorem style_of_isScss (scss : isScss b) :
    style p.tools.style site inlineCss name b = Step.tool p.tools.style >>= fun styles =>
      outcome (job (Step.tool
        (styles.transform b.content site.path b.attributes site.imports))) >>=
          afterLowering site inlineCss name b := by
  rw [style, if_pos scss]
  rfl

/-- Behind the tool's answer a style becomes a lowered one, under its name if it leaves. -/
theorem lowered_of_afterLowering {styles : StyleTool σ} {s : σ} {r : StyleOutcome}
    (given : p.tools.style.Gives styles)
    (h : (afterLowering site inlineCss name b ((styles.transform b.content site.path b.attributes
      site.imports).run s).1 : Step σ StyleOutcome).Yields r) :
    Lowered p site (shouldEmit inlineCss b) b r.toProcessed ∧
      ∀ sheet ∈ r.stylesheets, sheet.path = name := by
  cases answer : ((styles.transform b.content site.path b.attributes site.imports).run s).1 with
  | error f =>
    rw [answer] at h
    obtain ⟨_, -, h⟩ := exists_of_bind h
    obtain ⟨_, -, h⟩ := exists_of_bind h
    rw [← eq_of_pure h]
    exact ⟨.refused ⟨styles, s, f, given, answer⟩, nofun⟩
  | ok result =>
    rw [answer] at h
    have lowers : LowersTo p site b result := ⟨styles, given, s, answer⟩
    obtain ⟨_, -, h⟩ := exists_of_bind h
    split at h
    · rename_i leaves
      rw [eq_of_emit h]
      exact ⟨.emitted name leaves lowers, by simp⟩
    · rename_i stays
      rw [← eq_of_pure h]
      exact ⟨.kept stays lowers, nofun⟩

theorem lowered_of_style (scss : isScss b) {r : StyleOutcome}
    (h : (style p.tools.style site inlineCss name b).Yields r) :
    Lowered p site (shouldEmit inlineCss b) b r.toProcessed := by
  rw [style_of_isScss scss] at h
  obtain ⟨styles, given, h⟩ := exists_of_bind h
  obtain ⟨_, ⟨q, run⟩, h⟩ := exists_of_bind h
  obtain rfl := Except.ok.inj run
  exact (lowered_of_afterLowering (gives_of_tool given) h).1

/-- How many stylesheets there are for a block that is no lowered style. -/
def plainSheets (b : Markup.Block) : Nat := if b.kind = .style ∧ emitsPlain b then 1 else 0

/-- What becomes of a block. -/
structure Becomes (p : Project σ) (site : Site) (inlineCss : Bool) (b : Markup.Block)
    (r : Processed) : Prop where
  lowered : b.kind = .style → isScss b → Lowered p site (shouldEmit inlineCss b) b r
  plain : ¬ (b.kind = .style ∧ isScss b) → r.stylesheets.length = plainSheets b

theorem becomes_script (script_ : b.kind = .script) {r : Processed}
    (h : (job (script p.tools.script site.path b)).Yields r) : Becomes p site inlineCss b r where
  lowered style := by rw [script_] at style; cases style
  plain _ := by
    have none : plainSheets b = 0 := by simp [plainSheets, script_]
    obtain ⟨q, h⟩ := h
    have h : (script p.tools.script site.path b).Yields r := ⟨q, h⟩
    rw [none]
    rw [script] at h
    split at h
    · obtain ⟨_, -, h⟩ := exists_of_bind h
      obtain ⟨_, -, h⟩ := exists_of_bind h
      obtain ⟨_, -, h⟩ := exists_of_bind h
      rw [← eq_of_pure h]
      rfl
    · rw [← eq_of_pure h]
      rfl

theorem becomes_style (style_ : b.kind = .style) {r : StyleOutcome}
    (h : (style p.tools.style site inlineCss name b).Yields r) :
    Becomes p site inlineCss b r.toProcessed where
  lowered _ scss := lowered_of_style scss h
  plain other := by
    have plain : ¬ isScss b := fun scss => other ⟨style_, scss⟩
    rw [style, if_neg plain] at h
    split at h
    · rename_i emits
      rw [eq_of_emit h]
      simp [plainSheets, style_, emits]
    · rename_i stays
      rw [← eq_of_pure h]
      simp [plainSheets, stays]

/-- **What becomes of the blocks**, by the list of them. -/
theorem forall₂_becomes {blocks : List Markup.Block} {taken : Nat} {results : List Processed}
    (h : List.Forall₂ Yields (blockSteps p site inlineCss taken blocks) results) :
    List.Forall₂ (Becomes p site inlineCss) blocks results := by
  induction blocks generalizing taken results with
  | nil =>
    cases h
    exact .nil
  | cons b rest ih =>
    rw [blockSteps] at h
    cases kind : b.kind with
    | script =>
      rw [kind] at h
      cases h with
      | cons first others => exact .cons (becomes_script kind first) (ih others)
    | style =>
      rw [kind] at h
      cases h with
      | cons first others =>
        obtain ⟨outcome, first, last⟩ := exists_of_bind first
        rw [← eq_of_pure last]
        exact .cons (becomes_style kind first) (ih others)

/-! ## Blocks that do not heed the option -/

/-- A style block is processed alike where it leaves the component or stays in it either way. -/
theorem style_congr {inlineCss' : Bool} (h : isScss b → shouldEmit inlineCss b = shouldEmit inlineCss' b) :
    style p.tools.style site inlineCss name b = style p.tools.style site inlineCss' name b := by
  rw [style, style]
  split
  · rename_i scss
    rw [h scss]
  · rfl

theorem takesName_congr {inlineCss' : Bool}
    (h : isScss b → shouldEmit inlineCss b = shouldEmit inlineCss' b) :
    takesName inlineCss b = takesName inlineCss' b := by
  rw [takesName, takesName]
  split
  · rename_i scss
    exact h scss
  · rfl

theorem blockSteps_congr {inlineCss' : Bool} {blocks : List Markup.Block}
    (h : ∀ b ∈ blocks, b.kind = .style → isScss b →
      shouldEmit inlineCss b = shouldEmit inlineCss' b) (taken : Nat) :
    blockSteps p site inlineCss taken blocks = blockSteps p site inlineCss' taken blocks := by
  induction blocks generalizing taken with
  | nil => rfl
  | cons b rest ih =>
    have first := h b (List.mem_cons_self ..)
    have others := ih fun c hc => h c (List.mem_cons_of_mem _ hc)
    rw [blockSteps, blockSteps]
    cases kind : b.kind with
    | script => simp only [others]
    | style => simp only [style_congr (first kind), takesName_congr (first kind), others]

/-! ## Counting stylesheets -/

/-- A steady tool does not fail on what it lowers. -/
theorem not_refuses_of_lowersTo (steady : p.tools.Steady) {result : Transformed}
    (h : LowersTo p site b result) : ¬ Refuses p site b := by
  rintro ⟨tool', s', f, ⟨t', given'⟩, failed⟩
  obtain ⟨tool, ⟨t, given⟩, s, lowered⟩ := h
  obtain rfl : tool = tool' := by
    have same := steady.style t t'
    rw [given, given'] at same
    exact Except.ok.inj same
  have same := steady.styleTransform tool ⟨t, given⟩ b.content site.path b.attributes site.imports s s'
  rw [lowered, failed] at same
  cases same

/-- A block gives no more stylesheets where styles are part of the module. -/
theorem Becomes.length_le (steady : p.tools.Steady) {r r' : Processed}
    (h : Becomes p site true b r) (h' : Becomes p site false b r') :
    r.stylesheets.length ≤ r'.stylesheets.length := by
  by_cases lowers : b.kind = .style ∧ isScss b
  · cases h.lowered lowers.1 lowers.2 with
    | refused => exact Nat.zero_le _
    | kept => exact Nat.zero_le _
    | emitted name leaves given =>
      -- The only stylesheet there is. The tool lowers the style in the other build as well.
      cases h'.lowered lowers.1 lowers.2 with
      | refused failed => exact absurd failed (not_refuses_of_lowersTo steady given)
      | emitted => exact Nat.le_refl 1
      | kept stays => exact absurd (by simp [shouldEmit]) stays
  · exact Nat.le_of_eq ((h.plain lowers).trans (h'.plain lowers).symm)

/-- A lowered style that is not global gives one more. -/
theorem Becomes.length_lt (steady : p.tools.Steady) {r r' : Processed} {result : Transformed}
    (h : Becomes p site true b r) (h' : Becomes p site false b r') (style_ : b.kind = .style)
    (scss : isScss b) (notGlobal : ¬ b.attributes.has "global") (lowers : LowersTo p site b result) :
    r.stylesheets.length < r'.stylesheets.length := by
  have never := not_refuses_of_lowersTo steady lowers
  cases h.lowered style_ scss with
  | refused failed => exact absurd failed never
  | emitted name leaves => exact absurd (by simpa [shouldEmit] using leaves) notGlobal
  | kept =>
    cases h'.lowered style_ scss with
    | refused failed => exact absurd failed never
    | emitted => exact Nat.zero_lt_one
    | kept stays => exact absurd (by simp [shouldEmit]) stays

theorem length_flatMap_le (steady : p.tools.Steady) {blocks : List Markup.Block}
    {results results' : List Processed} (h : List.Forall₂ (Becomes p site true) blocks results)
    (h' : List.Forall₂ (Becomes p site false) blocks results') :
    (results.flatMap (·.stylesheets)).length ≤ (results'.flatMap (·.stylesheets)).length := by
  induction h generalizing results' with
  | nil => exact Nat.zero_le _
  | cons first rest ih =>
    cases h' with
    | cons first' rest' =>
      simp only [List.flatMap_cons, List.length_append]
      exact Nat.add_le_add (first.length_le steady first') (ih rest')

theorem length_flatMap_lt (steady : p.tools.Steady) {blocks : List Markup.Block}
    {results results' : List Processed} {result : Transformed}
    (h : List.Forall₂ (Becomes p site true) blocks results)
    (h' : List.Forall₂ (Becomes p site false) blocks results') (mem : b ∈ blocks)
    (style_ : b.kind = .style) (scss : isScss b) (notGlobal : ¬ b.attributes.has "global")
    (lowers : LowersTo p site b result) :
    (results.flatMap (·.stylesheets)).length < (results'.flatMap (·.stylesheets)).length := by
  induction h generalizing results' with
  | nil => cases mem
  | cons first rest ih =>
    cases h' with
    | cons first' rest' =>
      simp only [List.flatMap_cons, List.length_append]
      rcases List.mem_cons.mp mem with rfl | mem
      · exact Nat.add_lt_add_of_lt_of_le
          (first.length_lt steady first' style_ scss notGlobal lowers)
          (length_flatMap_le steady rest rest')
      · exact Nat.add_lt_add_of_le_of_lt (first.length_le steady first') (ih rest' mem)

/-! ## A lowered style gives a result -/

theorem exists_watchAll {names : List Json}
    (h : ∀ n ∈ names, ∃ file, n = .str file ∧ site.refusal? file = none) (q : Progress σ) :
    ∃ q', (watchAll site names : Step σ Unit).from_ q = (.ok (), q') := by
  induction names generalizing q with
  | nil => exact ⟨q, rfl⟩
  | cons n rest ih =>
    obtain ⟨file, rfl, accepted⟩ := h n (List.mem_cons_self ..)
    rw [watchAll, watch_str, accepted]
    exact ih (fun m hm => h m (List.mem_cons_of_mem _ hm)) _

/-- **A style that is lowered** leaves the component or stays in it. -/
theorem exists_style (inlineCss : Bool) (name : Text) (scss : isScss b) {q : Progress σ}
    {tool : StyleTool σ} {result : Transformed}
    (given : (p.tools.style.run q.tools).1 = .ok tool)
    (lowered : ((tool.transform b.content site.path b.attributes site.imports).run
      (p.tools.style.run q.tools).2).1 = .ok result)
    (watched : ∀ n ∈ result.dependencies, ∃ file, n = .str file ∧ site.refusal? file = none) :
    ∃ r q', (style p.tools.style site inlineCss name b).from_ q = (.ok r, q') ∧
      (r.emitted ↔ shouldEmit inlineCss b) := by
  have asked : (Step.tool p.tools.style).from_ q =
      (.ok tool, { q with tools := (p.tools.style.run q.tools).2 }) := by
    rw [from_tool, given]
  have ran : ∃ q₁, (outcome (job (Step.tool
      (tool.transform b.content site.path b.attributes site.imports)))).from_
        { q with tools := (p.tools.style.run q.tools).2 } = (.ok (.ok result), q₁) := by
    simp only [outcome, job, from_of, from_tool, lowered]
    exact ⟨_, rfl⟩
  obtain ⟨q₁, ran⟩ := ran
  obtain ⟨q₂, watches⟩ := exists_watchAll watched q₁
  rw [style, if_pos scss, from_bind, asked]
  simp only
  rw [from_bind, ran]
  simp only
  rw [from_bind, watches]
  simp only
  split
  · rename_i leaves
    exact ⟨_, _, rfl, by simp [leaves]⟩
  · rename_i stays
    exact ⟨_, _, rfl, by simp [stays]⟩

end Blocks

end Step

/-! ## Builds for an architecture -/

/-- The document as it is built for an architecture. -/
def Document.builtFor (d : Document) (arch : Text) : Document := { d with arch := some arch }

/-- Is the architecture that of a server? -/
def runsOnServer (arch : Text) : Bool := Text.startsWith "os." arch

/-- Does a lowered style leave its component in builds for an architecture? -/
def Project.Emits (p : Project σ) (arch : Text) (b : Markup.Block) : Prop :=
  b.attributes.has "global" ∨ runsOnServer arch ∨ ¬ p.options.css.isTrue

theorem Project.emits_iff {p : Project σ} {arch : Text} {b : Markup.Block} :
    shouldEmit (!runsOnServer arch && p.options.css.isTrue) b ↔ p.Emits arch b := by
  simp only [shouldEmit, Emits, Bool.or_eq_true, Bool.not_eq_true']
  cases runsOnServer arch <;> simp

namespace Step

/-- What a compile hands on: the markup for the markup tool, and the stylesheets of the blocks. -/
def handed (p : Project σ) (tree : FileTree) (document : Document) :
    Step σ (Text × List Stylesheet) := do
  let options ← check (MarkupOptions.ofDocument document p.options p.production)
  let preprocessed ← preprocess document.content document.path
    (blockSteps p (p.site tree document.path) options.css 0)
  let stripped ←
    check ((Markup.stripMapped preprocessed.code options.filename).mapError Failure.sourceMap)
  return (stripped.1, preprocessed.stylesheets)

/-- Asks the markup tool to compile a markup. -/
def askMarkup (p : Project σ) (markup : Text) (options : MarkupOptions) : Step σ Transformed := do
  let tool ← Step.tool p.tools.markup
  job (Step.tool (tool.compile markup options))

section Handed

variable {p : Project σ} {tree : FileTree} {document : Document}

/-! ### What is handed on is what is compiled -/

theorem from_stage {complaint : Text} {s : Step σ α} {q q' : Progress σ} {a : α}
    (h : s.from_ q = (.ok a, q')) : (stage complaint s).from_ q = (.ok (some a), q') := by
  have ran : (outcome s).from_ q = (.ok (.ok a), q') := by
    simp only [outcome, from_of, h]
  rw [stage, from_bind, ran]
  rfl

theorem stage_map {complaint : Text} (s : Step σ α) (f : α → β) :
    stage complaint (s >>= fun a => pure (f a)) =
      stage complaint s >>= fun a => pure (a.map f) := by
  funext q
  show (stage complaint (s >>= fun a => pure (f a))).from_ q =
    (stage complaint s >>= fun a => pure (a.map f)).from_ q
  -- A failure is reported from the same progress on both sides, since `f` is applied last.
  have mapped : (outcome (s >>= fun a => pure (f a))).from_ q =
      (.ok ((s.from_ q).1.map f), (s.from_ q).2) := by
    simp only [outcome, from_of, from_bind]
    rcases s.from_ q with ⟨r, q'⟩
    cases r <;> rfl
  have ran : (outcome s).from_ q = (.ok (s.from_ q).1, (s.from_ q).2) := rfl
  rw [stage, stage, bind_assoc, from_bind, from_bind, mapped, ran]
  simp only
  rcases s.from_ q with ⟨r, q'⟩
  cases r with
  | ok a => rfl
  | error e =>
    simp only [Except.map]
    split
    · rfl
    · simp only [bind_assoc, pure_bind, Option.map_none]

/-- A module has the stylesheets of its blocks, and behind them at most its own. -/
theorem cases_of_moduleStylesheets {options : MarkupOptions} {blocks sheets : List Stylesheet}
    {compiled : Transformed} (h : moduleStylesheets document options blocks compiled = .ok sheets) :
    sheets = blocks ∨ ∃ own, sheets = blocks ++ [own] ∧
      own.path = document.basename ++ ".component.css" := by
  rw [moduleStylesheets] at h
  split at h
  · cases server : document.isServer with
    | error f =>
      rw [server] at h
      cases h
    | ok server =>
      simp only [server, bind, Except.bind] at h
      split at h
      · exact .inr ⟨_, (Except.ok.inj h).symm, rfl⟩
      · exact .inl (Except.ok.inj h).symm
  · split at h
    · cases h
    · exact .inl (Except.ok.inj h).symm

theorem prefix_moduleStylesheets {options : MarkupOptions} {blocks sheets : List Stylesheet}
    {compiled : Transformed} (h : moduleStylesheets document options blocks compiled = .ok sheets) :
    blocks <+: sheets := by
  rcases cases_of_moduleStylesheets h with rfl | ⟨own, rfl, -⟩
  · exact List.prefix_refl _
  · exact List.prefix_append ..

/-- Does compiling the document, from the progress `q`, go on from `q'` by asking for the compile of
this markup, and do the stylesheets of the module start with these? -/
def GoesOn (p : Project σ) (tree : FileTree) (document : Document) (hot : Bool) (q q' : Progress σ)
    (markup : Text) (sheets : List Stylesheet) : Prop :=
  ∃ options next, MarkupOptions.ofDocument document p.options p.production = .ok options ∧
    (compileComponent p tree document hot).from_ q =
      (stage ("Markup compilation failed for " ++ document.path) (askMarkup p markup options) >>=
        next).from_ q' ∧
    next none = pure none ∧
    ∀ compiled artifact, (next (some compiled)).Yields (some artifact) →
      sheets <+: artifact.stylesheets

/-- Behind the preprocessing, compiling goes on with the markup. -/
theorem exists_from_compileComponent {options : MarkupOptions} {preprocessed : Spliced}
    {q q' : Progress σ} (hot : Bool)
    (hoptions : MarkupOptions.ofDocument document p.options p.production = .ok options)
    (processed : (preprocess document.content document.path
      (blockSteps p (p.site tree document.path) options.css 0)).from_ q = (.ok preprocessed, q')) :
    ∃ next, (compileComponent p tree document hot).from_ q =
        (stage ("Markup compilation failed for " ++ document.path)
          (compileMarkup p preprocessed.code options) >>= next).from_ q' ∧
      next none = pure none ∧
      ∀ compiled artifact, (next (some compiled)).Yields (some artifact) →
        preprocessed.stylesheets <+: artifact.stylesheets := by
  rw [compileComponent, from_bind, hoptions, check, from_of]
  simp only
  rw [from_bind, from_stage processed]
  simp only
  refine ⟨_, rfl, rfl, ?_⟩
  rintro ⟨markup, map, compiled⟩ artifact h
  obtain ⟨_, -, h⟩ := exists_of_bind h
  obtain ⟨_, -, h⟩ := exists_of_bind h
  obtain ⟨sheets, checked, h⟩ := exists_of_bind h
  have start := prefix_moduleStylesheets (eq_of_check checked)
  split at h
  · obtain ⟨code, -, h⟩ := exists_of_bind h
    cases code with
    | none => cases eq_of_pure h
    | some code =>
      obtain rfl := Option.some.inj (eq_of_pure h)
      exact start
  · obtain rfl := Option.some.inj (eq_of_pure h)
    exact start

/-- Compiling a markup is asking the tool for what stripping leaves of it. -/
theorem compileMarkup_eq {options : MarkupOptions} {code stripped : Text} {map : Option Json}
    (h : (Markup.stripMapped code options.filename).mapError Failure.sourceMap = .ok (stripped, map)) :
    compileMarkup p code options =
      askMarkup p stripped options >>= fun compiled => pure (stripped, map, compiled) := by
  rw [compileMarkup, h, askMarkup, bind_assoc]
  rfl

theorem goesOn_of_handed {q q' : Progress σ} {markup : Text} {sheets : List Stylesheet}
    (h : (handed p tree document).from_ q = (.ok (markup, sheets), q')) (hot : Bool) :
    GoesOn p tree document hot q q' markup sheets := by
  obtain ⟨options, _, checked, h⟩ := exists_of_from_bind h
  obtain ⟨hoptions, rfl⟩ := Prod.mk.inj checked
  obtain ⟨preprocessed, q₁, processed, h⟩ := exists_of_from_bind h
  obtain ⟨⟨stripped, map⟩, _, checked, h⟩ := exists_of_from_bind h
  obtain ⟨hstripped, rfl⟩ := Prod.mk.inj checked
  obtain ⟨same, rfl⟩ := Prod.mk.inj h
  obtain ⟨rfl, rfl⟩ := Prod.mk.inj (Except.ok.inj same)
  -- The stage strips once more, to the same text, so it comes down to asking for that text.
  obtain ⟨next, run, stops, start⟩ := exists_from_compileComponent hot hoptions processed
  rw [compileMarkup_eq hstripped, stage_map, bind_assoc] at run
  simp only [pure_bind] at run
  exact ⟨options, _, hoptions, run, stops, fun compiled => start (stripped, map, compiled)⟩

/-! ### Two architectures -/

theorem stylesheets_of_spliceBlocks {source filename : Text} {blocks : List Markup.Block}
    {results : List Processed} {spliced : Spliced}
    (h : spliceBlocks source filename blocks results = .ok spliced) :
    spliced.stylesheets = results.flatMap (·.stylesheets) := by
  simp only [spliceBlocks, bind, Except.bind, pure, Except.pure] at h
  split at h
  · cases h
  · split at h
    · cases h
    · split at h
      · cases h
      · rw [← Except.ok.inj h]

/-- The results of a document's blocks, out of which it is put together. -/
theorem exists_results {source filename : Text} {spliced : Spliced}
    {steps : List Markup.Block → List (Step σ Processed)}
    (h : (preprocess source filename steps).Yields spliced) :
    ∃ results, List.Forall₂ Yields (steps (Markup.blocks source)) results ∧
      spliceBlocks source filename (Markup.blocks source) results = .ok spliced := by
  obtain ⟨results, ran, spliced_⟩ := exists_of_bind h
  exact ⟨results, forall₂_of_together ran, ok_of_mapError (eq_of_check spliced_)⟩

variable {d : Document} {arch arch' : Text}

/-- The steps of a build for an architecture. -/
theorem handed_builtFor : handed p tree (d.builtFor arch) = do
    let preprocessed ← preprocess d.content d.path
      (blockSteps p (p.site tree d.path) (!runsOnServer arch && p.options.css.isTrue) 0)
    let stripped ←
      check ((Markup.stripMapped preprocessed.code d.path).mapError Failure.sourceMap)
    return (stripped.1, preprocessed.stylesheets) := rfl

/-- What becomes of the blocks in a build for an architecture. -/
theorem exists_becomes {markup : Text} {sheets : List Stylesheet}
    (h : (handed p tree (d.builtFor arch)).Yields (markup, sheets)) :
    ∃ results, sheets = results.flatMap (·.stylesheets) ∧
      List.Forall₂ (Becomes p (p.site tree d.path) (!runsOnServer arch && p.options.css.isTrue))
        (Markup.blocks d.content) results := by
  rw [handed_builtFor] at h
  obtain ⟨preprocessed, processed, h⟩ := exists_of_bind h
  obtain ⟨_, -, h⟩ := exists_of_bind h
  obtain ⟨-, rfl⟩ := Prod.mk.inj (eq_of_pure h)
  obtain ⟨results, ran, done⟩ := exists_results processed
  exact ⟨results, stylesheets_of_spliceBlocks done, forall₂_becomes ran⟩

/-- Builds that treat each lowered style alike take the same steps. -/
theorem handed_congr (h : ∀ b ∈ Markup.blocks d.content, b.kind = .style → isScss b →
      (p.Emits arch b ↔ p.Emits arch' b)) :
    handed p tree (d.builtFor arch) = handed p tree (d.builtFor arch') := by
  have steps : blockSteps p (p.site tree d.path) (!runsOnServer arch && p.options.css.isTrue) 0
      (Markup.blocks d.content) = blockSteps p (p.site tree d.path)
        (!runsOnServer arch' && p.options.css.isTrue) 0 (Markup.blocks d.content) := by
    refine blockSteps_congr (fun b hb style_ scss => ?_) 0
    rw [Bool.eq_iff_iff, Project.emits_iff, Project.emits_iff]
    exact h b hb style_ scss
  rw [handed_builtFor, handed_builtFor, preprocess, preprocess, steps]

/-- **Where styles go in builds for two architectures.**
* A style that is lowered leaves its component exactly if it is global, the architecture is that of a
  server or the option for styles within modules is not set.
* So it is for every style of a document whose markup and stylesheets are handed on, and compiling
  goes on with these.
* If both architectures are those of servers or neither is, if the option is not set or if every
  lowered style is global, then what is handed on is the same.
* Otherwise a build for a server has more stylesheets, if a style that is not global is lowered. -/
theorem handed_by_arch (p : Project σ) (tree : FileTree) (d : Document) (arch arch' : Text) :
    (∀ b name q tool result, isScss b → (p.tools.style.run q.tools).1 = .ok tool →
      ((tool.transform b.content d.path b.attributes (p.site tree d.path).imports).run
        (p.tools.style.run q.tools).2).1 = .ok result →
      (∀ n ∈ result.dependencies, ∃ file, n = .str file ∧ (p.site tree d.path).refusal? file = none) →
      ∃ options r q', MarkupOptions.ofDocument (d.builtFor arch) p.options p.production = .ok options ∧
        (style p.tools.style (p.site tree d.path) options.css name b).from_ q = (.ok r, q') ∧
        (r.emitted ↔ b.attributes.has "global" ∨ runsOnServer arch ∨ ¬ p.options.css.isTrue)) ∧
    (∀ q q' markup sheets, (handed p tree (d.builtFor arch)).from_ q = (.ok (markup, sheets), q') →
      (∀ hot, GoesOn p tree (d.builtFor arch) hot q q' markup sheets) ∧
      ∃ results, sheets = results.flatMap (·.stylesheets) ∧
        List.Forall₂ (fun b r => b.kind = .style → isScss b →
          Lowered p (p.site tree d.path)
            (b.attributes.has "global" ∨ runsOnServer arch ∨ ¬ p.options.css.isTrue) b r)
          (Markup.blocks d.content) results) ∧
    (runsOnServer arch = runsOnServer arch' ∨ ¬ p.options.css.isTrue ∨
        (∀ b ∈ Markup.blocks d.content, b.kind = .style → isScss b → b.attributes.has "global") →
      handed p tree (d.builtFor arch) = handed p tree (d.builtFor arch')) ∧
    (p.tools.Steady → p.options.css.isTrue → ¬ runsOnServer arch → runsOnServer arch' →
      (∃ b ∈ Markup.blocks d.content, b.kind = .style ∧ isScss b ∧ ¬ b.attributes.has "global" ∧
        ∃ result, LowersTo p (p.site tree d.path) b result) →
      ∀ markup sheets markup' sheets', (handed p tree (d.builtFor arch)).Yields (markup, sheets) →
        (handed p tree (d.builtFor arch')).Yields (markup', sheets') →
        sheets.length < sheets'.length) := by
  refine ⟨?_, ?_, ?_, ?_⟩
  · intro b name q tool result scss given lowered watched
    obtain ⟨r, q', ran, emitted⟩ := exists_style
      (!runsOnServer arch && p.options.css.isTrue) name scss given lowered watched
    exact ⟨_, r, q', rfl, ran, emitted.trans Project.emits_iff⟩
  · intro q q' markup sheets h
    refine ⟨fun hot => goesOn_of_handed h hot, ?_⟩
    obtain ⟨results, total, becomes⟩ := exists_becomes ⟨q, congrArg Prod.fst h⟩
    refine ⟨results, total, becomes.imp fun b r becomes style_ scss => ?_⟩
    have lowered := becomes.lowered style_ scss
    rwa [Project.emits_iff] at lowered
  · intro alike
    refine handed_congr fun b hb style_ scss => ?_
    rcases alike with same | unset | allGlobal
    · rw [Project.Emits, Project.Emits, same]
    · simp [Project.Emits, unset]
    · simp [Project.Emits, allGlobal b hb style_ scss]
  · rintro steady css client server ⟨b, mem, style_, scss, notGlobal, result, lowers⟩
    intro markup sheets markup' sheets' h h'
    obtain ⟨results, rfl, becomes⟩ := exists_becomes h
    obtain ⟨results', rfl, becomes'⟩ := exists_becomes h'
    simp only [client, server, css, Bool.not_false, Bool.not_true, Bool.and_true]
      at becomes becomes'
    exact length_flatMap_lt steady becomes becomes' mem style_ scss notGlobal lowers

end Handed

/-! ## An instance -/

/-- A project whose style tool gives styles back as they are, with styles within modules. -/
def scssProject : Project Unit where
  options := { css := .bool true }
  production := false
  runtimePackage := none
  tools := {
    markup := throw (.setup (.noTool "markup"))
    script := throw (.setup (.noTool "script"))
    style := return { transform := fun content _ _ _ => return { code := .str content } }
    hot := throw (.setup (.noTool "hot"))
    lowering := throw (.setup (.noTool "lowering")) }
  root := ⟨true, [], false⟩
  cwd := ⟨true, [], false⟩
  hashing := { source := id, entry := id, options := fun _ => "0" }
  stamp := "now"

theorem steady_scssProject : scssProject.tools.Steady where
  markup _ _ := rfl
  script _ _ := rfl
  style _ _ := rfl
  hot _ _ := rfl
  lowering _ _ := rfl
  version tool h := by obtain ⟨_, h⟩ := h; cases h
  compile tool h := by obtain ⟨_, h⟩ := h; cases h
  scriptTransform tool h := by obtain ⟨_, h⟩ := h; cases h
  styleTransform tool h := by
    obtain ⟨_, h⟩ := h
    obtain rfl := Except.ok.inj h
    exact fun _ _ _ _ _ _ => rfl
  instrument tool h := by obtain ⟨_, h⟩ := h; cases h
  lower tool h := by obtain ⟨_, h⟩ := h; cases h

/-- A component with a style that is lowered and not global. -/
def scssDocument : Document :=
  { path := "A.svelte", content := "<style lang=\"scss\">a</style>", sourceHash := "0" }

/-- The style stays in the component in a build for browsers, and leaves it in every build for a
server. -/
theorem handed_scssDocument :
    ((handed scssProject ⟨[], []⟩ (scssDocument.builtFor "web.browser")).from_ { tools := () }).1 =
        .ok ("<style lang=\"scss\">a</style>", []) ∧
      ((handed scssProject ⟨[], []⟩ (scssDocument.builtFor "os.linux")).from_ { tools := () }).1 =
        .ok ("<style lang=\"scss\">" ++ Markup.placeholder ++ "</style>",
          [{ path := "A.svelte.css", data := .str "a", sourceMap := .null }]) ∧
      ∀ markup sheets,
        (handed scssProject ⟨[], []⟩ (scssDocument.builtFor "os.linux")).Yields (markup, sheets) →
          0 < sheets.length := by
  have browser : ((handed scssProject ⟨[], []⟩ (scssDocument.builtFor "web.browser")).from_
      { tools := () }).1 = .ok ("<style lang=\"scss\">a</style>", []) := by rfl
  refine ⟨browser, by rfl, fun markup sheets server => ?_⟩
  refine (handed_by_arch scssProject ⟨[], []⟩ scssDocument "web.browser" "os.linux").2.2.2
    steady_scssProject rfl (by decide) (by decide) ?_ _ _ _ _ ⟨_, browser⟩ server
  refine ⟨_, List.mem_cons_self .., rfl, rfl, by decide, ?_⟩
  exact ⟨_, _, ⟨(), rfl⟩, (), rfl⟩

end Step

end Componentry
