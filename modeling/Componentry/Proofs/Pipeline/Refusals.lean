import Componentry.Proofs.Pipeline.Emission
import Componentry.Proofs.Pipeline.Splicing

/-!
# Styles that the tool refuses

The style tool may fail on any style that it is asked to lower. Its failure is reported and the
block is left empty, while the other blocks are processed and the document is put together. A
failure that has something else for a place, such as an offset, cannot be reported. It fails the
document, and nothing is said about the block.
-/

namespace Componentry

open Markup

namespace Step

variable {σ α : Type}

/-! ## Reports of refusals -/

/-- What the style tool fails with when it is asked to lower the block, in a state of the tools. -/
def refusal? (p : Project σ) (site : Site) (b : Block) (tools : σ) : Option Failure :=
  if b.kind = .style ∧ isScss b then
    match p.tools.style.run tools with
    | (.error _, _) => none
    | (.ok tool, tools) =>
      match ((tool.transform b.content site.path b.attributes site.imports).run tools).1 with
      | .error f => some f
      | .ok _ => none
  else none

/-- The reports of a block: one if the style tool has failed on it and the failure can be reported.
-/
def reportsOf : Option Failure → List Report
  | some f => if f.isReportable then [Report.at_ f f.traced] else []
  | none => []

/-- What becomes of a block that the style tool has failed on. -/
def emptied (f : Failure) : Except Failure StyleOutcome :=
  match f.obstacle? with
  | some g => .error g
  | none => .ok { code := .str "" }

theorem emptied_of_isReportable {f : Failure} (h : f.isReportable) :
    (emptied f).map StyleOutcome.toProcessed = .ok { code := .str "" } := by
  rw [emptied, Option.isNone_iff_eq_none.mp h]
  rfl

theorem exists_emptied_eq_error {f : Failure} (h : ¬ f.isReportable) :
    ∃ g, (emptied f).map StyleOutcome.toProcessed = .error g := by
  obtain ⟨g, obstacle⟩ := Option.ne_none_iff_exists'.mp (mt Option.isNone_iff_eq_none.mpr h)
  exact ⟨g, by rw [emptied, obstacle]; rfl⟩

section Blocks

variable {p : Project σ} {site : Site} {inlineCss : Bool} {name : Text} {b : Block} {f : Failure}
  {tools : σ} {q : Progress σ}

theorem refusal?_eq_some_iff : refusal? p site b tools = some f ↔
    (b.kind = .style ∧ isScss b) ∧ ∃ tool, (p.tools.style.run tools).1 = .ok tool ∧
      ((tool.transform b.content site.path b.attributes site.imports).run
        (p.tools.style.run tools).2).1 = .error f := by
  rw [refusal?]
  split
  next lowers =>
    rcases p.tools.style.run tools with ⟨e | tool, tools'⟩
    · simp
    · dsimp only
      cases lowered :
          ((tool.transform b.content site.path b.attributes site.imports).run tools').1 with
      | error g => simp [lowers, lowered]
      | ok result => simp [lowered]
  next other => simp [other]

theorem from_outcome_job (action : Action σ α) (q : Progress σ) :
    (outcome (job (Step.tool action))).from_ q = (.ok (action.run q.tools).1,
      { q with tools := (action.run q.tools).2, round := q.round + 2 }) := rfl

/-- Behind a failure of the tool, it is reported if it can be. -/
theorem exists_afterLowering_error (site : Site) (inlineCss : Bool) (name : Text) (b : Block)
    (f : Failure) (q : Progress σ) :
    ∃ q', (afterLowering site inlineCss name b (.error f)).from_ q = (emptied f, q') ∧
      q'.register = { q.register with errors := q.register.errors ++ reportsOf (some f) } := by
  rw [afterLowering, from_bind, note, from_of]
  simp only
  rw [from_bind, report, from_bind, check, from_of, Report.ofFailure, emptied, reportsOf,
    Failure.isReportable]
  cases f.obstacle? with
  | some g =>
    refine ⟨_, rfl, ?_⟩
    simp
  | none => exact ⟨_, rfl, rfl⟩

/-- **A style that the tool refuses** is left empty, and the failure is reported. If that cannot be
done, the step fails, and there is no report. -/
theorem exists_style_of_refusal (refused : refusal? p site b q.tools = some f) :
    ∃ q', (style p.tools.style site inlineCss name b).from_ q = (emptied f, q') ∧
      q'.register = { q.register with errors := q.register.errors ++ reportsOf (some f) } := by
  obtain ⟨⟨-, scss⟩, tool, given, failed⟩ := refusal?_eq_some_iff.mp refused
  have asked : (Step.tool p.tools.style).from_ q =
      (.ok tool, { q with tools := (p.tools.style.run q.tools).2 }) := by
    rw [from_tool, given]
  rw [style_of_isScss scss, from_bind, asked]
  simp only
  rw [from_bind, from_outcome_job, failed]
  exact exists_afterLowering_error site inlineCss name b f _

theorem framing_errors :
    Framing fun p q : Progress σ => q.register.errors = p.register.errors where
  refl _ := rfl
  trans first second := second.trans first
  aside _ _ _ _ := rfl

/-- Behind an answer of the tool there is no report. -/
theorem errors_afterLowering_ok (site : Site) (inlineCss : Bool) (name : Text) (b : Block)
    (result : Transformed) (q : Progress σ) :
    ((afterLowering site inlineCss name b (.ok result)).from_ q).2.register.errors =
      q.register.errors := by
  have frame := @framing_errors σ
  refine (frame.bind (frame.watchAll (fun _ _ => rfl) site _) fun _ => ?_) _
  split
  · exact frame.emit _ _ _ _
  · exact frame.pure _

/-- A style that the tool is not asked for or does not refuse has no report. -/
theorem errors_style_of_not_refused (style_ : b.kind = .style)
    (accepted : refusal? p site b q.tools = none) :
    ((style p.tools.style site inlineCss name b).from_ q).2.register.errors =
      q.register.errors := by
  by_cases scss : isScss b
  · rw [style_of_isScss scss, from_bind, from_tool]
    rcases run : p.tools.style.run q.tools with ⟨e | tool, tools'⟩
    · rfl
    · simp only
      rw [from_bind, from_outcome_job]
      cases lowered :
          ((tool.transform b.content site.path b.attributes site.imports).run tools').1 with
      | error f =>
        have refused : refusal? p site b q.tools = some f := by
          refine refusal?_eq_some_iff.mpr ⟨⟨style_, scss⟩, tool, ?_, ?_⟩
          · rw [run]
          · rw [run]
            exact lowered
        rw [accepted] at refused
        cases refused
      | ok result => exact errors_afterLowering_ok site inlineCss name b result _
  · rw [style, if_neg scss]
    split
    · exact framing_errors.emit _ _ _ _ q
    · rfl

/-- What one step has to do with its block: it ends as said above if the style tool refuses the
block, and adds the reports of the block and no others. -/
structure Answers (p : Project σ) (site : Site) (b : Block) (step : Step σ Processed) : Prop where
  ends : ∀ q f, refusal? p site b q.tools = some f →
    (step.from_ q).1 = (emptied f).map StyleOutcome.toProcessed
  errors : ∀ q, (step.from_ q).2.register.errors =
    q.register.errors ++ reportsOf (refusal? p site b q.tools)

theorem answers_script (script_ : b.kind = .script) :
    Answers p site b (job (script p.tools.script site.path b)) := by
  have never (tools : σ) : refusal? p site b tools = none := by simp [refusal?, script_]
  refine ⟨fun q f refused => ?_, fun q => ?_⟩
  · rw [never] at refused
    cases refused
  · rw [never, reportsOf, List.append_nil]
    exact framing_errors.job (framing_errors.script _ _ b) q

theorem from_toProcessed (s : Step σ StyleOutcome) (q : Progress σ) :
    (do return (← s).toProcessed : Step σ Processed).from_ q =
      ((s.from_ q).1.map StyleOutcome.toProcessed, (s.from_ q).2) := by
  rw [from_bind]
  rcases s.from_ q with ⟨_ | r, q'⟩ <;> rfl

theorem answers_style (style_ : b.kind = .style) :
    Answers p site b (do return (← style p.tools.style site inlineCss name b).toProcessed) := by
  refine ⟨fun q f refused => ?_, fun q => ?_⟩
  · obtain ⟨q', ran, -⟩ := exists_style_of_refusal refused
    rw [from_toProcessed, ran]
  · rw [from_toProcessed]
    cases refused : refusal? p site b q.tools with
    | none =>
      rw [reportsOf, List.append_nil]
      exact errors_style_of_not_refused style_ refused
    | some f =>
      obtain ⟨q', ran, register⟩ := exists_style_of_refusal refused
      rw [ran, register]

theorem forall₂_answers (p : Project σ) (site : Site) (inlineCss : Bool) (taken : Nat)
    (blocks : List Block) :
    List.Forall₂ (Answers p site) blocks (blockSteps p site inlineCss taken blocks) := by
  induction blocks generalizing taken with
  | nil => exact .nil
  | cons b rest ih =>
    rw [blockSteps]
    cases kind : b.kind with
    | script => exact .cons (answers_script kind) (ih _)
    | style => exact .cons (answers_style kind) (ih _)

end Blocks

/-! ## Blocks that are processed together -/

/-- The progress from which each step starts when steps run one after the other. -/
def startsFrom (start : Nat) : List (Step σ α) → Progress σ → List (Progress σ)
  | [], _ => []
  | step :: rest, q =>
    { q with round := start } :: startsFrom start rest (step.from_ { q with round := start }).2

/-- What the style tool fails with, block by block, when the blocks of a document are processed. -/
def refusals (p : Project σ) (site : Site) (blocks : List Block) (starts : List (Progress σ)) :
    List (Option Failure) :=
  List.zipWith (fun b q => refusal? p site b q.tools) blocks starts

/-- Does a block end as it has to if the style tool refuses it? -/
def EndsAs (refused : Option Failure) (e : Except Failure Processed × Nat) : Prop :=
  ∀ f, refused = some f → e.1 = (emptied f).map StyleOutcome.toProcessed

variable {p : Project σ} {site : Site}

/-- **All blocks**: each that is refused ends as it does alone, and the reports are in order. -/
theorem eachFrom_of_answers {blocks : List Block} {steps : List (Step σ Processed)}
    (answers : List.Forall₂ (Answers p site) blocks steps) (start : Nat) (q : Progress σ) :
    let refused := refusals p site blocks (startsFrom start steps q)
    List.Forall₂ EndsAs refused (eachFrom start steps q).1 ∧
    (eachFrom start steps q).2.register.errors =
      q.register.errors ++ refused.flatMap reportsOf := by
  induction answers generalizing q with
  | nil => exact ⟨.nil, (List.append_nil _).symm⟩
  | @cons b step rest steps answer others ih =>
    obtain ⟨ends, errors⟩ := ih (step.from_ { q with round := start }).2
    have first := answer.errors { q with round := start }
    refine ⟨.cons (answer.ends { q with round := start }) ends, errors.trans ?_⟩
    rw [first, List.append_assoc]
    rfl

theorem gather_of_values {ends : List (Except Failure α × Nat)} {values : List α}
    (h : ends.map Prod.fst = values.map .ok) : ∃ last, gather ends = .ok (values, last) := by
  induction ends generalizing values with
  | nil =>
    obtain rfl := List.map_eq_nil_iff.mp h.symm
    exact ⟨0, rfl⟩
  | cons e rest ih =>
    obtain ⟨a, values, rfl, first, others⟩ := List.map_eq_cons_iff.mp h.symm
    obtain ⟨last, gathered⟩ := ih others.symm
    obtain ⟨r, n⟩ := e
    obtain rfl : Except.ok a = r := first
    exact ⟨max n last, by rw [gather, gathered]⟩

@[simp] theorem length_eachFrom (start : Nat) (steps : List (Step σ α)) (q : Progress σ) :
    (eachFrom start steps q).1.length = steps.length := by
  induction steps generalizing q with
  | nil => rfl
  | cons step rest ih => exact congrArg (· + 1) (ih _)

/-- What steps come to when they run together, from what they come to one after the other. -/
theorem exists_from_together (steps : List (Step σ α)) (q : Progress σ) :
    let run := eachFrom (q.round + 1) steps q
    ∃ round, (together steps).from_ q =
      (((gather run.1).map Prod.fst).mapError Prod.fst, { run.2 with round }) := by
  cases steps with
  | nil => exact ⟨q.round, rfl⟩
  | cons step rest =>
    simp only [together, from_of, List.isEmpty_cons, Bool.false_eq_true, if_false]
    cases gather (eachFrom (q.round + 1) (step :: rest) q).1 with
    | ok found => exact ⟨found.2 + 2, rfl⟩
    | error found => exact ⟨found.2 + 2, rfl⟩

/-- Processing a document is running the steps of its blocks, and then putting it together if none
of them has failed. -/
theorem exists_from_preprocess (source filename : Text)
    (steps : List Block → List (Step σ Processed)) (q : Progress σ) :
    let run := eachFrom (q.round + 1) (steps (blocks source)) q
    ∃ round, (preprocess source filename steps).from_ q =
      (match gather run.1 with
        | .ok (results, _) =>
          (spliceBlocks source filename (blocks source) results).mapError Failure.sourceMap
        | .error (f, _) => .error f,
        { run.2 with round }) := by
  intro run
  obtain ⟨round, ran⟩ := exists_from_together (steps (blocks source)) q
  refine ⟨round, ?_⟩
  rw [preprocess, from_bind, ran]
  cases gather run.1 <;> rfl

/-- Failures that can be reported have one report each. -/
theorem flatMap_reportsOf {refused : List (Option Failure)}
    (h : ∀ f, some f ∈ refused → f.isReportable) :
    refused.flatMap reportsOf = (refused.filterMap id).map fun f => Report.at_ f f.traced := by
  induction refused with
  | nil => rfl
  | cons r rest ih =>
    have others := ih fun f mem => h f (List.mem_cons_of_mem _ mem)
    cases r with
    | none => exact others
    | some f =>
      rw [List.flatMap_cons, others, reportsOf, if_pos (h f (List.mem_cons_self ..))]
      rfl

/-- A block that is left empty can be put in its place. -/
theorem proper_empty : ({ code := .str "" } : Processed).Proper := ⟨rfl, nofun, nofun⟩

/-- If every failure can be reported, every block has a result, which is empty for those that are
refused. -/
theorem exists_results_of_endsAs {refused : List (Option Failure)}
    {ends : List (Except Failure Processed × Nat)} (h : List.Forall₂ EndsAs refused ends)
    (reportable : ∀ f, some f ∈ refused → f.isReportable)
    (others : ∀ e, (none, e) ∈ refused.zip ends → ∃ r, e.1 = .ok r ∧ r.Proper) :
    ∃ results : List Processed, ends.map Prod.fst = results.map .ok ∧ (∀ r ∈ results, r.Proper) ∧
      ∀ f r, (some f, r) ∈ refused.zip results → r = { code := .str "" } := by
  induction h with
  | nil => exact ⟨[], rfl, by simp, by simp⟩
  | @cons refusal e refused ends first rest ih =>
    obtain ⟨results, values, proper, empty⟩ := ih
      (fun f mem => reportable f (List.mem_cons_of_mem _ mem))
      (fun e' mem => others e' (List.mem_cons_of_mem _ mem))
    obtain ⟨r, value, holds, left⟩ : ∃ r : Processed, e.1 = .ok r ∧ r.Proper ∧
        (refusal ≠ none → r = { code := .str "" }) := by
      cases refusal with
      | none =>
        obtain ⟨r, value, holds⟩ := others e (List.mem_cons_self ..)
        exact ⟨r, value, holds, fun some_ => absurd rfl some_⟩
      | some f =>
        have degraded := emptied_of_isReportable (reportable f (List.mem_cons_self ..))
        exact ⟨_, (first f rfl).trans degraded, proper_empty, fun _ => rfl⟩
    refine ⟨r :: results, ?_, List.forall_mem_cons.mpr ⟨holds, proper⟩, ?_⟩
    · rw [List.map_cons, List.map_cons, value, values]
    · intro f r' mem
      rcases List.mem_cons.mp mem with same | mem
      · obtain ⟨rfl, rfl⟩ := Prod.mk.inj same
        exact left (Option.some_ne_none f)
      · exact empty f r' mem

/-- If one cannot be reported, the blocks come to a failure. -/
theorem exists_gather_eq_error {refused : List (Option Failure)}
    {ends : List (Except Failure Processed × Nat)} (h : List.Forall₂ EndsAs refused ends)
    {f : Failure} (mem : some f ∈ refused) (unreportable : ¬ f.isReportable) :
    ∃ earliest, gather ends = .error earliest := by
  obtain ⟨length, ends_⟩ := List.forall₂_iff_zip.mp h
  rw [← List.map_fst_zip (Nat.le_of_eq length)] at mem
  obtain ⟨⟨_, e⟩, paired, rfl⟩ := List.mem_map.mp mem
  obtain ⟨g, empty⟩ := exists_emptied_eq_error unreportable
  have failed : e.1 = .error g := (ends_ paired f rfl).trans empty
  cases gathered : gather ends with
  | error earliest => exact ⟨earliest, rfl⟩
  | ok found =>
    have here : e.1 ∈ found.1.map Except.ok :=
      values_of_gather gathered ▸ List.mem_map_of_mem (List.of_mem_zip paired).2
    obtain ⟨r, -, same⟩ := List.mem_map.mp here
    cases same.trans failed

/-! ## An instance of a style tool -/

/-- A style tool that puts the file that a style names in the place of the style. -/
def namingTool : StyleTool Unit where
  transform content _ _ imports := do
    return { code := .str (← MonadExcept.ofExcept (imports.read content)) }

/-- A project with this tool. -/
def namingProject : Project Unit where
  options := scssProject.options
  production := false
  runtimePackage := none
  tools := { scssProject.tools with style := return namingTool }
  root := scssProject.root
  cwd := scssProject.cwd
  hashing := scssProject.hashing
  stamp := "now"

end Step

end Componentry
