import Componentry.Proofs.Pipeline.Interleaving

/-!
# Reports in every run

The style tool may fail on several blocks of a document, and their jobs may end in any order. In
every run each failure that can be reported is reported once, when its block goes on behind the
job, and nothing else is reported. So the reports of a run are those of the blocks that the tool has
refused, in the order in which they went on. The blocks are left empty, and the document is put
together if the others have results.
-/

namespace Componentry

open Markup

namespace Step

variable {σ : Type}

/-! ## What the tool refuses in a run -/

/-- What the style tool fails with when the task goes on. -/
def Task.refusal? (site : Site) (b : Block) : Task σ → Progress σ → Option Failure
  | .lowering styles _, q =>
    match ((styles.transform b.content site.path b.attributes site.imports).run q.tools).1 with
    | .error f => some f
    | .ok _ => none
  | _, _ => none

namespace Crew

/-- The runs of the blocks from `q` on, each with the blocks that the style tool has refused and its
failures, in the order of its calls. -/
inductive Runs (p : Project σ) (site : Site) (inlineCss : Bool) (blocks : List Block)
    (q : Progress σ) : List (Nat × Failure) → Crew σ → Prop where
  | nil : Runs p site inlineCss blocks q [] { progress := q }
  | start {refused : List (Nat × Failure)} {c : Crew σ} {b : Block} (round : Nat) :
      Runs p site inlineCss blocks q refused c → blocks[c.tasks.length]? = some b →
      Runs p site inlineCss blocks q refused (c.start p site inlineCss b round)
  | goOn {refused : List (Nat × Failure)} {c : Crew σ} {i : Nat} {b : Block} {t : Task σ}
      (round : Nat) : Runs p site inlineCss blocks q refused c → blocks[i]? = some b →
      c.tasks[i]? = some t →
      Runs p site inlineCss blocks q
        (refused ++ ((t.refusal? site b c.progress).map (Prod.mk i)).toList)
        (c.goOn p site inlineCss i b t round)

/-- Has every block come to its end, with or without a result? -/
def AllDone (c : Crew σ) (blocks : List Block) : Prop :=
  c.tasks.length = blocks.length ∧ ∀ t ∈ c.tasks, ∃ r, t = .done r

variable {p : Project σ} {site : Site} {inlineCss : Bool} {blocks : List Block} {q : Progress σ}
  {refused told untold : List (Nat × Failure)} {c c' : Crew σ}

/-- Every run is one of these. -/
theorem exists_runs (h : Reaches p site inlineCss blocks { progress := q } c) :
    ∃ refused, Runs p site inlineCss blocks q refused c := by
  induction h with
  | refl => exact ⟨[], .nil⟩
  | tail _ move ih =>
    obtain ⟨refused, run⟩ := ih
    cases move with
    | start round next => exact ⟨refused, .start round run next⟩
    | goOn round place found => exact ⟨_, .goOn round run place found⟩

/-! ## What a move does -/

/-- What holds throughout a run: of the blocks that were refused, those that went on are left empty
and were reported, in this order, and the others are about to go on. -/
structure Tells (q : Progress σ) (refused told untold : List (Nat × Failure)) (c : Crew σ) :
    Prop where
  perm : (told ++ untold).Perm refused
  nodup : (refused.map Prod.fst).Nodup
  left : ∀ x ∈ told, c.tasks[x.1]? = some (.done ((emptied x.2).map StyleOutcome.toProcessed))
  waiting : ∀ x ∈ untold, ∃ name, c.tasks[x.1]? = some (.lowered name (.error x.2))
  failed : ∀ i name f, c.tasks[i]? = some (.lowered name (.error f)) → (i, f) ∈ untold
  errors : c.progress.register.errors =
    q.register.errors ++ told.flatMap fun x => reportsOf (some x.2)

namespace Tells

/-- A refused block is one whose job has ended. -/
theorem exists_task (h : Tells q refused told untold c) {x : Nat × Failure} (mem : x ∈ refused) :
    ∃ t, c.tasks[x.1]? = some t ∧ ((∃ r, t = .done r) ∨ ∃ name, t = .lowered name (.error x.2)) := by
  rcases List.mem_append.mp (h.perm.mem_iff.mpr mem) with mem | mem
  · exact ⟨_, h.left x mem, .inl ⟨_, rfl⟩⟩
  · obtain ⟨name, found⟩ := h.waiting x mem
    exact ⟨_, found, .inr ⟨name, rfl⟩⟩

/-- Nothing changes for refused blocks while another block goes on, without a report. -/
theorem elsewhere (h : Tells q refused told untold c) {i : Nat}
    (fresh : ∀ x ∈ refused, x.1 ≠ i) (others : ∀ j, j ≠ i → c'.tasks[j]? = c.tasks[j]?)
    (own : ∀ name f, c'.tasks[i]? ≠ some (.lowered name (.error f)))
    (errors : c'.progress.register.errors = c.progress.register.errors) :
    Tells q refused told untold c' where
  perm := h.perm
  nodup := h.nodup
  left x mem := by
    rw [others x.1 (fresh x (h.perm.mem_iff.mp (List.mem_append_left _ mem)))]
    exact h.left x mem
  waiting x mem := by
    rw [others x.1 (fresh x (h.perm.mem_iff.mp (List.mem_append_right _ mem)))]
    exact h.waiting x mem
  failed j name f found := by
    by_cases same : j = i
    · exact absurd (same ▸ found) (own name f)
    · exact h.failed j name f (others j same ▸ found)
  errors := errors.trans h.errors

/-- The style tool refuses a block. -/
theorem refuse (h : Tells q refused told untold c) {i : Nat} {name : Text} {f : Failure}
    (fresh : ∀ x ∈ refused, x.1 ≠ i) (others : ∀ j, j ≠ i → c'.tasks[j]? = c.tasks[j]?)
    (own : c'.tasks[i]? = some (.lowered name (.error f)))
    (errors : c'.progress.register.errors = c.progress.register.errors) :
    Tells q (refused ++ [(i, f)]) told (untold ++ [(i, f)]) c' where
  perm := by
    rw [← List.append_assoc]
    exact h.perm.append_right _
  nodup := by
    rw [List.map_append, List.nodup_append]
    refine ⟨h.nodup, List.nodup_singleton _, fun j hj k hk => ?_⟩
    obtain ⟨x, mem, rfl⟩ := List.mem_map.mp hj
    rw [List.mem_singleton.mp hk]
    exact fresh x mem
  left x mem := by
    rw [others x.1 (fresh x (h.perm.mem_iff.mp (List.mem_append_left _ mem)))]
    exact h.left x mem
  waiting x mem := by
    rcases List.mem_append.mp mem with mem | mem
    · rw [others x.1 (fresh x (h.perm.mem_iff.mp (List.mem_append_right _ mem)))]
      exact h.waiting x mem
    · rw [List.mem_singleton.mp mem]
      exact ⟨name, own⟩
  failed j name' g found := by
    by_cases same : j = i
    · subst same
      rw [own] at found
      cases found
      exact List.mem_append_right _ (List.mem_singleton_self _)
    · exact List.mem_append_left _ (h.failed j name' g (others j same ▸ found))
  errors := errors.trans h.errors

/-- A refused block goes on: it is left empty, and its failure is reported. -/
theorem tell (h : Tells q refused told untold c) {i : Nat} {name : Text} {f : Failure}
    (found : c.tasks[i]? = some (.lowered name (.error f)))
    (others : ∀ j, j ≠ i → c'.tasks[j]? = c.tasks[j]?)
    (own : c'.tasks[i]? = some (.done ((emptied f).map StyleOutcome.toProcessed)))
    (errors : c'.progress.register.errors =
      c.progress.register.errors ++ reportsOf (some f)) :
    Tells q refused (told ++ [(i, f)]) (untold.erase (i, f)) c' := by
  have mem := h.failed i name f found
  have perm : (told ++ [(i, f)] ++ untold.erase (i, f)).Perm refused := by
    rw [List.append_assoc, List.singleton_append]
    exact ((List.perm_cons_erase mem).symm.append_left told).trans h.perm
  -- the blocks of the two lists are different ones, so no other has the place `i`
  have places : ((told ++ [(i, f)] ++ untold.erase (i, f)).map Prod.fst).Nodup :=
    (perm.map Prod.fst).nodup_iff.mpr h.nodup
  rw [List.map_append, List.map_append, List.nodup_append, List.nodup_append] at places
  obtain ⟨⟨-, -, before⟩, -, behind⟩ := places
  refine ⟨perm, h.nodup, fun x hx => ?_, fun x hx => ?_, fun j name' g found' => ?_, ?_⟩
  · rcases List.mem_append.mp hx with hx | hx
    · rw [others x.1 (before x.1 (List.mem_map_of_mem hx) i (by simp))]
      exact h.left x hx
    · rw [List.mem_singleton.mp hx]
      exact own
  · have apart : i ≠ x.1 := behind i (by simp) x.1 (List.mem_map_of_mem hx)
    rw [others x.1 apart.symm]
    exact h.waiting x (List.mem_of_mem_erase hx)
  · by_cases same : j = i
    · subst same
      rw [own] at found'
      cases found'
    · rw [others j same] at found'
      have other : (j, g) ≠ (i, f) := fun pair => same (Prod.mk.inj pair).1
      exact (List.mem_erase_of_ne other).mpr (h.failed j name' g found')
  · rw [errors, h.errors, List.append_assoc, List.flatMap_append, List.flatMap_singleton]

end Tells

theorem errors_startBlock (p : Project σ) (site : Site) (inlineCss : Bool) (taken : Nat) (b : Block)
    (q : Progress σ) :
    (startBlock p site inlineCss taken b q).2.register.errors = q.register.errors := by
  rw [startBlock]
  cases b.kind with
  | script => rfl
  | style =>
    dsimp only
    split
    · rw [from_tool]
      rcases p.tools.style.run q.tools with ⟨e | styles, tools⟩ <;> rfl
    · split
      · exact framing_errors.emit _ (.str b.content) none [] q
      · rfl

/-- No block is refused before its job. -/
theorem startBlock_ne_lowered (p : Project σ) (site : Site) (inlineCss : Bool) (taken : Nat)
    (b : Block) (q : Progress σ) (name : Text) (answer : Except Failure Transformed) :
    (startBlock p site inlineCss taken b q).1.1 ≠ .lowered name answer := by
  rw [startBlock]
  cases b.kind with
  | script => simp
  | style =>
    dsimp only
    split
    · rcases (Step.tool p.tools.style).from_ q with ⟨e | styles, q'⟩ <;> simp
    · split <;> simp

theorem Tells.start (h : Tells q refused told untold c) (b : Block) (round : Nat) :
    Tells q refused told untold (c.start p site inlineCss b round) := by
  refine h.elsewhere (i := c.tasks.length) (fun x mem same => ?_) (fun j other => ?_) ?_
    (errors_startBlock ..)
  · obtain ⟨t, found, -⟩ := h.exists_task mem
    rw [same, List.getElem?_eq_none_iff.mpr (Nat.le_refl _)] at found
    cases found
  · simp only [Crew.start, List.getElem?_append, List.getElem?_singleton]
    split
    · rfl
    · rw [if_neg (by omega), List.getElem?_eq_none_iff.mpr (by omega)]
  · intro name f found
    rw [Crew.start, List.getElem?_concat_length] at found
    exact startBlock_ne_lowered p site inlineCss c.taken b _ name _ (Option.some.inj found)

theorem Tells.goOn (h : Tells q refused told untold c) {i : Nat} {b : Block} {t : Task σ}
    (found : c.tasks[i]? = some t) (round : Nat) :
    ∃ told untold, Tells q
      (refused ++ ((t.refusal? site b c.progress).map (Prod.mk i)).toList) told untold
      (c.goOn p site inlineCss i b t round) := by
  let next := t.next p site inlineCss b { c.progress with round }
  have others (j : Nat) (other : j ≠ i) :
      (c.goOn p site inlineCss i b t round).tasks[j]? = c.tasks[j]? :=
    List.getElem?_set_ne other.symm
  have own : (c.goOn p site inlineCss i b t round).tasks[i]? = some next.1 := by
    obtain ⟨bound, -⟩ := List.getElem?_eq_some_iff.mp found
    exact List.getElem?_set_self bound
  -- a block whose job has not ended is not among those that were refused
  have fresh (unended : ∀ r, t ≠ .done r) (unrefused : ∀ name f, t ≠ .lowered name (.error f)) :
      ∀ x ∈ refused, x.1 ≠ i := by
    rintro x mem rfl
    obtain ⟨t', found', ended | ⟨name, ended⟩⟩ := h.exists_task mem
    · obtain ⟨r, rfl⟩ := ended
      exact unended r (Option.some.inj (found.symm.trans found'))
    · subst ended
      exact unrefused name x.2 (Option.some.inj (found.symm.trans found'))
  cases t with
  | scripting =>
    simp only [Task.refusal?, Option.map_none, Option.toList_none, List.append_nil]
    refine ⟨told, untold, h.elsewhere (fresh (by simp) (by simp)) others (fun name f same => ?_)
      (framing_errors.script p.tools.script site.path b _)⟩
    rw [own] at same
    cases same
  | lowering styles name =>
    cases answer : ((styles.transform b.content site.path b.attributes site.imports).run
        c.progress.tools).1 with
    | error f =>
      have last : next.1 = .lowered name (.error f) := by rw [← answer]; rfl
      simp only [Task.refusal?, answer, Option.map_some, Option.toList_some]
      exact ⟨told, _, h.refuse (fresh (by simp) (by simp)) others (own.trans (congrArg some last)) rfl⟩
    | ok result =>
      have last : next.1 = .lowered name (.ok result) := by rw [← answer]; rfl
      simp only [Task.refusal?, answer, Option.map_none, Option.toList_none, List.append_nil]
      refine ⟨told, untold, h.elsewhere (fresh (by simp) (by simp)) others (fun name' f same => ?_) rfl⟩
      rw [own, last] at same
      cases same
  | scripted answer =>
    simp only [Task.refusal?, Option.map_none, Option.toList_none, List.append_nil]
    refine ⟨told, untold, h.elsewhere (fresh (by simp) (by simp)) others (fun name f same => ?_) rfl⟩
    rw [own] at same
    cases same
  | lowered name answer =>
    simp only [Task.refusal?, Option.map_none, Option.toList_none, List.append_nil]
    cases answer with
    | error f =>
      obtain ⟨q', ran, register⟩ :=
        exists_afterLowering_error site inlineCss name b f { c.progress with round }
      have last : next = (.done ((emptied f).map StyleOutcome.toProcessed), q') := by
        show (Task.done (((afterLowering site inlineCss name b (.error f)).from_ _).1.map _),
          ((afterLowering site inlineCss name b (.error f)).from_ _).2) = _
        rw [ran]
      refine ⟨_, _, h.tell found others (own.trans (congrArg (some ·.1) last)) ?_⟩
      show next.2.register.errors = _
      rw [last, register]
    | ok result =>
      refine ⟨told, untold, h.elsewhere (fresh (by simp) (by simp)) others (fun name' f same => ?_)
        (errors_afterLowering_ok site inlineCss name b result _)⟩
      rw [own] at same
      cases same
  | done r =>
    simp only [Task.refusal?, Option.map_none, Option.toList_none, List.append_nil]
    have all (j : Nat) : (c.goOn p site inlineCss i b (.done r) round).tasks[j]? = c.tasks[j]? := by
      by_cases other : j = i
      · rw [other, own, found]
        rfl
      · exact others j other
    exact ⟨told, untold, h.perm, h.nodup, fun x mem => (all x.1).trans (h.left x mem),
      fun x mem => (all x.1).symm ▸ h.waiting x mem, fun j name f same =>
        h.failed j name f ((all j).symm.trans same), h.errors⟩

/-- **Every run tells** what the tool has refused. -/
theorem Runs.exists_tells (run : Runs p site inlineCss blocks q refused c) :
    ∃ told untold, Tells q refused told untold c := by
  induction run with
  | nil =>
    exact ⟨[], [], .nil, .nil, by simp, by simp, by simp, (List.append_nil _).symm⟩
  | start round _ next ih =>
    obtain ⟨told, untold, tells⟩ := ih
    exact ⟨told, untold, tells.start _ round⟩
  | goOn round _ place found ih =>
    obtain ⟨told, untold, tells⟩ := ih
    exact tells.goOn found round

/-! ## Runs that have ended -/

/-- What a run that has ended leaves behind, the tool having refused these blocks. -/
structure Degrades (source filename : Text) (q : Progress σ) (refused : List (Nat × Failure))
    (c : Crew σ) : Prop where
  /-- No block is refused twice. -/
  once : (refused.map Prod.fst).Nodup
  /-- Each is left empty, or fails if its failure cannot be reported. -/
  left : ∀ x ∈ refused, c.tasks[x.1]? = some (.done ((emptied x.2).map StyleOutcome.toProcessed))
  /-- Each failure that can be reported has one report, and there are no other reports. -/
  reports : ∃ told : List (Nat × Failure), told.Perm refused ∧ c.progress.register.errors =
    q.register.errors ++ told.flatMap fun x => reportsOf (some x.2)
  /-- If all can be and the other blocks have results, the document is put together. -/
  given : (∀ x ∈ refused, x.2.isReportable) →
    (∀ i r, (∀ f, (i, f) ∉ refused) → c.tasks[i]? = some (.done r) → ∃ r', r = .ok r' ∧ r'.Proper) →
    ∃ results spliced, c.Ended (Markup.blocks source) results ∧
      spliceBlocks source filename (Markup.blocks source) results = .ok spliced ∧
      spliced.code = fill source (results.map Processed.text) ∧
      spliced.stylesheets = results.flatMap Processed.stylesheets
  /-- If one cannot be, there is nothing to put together. -/
  withheld : (∃ x ∈ refused, ¬ x.2.isReportable) →
    ∀ results, ¬ c.Ended (Markup.blocks source) results

theorem exists_results_of_tasks {tasks : List (Task σ)}
    (h : ∀ t ∈ tasks, ∃ r : Processed, t = .done (.ok r) ∧ r.Proper) :
    ∃ results : List Processed, (tasks = results.map fun r => .done (.ok r)) ∧
      ∀ r ∈ results, r.Proper := by
  induction tasks with
  | nil => exact ⟨[], rfl, by simp⟩
  | cons t rest ih =>
    obtain ⟨⟨r, rfl, proper⟩, others⟩ := List.forall_mem_cons.mp h
    obtain ⟨results, rfl, all⟩ := ih others
    exact ⟨r :: results, rfl, List.forall_mem_cons.mpr ⟨proper, all⟩⟩

/-- **Every run degrades**, in whatever order its jobs end. -/
theorem Runs.degrades {source : Text} (filename : Text)
    (run : Runs p site inlineCss (Markup.blocks source) q refused c)
    (ended : c.AllDone (Markup.blocks source)) : c.Degrades source filename q refused := by
  obtain ⟨told, untold, tells⟩ := run.exists_tells
  obtain ⟨length, done⟩ := ended
  -- nothing is left to tell
  obtain rfl : untold = [] := by
    rw [List.eq_nil_iff_forall_not_mem]
    intro x mem
    obtain ⟨name, found⟩ := tells.waiting x mem
    obtain ⟨r, same⟩ := done _ (List.mem_of_getElem? found)
    cases same
  have perm := tells.perm
  rw [List.append_nil] at perm
  have empty : ∀ x ∈ refused, c.tasks[x.1]? =
      some (.done ((emptied x.2).map StyleOutcome.toProcessed)) :=
    fun x mem => tells.left x (perm.mem_iff.mpr mem)
  refine ⟨tells.nodup, empty, ⟨told, perm, tells.errors⟩, fun reportable others => ?_, ?_⟩
  · obtain ⟨results, tasks, proper⟩ : ∃ results : List Processed,
        (c.tasks = results.map fun r => .done (.ok r)) ∧ ∀ r ∈ results, r.Proper := by
      refine exists_results_of_tasks fun t mem => ?_
      obtain ⟨i, found⟩ := List.mem_iff_getElem?.mp mem
      obtain ⟨r, rfl⟩ := done t mem
      by_cases refused_ : ∃ f, (i, f) ∈ refused
      · obtain ⟨f, mem⟩ := refused_
        have same := (empty (i, f) mem).symm.trans found
        rw [emptied_of_isReportable (reportable (i, f) mem)] at same
        exact ⟨_, (Option.some.inj same).symm, proper_empty⟩
      · obtain ⟨r', rfl, proper⟩ := others i r (not_exists.mp refused_) found
        exact ⟨r', rfl, proper⟩
    have count : results.length = (Markup.blocks source).length := by
      rw [← length, tasks, List.length_map]
    obtain ⟨s, spliced, -⟩ := exists_spliceBlocks filename count proper
    exact ⟨results, _, ⟨count, tasks⟩, spliced, rfl, rfl⟩
  · rintro ⟨x, mem, unreportable⟩ results ⟨-, tasks⟩
    obtain ⟨g, failed⟩ := exists_emptied_eq_error unreportable
    have found := List.mem_of_getElem? (empty x mem)
    rw [failed, tasks] at found
    obtain ⟨r, -, same⟩ := List.mem_map.mp found
    cases same

end Crew

/-! ## Refused styles -/

/-- **Refused styles are left empty.** For every document and every way in which the style tool
fails on its styles:
* A style that the tool refuses stays in the component, without code, and the register gets one
  report of the failure and nothing else. If the failure cannot be reported, the step fails instead,
  without a report.
* So it is for every block when they are processed together, and there are no other reports.
* If all failures can be reported and the blocks that are not refused have results that can be put
  in their places, the document is given, with nothing in the places of those that are. There is
  exactly one report for each of them, in order.
* If one cannot be reported, the document is not given.
* The order in which the jobs of the blocks end does not matter for any of this but the order of the
  reports. -/
theorem preprocess_refusals (p : Project σ) (site : Site) (inlineCss : Bool)
    (source filename : Text) (q : Progress σ) :
    let steps := blockSteps p site inlineCss 0 (blocks source)
    let run := eachFrom (q.round + 1) steps q
    let refused := refusals p site (blocks source) (startsFrom (q.round + 1) steps q)
    let done := (preprocess source filename (blockSteps p site inlineCss 0)).from_ q
    (∀ b name s f, refusal? p site b s.tools = some f →
      ∃ s', (style p.tools.style site inlineCss name b).from_ s = (emptied f, s') ∧
        s'.register = { s.register with errors := s.register.errors ++ reportsOf (some f) }) ∧
    refused.length = (blocks source).length ∧ run.1.length = (blocks source).length ∧
    (∀ f e, (some f, e) ∈ refused.zip run.1 → e.1 = (emptied f).map StyleOutcome.toProcessed) ∧
    done.2.register.errors = q.register.errors ++ refused.flatMap reportsOf ∧
    ((∀ f, some f ∈ refused → f.isReportable) →
      (∀ e, (none, e) ∈ refused.zip run.1 → ∃ r, e.1 = .ok r ∧ r.Proper) →
      ∃ (results : List Processed) (spliced : Spliced), done.1 = .ok spliced ∧
        run.1.map Prod.fst = results.map .ok ∧
        (∀ f r, (some f, r) ∈ refused.zip results → r = { code := .str "" }) ∧
        spliced.code = fill source (results.map Processed.text) ∧
        spliced.stylesheets = results.flatMap Processed.stylesheets ∧
        done.2.register.errors = q.register.errors ++
          (refused.filterMap id).map fun f => Report.at_ f f.traced) ∧
    ((∃ f, some f ∈ refused ∧ ¬ f.isReportable) → ∃ e, done.1 = .error e) ∧
    (∃ refused c, Crew.Runs p site inlineCss (blocks source) q refused c ∧
      (c.tasks = run.1.map fun e => .done e.1) ∧ c.progress.register = done.2.register) ∧
    ∀ refused c, Crew.Runs p site inlineCss (blocks source) q refused c →
      c.AllDone (blocks source) → c.Degrades source filename q refused := by
  intro steps run refused done
  have answers := forall₂_answers p site inlineCss 0 (blocks source)
  obtain ⟨ends, errors⟩ : List.Forall₂ EndsAs refused run.1 ∧
      run.2.register.errors = q.register.errors ++ refused.flatMap reportsOf :=
    eachFrom_of_answers answers (q.round + 1) q
  obtain ⟨round, ran⟩ := exists_from_preprocess source filename (blockSteps p site inlineCss 0) q
  have length : run.1.length = (blocks source).length :=
    (length_eachFrom ..).trans answers.length_eq.symm
  have reports : done.2.register.errors = q.register.errors ++ refused.flatMap reportsOf := by
    rw [← errors]
    exact congrArg (·.2.register.errors) ran
  refine ⟨fun b name s f => exists_style_of_refusal, ends.length_eq.trans length, length,
    fun f e paired => (List.forall₂_iff_zip.mp ends).2 paired f rfl, reports, ?_, ?_, ?_,
    fun refused c ran ended => ran.degrades filename ended⟩
  · intro reportable others
    obtain ⟨results, values, proper, empty⟩ := exists_results_of_endsAs ends reportable others
    obtain ⟨last, gathered⟩ := gather_of_values values
    have count : results.length = (blocks source).length := by
      rw [← length, ← List.length_map Prod.fst, values, List.length_map]
    have given : done.1 =
        (spliceBlocks source filename (blocks source) results).mapError Failure.sourceMap := by
      rw [gathered] at ran
      exact congrArg Prod.fst ran
    obtain ⟨s, spliced, -⟩ := exists_spliceBlocks filename count proper
    rw [spliced] at given
    rw [flatMap_reportsOf reportable] at reports
    exact ⟨results, _, given, values, empty, rfl, rfl, reports⟩
  · rintro ⟨f, mem, unreportable⟩
    obtain ⟨earliest, gathered⟩ := exists_gather_eq_error ends mem unreportable
    rw [gathered] at ran
    exact ⟨earliest.1, congrArg Prod.fst ran⟩
  · obtain ⟨taken, reached⟩ := Crew.reaches_eachFrom p site inlineCss (q.round + 1)
      { progress := q } (List.drop_zero (l := blocks source)).symm
    obtain ⟨refused, runs⟩ := Crew.exists_runs reached
    exact ⟨refused, _, runs, rfl, (congrArg (·.2.register) ran).symm⟩

/-! ## An instance -/

/-- A file that is no text from its second byte on. -/
def tornFile : FileTree := ⟨[], [([Text.ofString "torn"], ⟨#[0x61, 0xff]⟩)]⟩

/-- A style that names a file that is not there, and one that is not lowered. -/
def missingImport : Text := "<style lang=\"scss\">/gone</style><style>b</style>"

/-- A style that names the file that is no text, and one that is not lowered. -/
def tornImport : Text := "<style lang=\"scss\">/torn</style><style>b</style>"

/-- What becomes of a document in this project, with this file. -/
def namedFiles (source : Text) : Except Failure Spliced × Progress Unit :=
  (preprocess source "A" (blockSteps namingProject (namingProject.site tornFile "A") true 0)).from_
    { tools := () }

/-- Two styles that name files that are not there. -/
def twoMissing : Text := "<style lang=\"scss\">/gone</style><style lang=\"scss\">/lost</style>"

def goneStyle : Block := ⟨.style, "/gone", [("lang", some "scss")], 19, 24⟩

def lostStyle : Block := ⟨.style, "/lost", [("lang", some "scss")], 51, 56⟩

/-- What is reported of a file that is not there. -/
def missingReport (name : Text) : Report :=
  ⟨"[Errno 2] No such file or directory: '" ++ name ++ "'\n<trace FileNotFoundError>", 0, 0⟩

/-- A run in which the second style goes on before the job of the first one. -/
theorem exists_runs_laterFirst :
    ∃ c, Crew.Runs namingProject (namingProject.site tornFile "A") true [goneStyle, lostStyle]
        { tools := () } [(1, .file (.notFound "/lost")), (0, .file (.notFound "/gone"))] c ∧
      c.AllDone [goneStyle, lostStyle] ∧
      c.progress.register.errors = [missingReport "/lost", missingReport "/gone"] := by
  let site := namingProject.site tornFile "A"
  let waits : Task Unit := .lowering namingTool "A.css"
  let lost : Failure := .file (.notFound "/lost")
  let gone : Failure := .file (.notFound "/gone")
  let empty : Task Unit := .done (.ok { code := .str "" })
  let Ran := Crew.Runs namingProject site true [goneStyle, lostStyle] { tools := () }
  -- what is left to do for the second style, and then for the first
  let q₂ := ((afterLowering site true "A.css" lostStyle (.error lost)).from_
    { tools := (), round := 2 }).2
  let q₁ := ((afterLowering site true "A.css" goneStyle (.error gone)).from_
    { q₂ with round := 3 }).2
  have started : Ran [] ⟨{ tools := () }, 0, [waits, waits]⟩ :=
    .start (b := lostStyle) 0 (.start (b := goneStyle) 0 .nil rfl) rfl
  have refused₂ : Ran [(1, lost)]
      ⟨{ tools := (), round := 2 }, 0, [waits, .lowered "A.css" (.error lost)]⟩ :=
    started.goOn (i := 1) (b := lostStyle) 2 rfl rfl
  have told₂ : Ran [(1, lost)] ⟨q₂, 0, [waits, empty]⟩ :=
    refused₂.goOn (i := 1) (b := lostStyle) 2 rfl rfl
  have refused₁ : Ran [(1, lost), (0, gone)]
      ⟨{ q₂ with round := 3 }, 0, [.lowered "A.css" (.error gone), empty]⟩ :=
    told₂.goOn (i := 0) (b := goneStyle) 3 rfl rfl
  have told₁ : Ran [(1, lost), (0, gone)] ⟨q₁, 0, [empty, empty]⟩ :=
    refused₁.goOn (i := 0) (b := goneStyle) 3 rfl rfl
  exact ⟨_, told₁, ⟨rfl, by simp [empty]⟩, by decide +kernel⟩

theorem refusals_missingImport :
    refusals namingProject (namingProject.site tornFile "A") (blocks missingImport)
      (startsFrom 1 (blockSteps namingProject (namingProject.site tornFile "A") true 0
        (blocks missingImport)) { tools := () }) = [some (.file (.notFound "/gone")), none] := by
  decide +kernel

theorem refusals_tornImport :
    refusals namingProject (namingProject.site tornFile "A") (blocks tornImport)
      (startsFrom 1 (blockSteps namingProject (namingProject.site tornFile "A") true 0
        (blocks tornImport)) { tools := () }) =
      [some (.file (.decode ⟨0xff, 1, 1, "invalid start byte"⟩)), none] := by
  decide +kernel

/-- The style that is not lowered stays as it is. -/
theorem eachFrom_missingImport :
    (eachFrom 1 (blockSteps namingProject (namingProject.site tornFile "A") true 0
      (blocks missingImport)) { tools := () }).1 =
        [(.ok { code := .str "" }, 3), (.ok { code := .str "b" }, 1)] := by rfl

theorem blocks_twoMissing : blocks twoMissing = [goneStyle, lostStyle] := by rfl

/-- When both styles were refused, there is no other block. -/
theorem refused_of_twoMissing {c : Crew Unit} (ended : c.AllDone (blocks twoMissing)) {i : Nat}
    {t : Task Unit} (found : c.tasks[i]? = some t) {f g : Failure} :
    (i, f) ∈ [(1, f), (0, g)] ∨ (i, g) ∈ [(1, f), (0, g)] := by
  obtain ⟨bound, -⟩ := List.getElem?_eq_some_iff.mp found
  rw [ended.1, blocks_twoMissing, List.length_cons, List.length_singleton] at bound
  have both : i = 1 ∨ i = 0 := by omega
  rcases both with rfl | rfl
  · exact .inl (List.mem_cons_self ..)
  · exact .inr (List.mem_cons_of_mem _ (List.mem_cons_self ..))

/-- The document with the missing file is given, with one report and with its other style. The one
with the file that is no text is not given, and there is no report. Two missing files are reported
in the order in which their jobs end, and the document is given. -/
theorem preprocess_refusals_namedFiles :
    (∃ spliced, (namedFiles missingImport).1 = .ok spliced ∧
      spliced.code = "<style lang=\"scss\"></style><style>b</style>") ∧
    (namedFiles missingImport).2.register.errors =
      [⟨"[Errno 2] No such file or directory: '/gone'\n<trace FileNotFoundError>", 0, 0⟩] ∧
    (∃ e, (namedFiles tornImport).1 = .error e) ∧
    (namedFiles tornImport).2.register.errors = [] ∧
    ∃ c results spliced, Crew.Runs namingProject (namingProject.site tornFile "A") true
        (blocks twoMissing) { tools := () }
        [(1, .file (.notFound "/lost")), (0, .file (.notFound "/gone"))] c ∧
      c.progress.register.errors = [missingReport "/lost", missingReport "/gone"] ∧
      c.Ended (blocks twoMissing) results ∧
      spliceBlocks twoMissing "A" (blocks twoMissing) results = .ok spliced := by
  obtain ⟨-, -, -, -, -, degrades, -⟩ := preprocess_refusals namingProject
    (namingProject.site tornFile "A") true missingImport "A" { tools := () }
  obtain ⟨-, -, -, -, silent, -, fails, -⟩ := preprocess_refusals namingProject
    (namingProject.site tornFile "A") true tornImport "A" { tools := () }
  rw [Nat.zero_add, refusals_missingImport, eachFrom_missingImport] at degrades
  rw [Nat.zero_add, refusals_tornImport] at silent fails
  obtain ⟨results, spliced, done, values, -, code, -, errors⟩ := degrades
    (by simp [Failure.isReportable, Failure.obstacle?])
    (by
      simp only [List.zip_cons_cons, List.zip_nil_right, List.mem_cons, Prod.mk.injEq, reduceCtorEq,
        false_and, false_or, true_and, List.not_mem_nil, or_false]
      rintro _ rfl
      exact ⟨_, rfl, rfl, by simp, by simp⟩)
  have report : (([] : List Report) ++ ([some (.file (.notFound "/gone")), none].filterMap id).map
      fun f : Failure => Report.at_ f f.traced) =
        [⟨"[Errno 2] No such file or directory: '/gone'\n<trace FileNotFoundError>", 0, 0⟩] := by
    decide +kernel
  rw [report] at errors
  obtain ⟨c, ran, ended, reports⟩ := exists_runs_laterFirst
  rw [← blocks_twoMissing] at ran ended
  obtain ⟨-, -, -, -, -, -, -, -, inAnyOrder⟩ := preprocess_refusals namingProject
    (namingProject.site tornFile "A") true twoMissing "A" { tools := () }
  obtain ⟨results₂, spliced₂, ended₂, put, -⟩ := (inAnyOrder _ c ran ended).given
    (by simp [Failure.isReportable, Failure.obstacle?])
    (fun i r unrefused found => absurd (refused_of_twoMissing ended found)
      (not_or.mpr ⟨unrefused _, unrefused _⟩))
  unfold namedFiles
  refine ⟨⟨spliced, done, ?_⟩, errors, fails ⟨_, List.mem_cons_self .., by decide⟩, silent,
    c, results₂, spliced₂, ran, reports, ended₂, put⟩
  obtain rfl : [{ code := .str "" }, { code := .str "b" }] = results :=
    List.map_injective_iff.mpr (fun _ _ => Except.ok.inj) values
  rw [code]
  decide +kernel

end Step

end Componentry
