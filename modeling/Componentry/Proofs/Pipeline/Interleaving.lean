import Componentry.Proofs.Pipeline.Refusals
import Mathlib.Logic.Relation

/-!
# Blocks that are processed at once

The blocks of a document are started in order. Each runs up to the job that it waits for, and takes
its stylesheet name, if it takes one, from a count that all blocks share. Jobs may end in any order,
before or after other blocks are started, and what is left to do behind a job may be done at any
time after it. Processing the blocks one after the other is one such run, and in every run each
block becomes what it becomes alone, under the name that its place in the document gives it.
-/

namespace Componentry

open Markup

namespace Step

variable {σ : Type}

/-! ## Runs -/

/-- A block that has been started. -/
inductive Task (σ : Type) where
  /-- It waits for the script tool. -/
  | scripting
  /-- It waits for the style tool. If it gives a stylesheet, this is the name. -/
  | lowering (styles : StyleTool σ) (name : Text)
  /-- The script tool has come to an end. -/
  | scripted (answer : Except Failure Processed)
  /-- The style tool has come to an end. -/
  | lowered (name : Text) (answer : Except Failure Transformed)
  | done (result : Except Failure Processed)

/-- The blocks of a document while they are processed: those that have been started, in order. -/
structure Crew (σ : Type) where
  progress : Progress σ
  /-- The stylesheet names that the blocks have taken. -/
  taken : Nat := 0
  tasks : List (Task σ) := []

/-- Starts a block when names have been `taken`: the task that it becomes, and the names taken then.
-/
def startBlock (p : Project σ) (site : Site) (inlineCss : Bool) (taken : Nat) (b : Block)
    (q : Progress σ) : (Task σ × Nat) × Progress σ :=
  let name := stylesheetName (basename site.path) taken
  match b.kind with
  | .script => ((.scripting, taken), q)
  | .style =>
    if isScss b then
      -- The name is taken before the tool is asked for.
      let taken := if shouldEmit inlineCss b then taken + 1 else taken
      match (Step.tool p.tools.style).from_ q with
      | (.error f, q) => ((.done (.error f), taken), q)
      | (.ok styles, q) => ((.lowering styles name, taken), q)
    else if emitsPlain b then
      let (r, q) := (emit name (.str b.content) none []).from_ q
      ((.done (r.map StyleOutcome.toProcessed), taken + 1), q)
    else ((.done (.ok { code := .str b.content }), taken), q)

/-- Goes on with a block: runs its job, or does what is left to do. -/
def Task.next (p : Project σ) (site : Site) (inlineCss : Bool) (b : Block) :
    Task σ → Progress σ → Task σ × Progress σ
  | .scripting, q =>
    let (answer, q) := (script p.tools.script site.path b).from_ q
    (.scripted answer, q)
  | .lowering styles name, q =>
    let (answer, q) :=
      (Step.tool (styles.transform b.content site.path b.attributes site.imports)).from_ q
    (.lowered name answer, q)
  | .scripted answer, q => (.done answer, q)
  | .lowered name answer, q =>
    let (r, q) := (afterLowering site inlineCss name b answer).from_ q
    (.done (r.map StyleOutcome.toProcessed), q)
  | .done r, q => (.done r, q)

namespace Crew

/-- Starts the next block. -/
def start (c : Crew σ) (p : Project σ) (site : Site) (inlineCss : Bool) (b : Block) (round : Nat) :
    Crew σ :=
  let ((task, taken), q) := startBlock p site inlineCss c.taken b { c.progress with round }
  ⟨q, taken, c.tasks ++ [task]⟩

/-- Goes on with block `i`, which has become `t`. -/
def goOn (c : Crew σ) (p : Project σ) (site : Site) (inlineCss : Bool) (i : Nat) (b : Block)
    (t : Task σ) (round : Nat) : Crew σ :=
  let (t, q) := t.next p site inlineCss b { c.progress with round }
  { c with progress := q, tasks := c.tasks.set i t }

/-- One move, at any time: the next block is started, or a started one goes on. -/
inductive Moves (p : Project σ) (site : Site) (inlineCss : Bool) (blocks : List Block) :
    Crew σ → Crew σ → Prop where
  | start {c : Crew σ} {b : Block} (round : Nat) : blocks[c.tasks.length]? = some b →
      Moves p site inlineCss blocks c (c.start p site inlineCss b round)
  | goOn {c : Crew σ} {i : Nat} {b : Block} {t : Task σ} (round : Nat) : blocks[i]? = some b →
      c.tasks[i]? = some t → Moves p site inlineCss blocks c (c.goOn p site inlineCss i b t round)

/-- Can a crew come from another one, by moves in any order? -/
abbrev Reaches (p : Project σ) (site : Site) (inlineCss : Bool) (blocks : List Block) :
    Crew σ → Crew σ → Prop :=
  Relation.ReflTransGen (Moves p site inlineCss blocks)

/-- Has every block of the document a result? -/
def Ended (c : Crew σ) (blocks : List Block) (results : List Processed) : Prop :=
  results.length = blocks.length ∧ c.tasks = results.map fun r => .done (.ok r)

variable {p : Project σ} {site : Site} {inlineCss : Bool} {b : Block} {blocks : List Block}

/-- A block may be started at once. -/
theorem moves_start {c : Crew σ} {t : Task σ} {taken : Nat} {q : Progress σ}
    (next : blocks[c.tasks.length]? = some b)
    (h : startBlock p site inlineCss c.taken b c.progress = ((t, taken), q)) :
    Moves p site inlineCss blocks c ⟨q, taken, c.tasks ++ [t]⟩ := by
  have same : c.start p site inlineCss b c.progress.round = ⟨q, taken, c.tasks ++ [t]⟩ := by
    rw [Crew.start, show { c.progress with round := c.progress.round } = c.progress from rfl, h]
  exact same ▸ .start c.progress.round next

/-- A block may go on at once. -/
theorem moves_goOn {c : Crew σ} {i : Nat} {t t' : Task σ} {q : Progress σ}
    (place : blocks[i]? = some b) (found : c.tasks[i]? = some t)
    (h : t.next p site inlineCss b c.progress = (t', q)) :
    Moves p site inlineCss blocks c ⟨q, c.taken, c.tasks.set i t'⟩ := by
  have same : c.goOn p site inlineCss i b t c.progress.round = ⟨q, c.taken, c.tasks.set i t'⟩ := by
    rw [Crew.goOn, show { c.progress with round := c.progress.round } = c.progress from rfl, h]
  exact same ▸ .goOn c.progress.round place found

end Crew

/-! ## What a block becomes -/

/-- Does the block take a stylesheet name? -/
def takes (inlineCss : Bool) (b : Block) : Bool := b.kind = .style && takesName inlineCss b

/-- What becomes of a block that takes `name`, if it takes one. -/
structure Named (p : Project σ) (site : Site) (inlineCss : Bool) (name : Text) (b : Block)
    (r : Processed) : Prop extends Becomes p site inlineCss b r where
  named : ∀ sheet ∈ r.stylesheets, sheet.path = name

/-- Are all results that a task can still come to as said? -/
def Task.Keeps (p : Project σ) (site : Site) (inlineCss : Bool) (b : Block)
    (P : Processed → Prop) : Task σ → Prop
  | .scripting => ∀ r, (script p.tools.script site.path b).Yields r → P r
  | .lowering styles name => ∀ s r, (afterLowering site inlineCss name b
      ((styles.transform b.content site.path b.attributes site.imports).run s).1 :
        Step σ StyleOutcome).Yields r → P r.toProcessed
  | .scripted answer => ∀ r, answer = .ok r → P r
  | .lowered name answer => ∀ r,
      (afterLowering site inlineCss name b answer : Step σ StyleOutcome).Yields r → P r.toProcessed
  | .done result => ∀ r, result = .ok r → P r

section Blocks

variable {p : Project σ} {site : Site} {inlineCss : Bool} {b : Block} {blocks : List Block}
  {taken : Nat} {q : Progress σ}

theorem Task.Keeps.next {P : Processed → Prop} {t : Task σ} (h : t.Keeps p site inlineCss b P)
    (q : Progress σ) : (t.next p site inlineCss b q).1.Keeps p site inlineCss b P := by
  cases t with
  | scripting => exact fun r ran => h r ⟨q, ran⟩
  | lowering styles name => exact h q.tools
  | scripted answer => exact h
  | lowered name answer =>
    intro r ran
    have last : (((afterLowering site inlineCss name b answer).from_ q).1.map
        StyleOutcome.toProcessed) = .ok r := ran
    cases outcome : ((afterLowering site inlineCss name b answer).from_ q).1 with
    | error f =>
      rw [outcome] at last
      cases last
    | ok r' =>
      rw [outcome] at last
      obtain rfl := Except.ok.inj last
      exact h r' ⟨q, outcome⟩
  | done result => exact h

theorem becomes_of_plain (plain : ¬ isScss b) {r : Processed}
    (sheets : r.stylesheets.length = plainSheets b) : Becomes p site inlineCss b r where
  lowered _ scss := absurd scss plain
  plain _ := sheets

/-- **A started block** becomes what it becomes alone, under the name that it has taken. -/
theorem keeps_startBlock (p : Project σ) (site : Site) (inlineCss : Bool) (taken : Nat) (b : Block)
    (q : Progress σ) : (startBlock p site inlineCss taken b q).1.1.Keeps p site inlineCss b
      (Named p site inlineCss (stylesheetName (basename site.path) taken) b) := by
  rw [startBlock]
  cases kind : b.kind with
  | script =>
    intro r ran
    have becomes : Becomes p site inlineCss b r := becomes_script kind ran
    have none_ : r.stylesheets = [] := by
      rw [← List.length_eq_zero_iff, becomes.plain (by simp [kind])]
      simp [plainSheets, kind]
    exact ⟨becomes, by simp [none_]⟩
  | style =>
    dsimp only
    by_cases scss : isScss b
    · rw [if_pos scss]
      rcases asked : (Step.tool p.tools.style).from_ q with ⟨e | styles, q'⟩
      · intro r failed
        cases failed
      · have given : p.tools.style.Gives styles := gives_of_tool ⟨q, congrArg Prod.fst asked⟩
        intro s r ran
        obtain ⟨lowered, named⟩ := lowered_of_afterLowering given ran
        exact ⟨⟨fun _ _ => lowered, fun other => absurd ⟨kind, scss⟩ other⟩, named⟩
    · rw [if_neg scss]
      split
      · rename_i emits
        intro r ran
        obtain rfl := Except.ok.inj ran
        exact ⟨becomes_of_plain scss (by simp [plainSheets, kind, emits]), by simp⟩
      · rename_i stays
        rintro r ⟨⟩
        exact ⟨becomes_of_plain scss (by simp [plainSheets, stays]), by simp⟩

theorem taken_startBlock (p : Project σ) (site : Site) (inlineCss : Bool) (taken : Nat) (b : Block)
    (q : Progress σ) : (startBlock p site inlineCss taken b q).1.2 =
      if takes inlineCss b then taken + 1 else taken := by
  rw [startBlock]
  cases kind : b.kind with
  | script => simp [takes, kind]
  | style =>
    dsimp only
    by_cases scss : isScss b
    · rw [if_pos scss]
      rcases (Step.tool p.tools.style).from_ q with ⟨e | styles, q'⟩ <;>
        simp [takes, takesName, kind, scss]
    · rw [if_neg scss]
      by_cases emits : emitsPlain b <;> simp [takes, takesName, kind, scss, emits]

/-! ## Every run -/

/-- The names that the blocks before block `i` have taken. -/
def takenBefore (inlineCss : Bool) (blocks : List Block) (i : Nat) : Nat :=
  (blocks.take i).countP (takes inlineCss)

/-- What holds throughout a run: the blocks were started in order, and each that was can only become
what it becomes alone, under the name that its place gives it. -/
structure Crew.Keeps (p : Project σ) (site : Site) (inlineCss : Bool) (blocks : List Block)
    (c : Crew σ) : Prop where
  taken : c.taken = takenBefore inlineCss blocks c.tasks.length
  tasks : ∀ (i : Nat) (t : Task σ), c.tasks[i]? = some t → ∃ b, blocks[i]? = some b ∧
    t.Keeps p site inlineCss b (Named p site inlineCss
      (stylesheetName (basename site.path) (takenBefore inlineCss blocks i)) b)

theorem takenBefore_succ {i : Nat} (h : blocks[i]? = some b) :
    takenBefore inlineCss blocks (i + 1) =
      if takes inlineCss b then takenBefore inlineCss blocks i + 1
      else takenBefore inlineCss blocks i := by
  rw [takenBefore, takenBefore, List.take_add_one, h, Option.toList_some, List.countP_append,
    List.countP_singleton]
  split <;> rfl

/-- One move keeps the promise of each block. -/
theorem Crew.Keeps.move {c c' : Crew σ} (h : c.Keeps p site inlineCss blocks)
    (move : Crew.Moves p site inlineCss blocks c c') : c'.Keeps p site inlineCss blocks := by
  cases move with
  | @start b round next =>
    refine ⟨?_, fun i t found => ?_⟩
    · simp only [Crew.start, List.length_append, List.length_singleton]
      rw [takenBefore_succ next, taken_startBlock, h.taken]
    · simp only [Crew.start, List.getElem?_append, List.getElem?_singleton] at found
      split at found
      · exact h.tasks i t found
      · split at found
        · rename_i last
          obtain rfl : i = c.tasks.length := by omega
          obtain rfl := Option.some.inj found
          refine ⟨b, next, ?_⟩
          rw [← h.taken]
          exact keeps_startBlock p site inlineCss c.taken b _
        · cases found
  | @goOn i b t round place found =>
    refine ⟨?_, fun j t' found' => ?_⟩
    · simp only [Crew.goOn, List.length_set]
      exact h.taken
    · simp only [Crew.goOn, List.getElem?_set] at found'
      split at found'
      · rename_i same
        subst same
        split at found'
        · obtain rfl := Option.some.inj found'
          obtain ⟨b', place', keeps⟩ := h.tasks i t found
          obtain rfl := Option.some.inj (place.symm.trans place')
          exact ⟨b, place, keeps.next _⟩
        · cases found'
      · exact h.tasks j t' found'

/-- **What a run keeps**: so does a whole run, in whatever order it goes on. -/
theorem Crew.Keeps.reaches {c c' : Crew σ} (h : c.Keeps p site inlineCss blocks)
    (run : Crew.Reaches p site inlineCss blocks c c') : c'.Keeps p site inlineCss blocks := by
  induction run with
  | refl => exact h
  | tail _ move ih => exact ih.move move

theorem Crew.keeps_start (p : Project σ) (site : Site) (inlineCss : Bool) (blocks : List Block)
    (q : Progress σ) : Crew.Keeps p site inlineCss blocks { progress := q } where
  taken := rfl
  tasks i t found := by simp at found

/-- The results of a run, block by block. -/
theorem Crew.named_of_ended {c : Crew σ} {results : List Processed}
    (run : Crew.Reaches p site inlineCss blocks { progress := q } c)
    (ended : c.Ended blocks results) {i : Nat} {b : Block} {r : Processed} (place : blocks[i]? = some b)
    (given : results[i]? = some r) : Named p site inlineCss
      (stylesheetName (basename site.path) (takenBefore inlineCss blocks i)) b r := by
  have found : c.tasks[i]? = some (.done (.ok r)) := by
    rw [ended.2, List.getElem?_map, given]
    rfl
  obtain ⟨b', place', keeps⟩ := ((Crew.keeps_start p site inlineCss blocks q).reaches run).tasks i _
    found
  obtain rfl := Option.some.inj (place.symm.trans place')
  exact keeps r rfl

/-! ## One block after the other -/

/-- The step of one block. -/
def blockStep (p : Project σ) (site : Site) (inlineCss : Bool) (taken : Nat) (b : Block) :
    Step σ Processed :=
  match b.kind with
  | .script => job (script p.tools.script site.path b)
  | .style => do
    return (← style p.tools.style site inlineCss (stylesheetName (basename site.path) taken) b).toProcessed

theorem blockSteps_cons (taken : Nat) (b : Block) (rest : List Block) :
    blockSteps p site inlineCss taken (b :: rest) = blockStep p site inlineCss taken b ::
      blockSteps p site inlineCss (if takes inlineCss b then taken + 1 else taken) rest := by
  rw [blockSteps, blockStep]
  cases kind : b.kind with
  | script => simp [takes, kind]
  | style => simp [takes, kind]

/-- Can a task, on its own, come to its end with this? -/
inductive Task.Ends (p : Project σ) (site : Site) (inlineCss : Bool) (b : Block) :
    Task σ → Progress σ → Except Failure Processed × Progress σ → Prop where
  | done (r : Except Failure Processed) (q : Progress σ) : Ends p site inlineCss b (.done r) q (r, q)
  | goOn {t : Task σ} {q : Progress σ} {e : Except Failure Processed × Progress σ} (round : Nat) :
      Ends p site inlineCss b (t.next p site inlineCss b { q with round }).1
        (t.next p site inlineCss b { q with round }).2 e → Ends p site inlineCss b t q e

/-- A block that is started and goes on to its end comes to what its step comes to. -/
theorem ends_startBlock (p : Project σ) (site : Site) (inlineCss : Bool) (taken : Nat) (b : Block)
    (q : Progress σ) :
    (startBlock p site inlineCss taken b q).1.1.Ends p site inlineCss b
      (startBlock p site inlineCss taken b q).2 ((blockStep p site inlineCss taken b).from_ q) := by
  rw [startBlock, blockStep]
  cases kind : b.kind with
  | script =>
    -- The job takes two rounds.
    exact .goOn q.round (.goOn (((script p.tools.script site.path b).from_ q).2.round + 2)
      (.done _ _))
  | style =>
    dsimp only
    by_cases scss : isScss b
    · rw [if_pos scss, from_toProcessed, style_of_isScss scss, from_bind]
      rcases (Step.tool p.tools.style).from_ q with ⟨e | styles, q'⟩
      · exact .done _ _
      · exact .goOn q'.round (.goOn (q'.round + 2) (.done _ _))
    · rw [if_neg scss, style, if_neg scss]
      split
      · exact .done _ _
      · exact .done _ _

/-- The last block that was started may go on to its end. -/
theorem Task.Ends.reaches {t : Task σ} {e : Except Failure Processed × Progress σ}
    (h : t.Ends p site inlineCss b q e) (taken : Nat) (tasks : List (Task σ))
    (place : blocks[tasks.length]? = some b) :
    Crew.Reaches p site inlineCss blocks ⟨q, taken, tasks ++ [t]⟩
      ⟨e.2, taken, tasks ++ [.done e.1]⟩ := by
  induction h with
  | done r q => exact .refl
  | @goOn t q e round _ ih =>
    have found : (tasks ++ [t])[tasks.length]? = some t := List.getElem?_concat_length
    have move : Crew.Moves p site inlineCss blocks ⟨q, taken, tasks ++ [t]⟩
        (Crew.goOn ⟨q, taken, tasks ++ [t]⟩ p site inlineCss tasks.length b t round) :=
      .goOn round place found
    have last : Crew.goOn ⟨q, taken, tasks ++ [t]⟩ p site inlineCss tasks.length b t round =
        ⟨(t.next p site inlineCss b { q with round }).2, taken,
          tasks ++ [(t.next p site inlineCss b { q with round }).1]⟩ := by
      simp [Crew.goOn]
    exact .head (last ▸ move) ih

theorem Crew.reaches_block (p : Project σ) (site : Site) (inlineCss : Bool) (c : Crew σ)
    (start : Nat) (next : blocks[c.tasks.length]? = some b) :
    let ran := (blockStep p site inlineCss c.taken b).from_ { c.progress with round := start }
    Crew.Reaches p site inlineCss blocks c
      ⟨ran.2, if takes inlineCss b then c.taken + 1 else c.taken, c.tasks ++ [.done ran.1]⟩ := by
  intro ran
  have ends := ends_startBlock p site inlineCss c.taken b { c.progress with round := start }
  rw [← taken_startBlock p site inlineCss c.taken b { c.progress with round := start }]
  exact .head (.start start next) (ends.reaches _ c.tasks next)

/-- **One block after the other** is a run: the blocks that are left may be started and go on to
their ends in turn. -/
theorem Crew.reaches_eachFrom (p : Project σ) (site : Site) (inlineCss : Bool) (start : Nat)
    (c : Crew σ) {left : List Block} (h : left = blocks.drop c.tasks.length) :
    let ran := eachFrom start (blockSteps p site inlineCss c.taken left) c.progress
    ∃ taken, Crew.Reaches p site inlineCss blocks c
      ⟨ran.2, taken, c.tasks ++ ran.1.map fun e => .done e.1⟩ := by
  induction left generalizing c with
  | nil =>
    refine ⟨c.taken, ?_⟩
    rw [blockSteps, eachFrom, List.map_nil, List.append_nil]
  | cons b rest ih =>
    have next : blocks[c.tasks.length]? = some b := by
      rw [← List.head?_drop, ← h]
      rfl
    have others : rest = blocks.drop (c.tasks.length + 1) := by
      rw [← List.tail_drop, ← h]
      rfl
    have first := Crew.reaches_block p site inlineCss c start next
    obtain ⟨taken, run⟩ := ih ⟨_, _, c.tasks ++ [.done _]⟩ (by simpa using others)
    refine ⟨taken, first.trans ?_⟩
    rw [blockSteps_cons, eachFrom, List.map_cons]
    rw [List.append_assoc, List.singleton_append] at run
    exact run

theorem length_blockSteps (taken : Nat) (blocks : List Block) :
    (blockSteps p site inlineCss taken blocks).length = blocks.length := by
  induction blocks generalizing taken with
  | nil => rfl
  | cons b rest ih => rw [blockSteps_cons, List.length_cons, List.length_cons, ih]

/-- **Processing a document is a run** of its blocks, in which each has a result. -/
theorem exists_run_of_preprocess {source filename : Text} {spliced : Spliced}
    (h : (preprocess source filename (blockSteps p site inlineCss 0)).Yields spliced) :
    ∃ q c results, Crew.Reaches p site inlineCss (Markup.blocks source) { progress := q } c ∧
      c.Ended (Markup.blocks source) results ∧
      spliceBlocks source filename (Markup.blocks source) results = .ok spliced := by
  obtain ⟨q, h⟩ := h
  obtain ⟨round, ran⟩ :=
    exists_from_preprocess source filename (blockSteps p site inlineCss 0) q
  rw [ran] at h
  obtain ⟨taken, run⟩ :=
    Crew.reaches_eachFrom p site inlineCss (q.round + 1) { progress := q } (List.drop_zero ..).symm
  cases gathered : gather
      (eachFrom (q.round + 1) (blockSteps p site inlineCss 0 (Markup.blocks source)) q).1 with
  | error e =>
    simp only [gathered] at h
    cases h
  | ok found =>
    obtain ⟨results, last⟩ := found
    simp only [gathered] at h
    have values := values_of_gather gathered
    refine ⟨q, _, results, run, ⟨?_, ?_⟩, ok_of_mapError h⟩
    · rw [← length_blockSteps 0 (Markup.blocks source), ← length_eachFrom (q.round + 1) _ q,
        ← List.length_map Prod.fst, values, List.length_map]
    · have ends := congrArg (List.map (Task.done : _ → Task σ)) values
      rwa [List.map_map, List.map_map] at ends

end Blocks

end Step

end Componentry
