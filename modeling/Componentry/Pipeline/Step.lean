import Componentry.Log
import Componentry.Output
import Componentry.Pipeline.Partition
import Componentry.Tool.Basic

/-!
# Steps

A step of compiling one document. It may call tools, report against the document, and take time: a
job takes two rounds, and blocks that are processed together take as long as the slowest of them.
-/

namespace Componentry

/-- What a step reads and changes. -/
structure Progress (σ : Type) where
  tools : σ
  partitions : Partitions := {}
  register : Register := {}
  round : Nat := 0
  log : List LogEntry := []

/-- A step, which may fail. -/
abbrev Step (σ α : Type) : Type := ExceptT Failure (StateM (Progress σ)) α

namespace Step

variable {σ α : Type}

/-- A step as a function. -/
def of (f : Progress σ → Except Failure α × Progress σ) : Step σ α := ExceptT.mk f

/-- Runs a step. -/
def from_ (step : Step σ α) (p : Progress σ) : Except Failure α × Progress σ := step.run p

/-- Calls a tool. -/
def tool (action : Action σ α) : Step σ α :=
  of fun p =>
    let (r, tools) := action.run p.tools
    (r, { p with tools })

/-- Something that may fail and changes nothing. -/
def check (r : Except Failure α) : Step σ α := of fun p => (r, p)

/-- The outcome of a step, as a step that does not fail. -/
def outcome (step : Step σ α) : Step σ (Except Failure α) :=
  of fun p =>
    let (r, p) := step.from_ p
    (.ok r, p)

/-- A step that takes two rounds, whether it fails or not. -/
def job (step : Step σ α) : Step σ α :=
  of fun p =>
    let (r, p) := step.from_ p
    (r, { p with round := p.round + 2 })

/-- Writes a log line. -/
def note (source text : Text) : Step σ Unit :=
  of fun p => (.ok (), { p with log := p.log ++ [⟨p.round, source, .debug, text⟩] })

/-- Adds a report to the document's register. -/
def addReport (report : Report) : Step σ Unit :=
  of fun p => (.ok (), { p with register := p.register.reported report })

/-- Reports a failure against the document. -/
def report (f : Failure) : Step σ Unit := do addReport (← check (Report.ofFailure f))

/-- Runs steps one after the other, each from the round `start`. Gives what each comes to and the
round it ends in. -/
def eachFrom (start : Nat) : List (Step σ α) → Progress σ →
    List (Except Failure α × Nat) × Progress σ
  | [], p => ([], p)
  | step :: rest, p =>
    let (r, p) := step.from_ { p with round := start }
    let (others, q) := eachFrom start rest p
    ((r, p.round) :: others, q)

/-- The values if all are there, else the earliest failure, the first of those of one round. -/
def gather : List (Except Failure α × Nat) → Except (Failure × Nat) (List α × Nat)
  | [] => .ok ([], 0)
  | (.ok a, n) :: rest =>
    match gather rest with
    | .ok (as, m) => .ok (a :: as, max n m)
    | .error e => .error e
  | (.error f, n) :: rest =>
    match gather rest with
    | .ok _ => .error (f, n)
    | .error (g, m) => .error (if m < n then (g, m) else (f, n))

/-- Runs steps together. Each starts one round from now and runs to its end; the values are there
two rounds after the last end, or a failure two rounds after the earliest one. -/
def together (steps : List (Step σ α)) : Step σ (List α) :=
  of fun p =>
    if steps.isEmpty then (.ok [], p)
    else
      let (ends, q) := eachFrom (p.round + 1) steps p
      match gather ends with
      | .ok (values, last) => (.ok values, { q with round := last + 2 })
      | .error (f, at_) => (.error f, { q with round := at_ + 2 })

end Step

end Componentry
