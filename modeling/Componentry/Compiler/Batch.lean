import Componentry.Compiler.Basic

/-!
# Batches

Documents are compiled in batches. All of them are looked up first, and those that are in memory, on
disk, or pages are done at once. The others are compiled side by side, in rounds: their modules are
lowered, and their results held and registered, in the order in which they are ready. A failure of
one document does not touch the others; the first one is raised when all are done and the caches are
written.
-/

namespace Componentry

/-- A document of a batch after it was looked up. -/
inductive Ticket where
  /-- It is done, or has failed. -/
  | settled (outcome : Except Failure Result)
  /-- It has to be compiled, and the result is held under the digest if there is one. -/
  | open_ (document : Document) (hot : Bool) (digest : Option Text)

/-- A document of a batch before its module is lowered. -/
structure Drafted where
  outcome : Except Failure (Option Artifact)
  path : Text
  hot : Bool
  digest : Option Text
  /-- What was reported and watched so far. -/
  register : Register
  round : Nat
  log : List LogEntry

/-- A document of a batch after it was compiled. -/
structure Finished where
  outcome : Except Failure (Option Result)
  /-- What was reported and watched while compiling. -/
  register : Register := {}
  /-- Under which digest the result has still to be held. -/
  digest : Option Text := none
  /-- The round in which it was ready. -/
  round : Nat := 0
  log : List LogEntry := []

/-- What is registered for a document in the end. -/
def Finished.registered (f : Finished) : Register :=
  match f.outcome with
  | .ok (some result) => f.register.add result
  | _ => f.register

/-- What a batch has come to. -/
structure Batch (σ : Type) where
  compiler : Compiler σ
  tools : σ
  tree : FileTree
  /-- The results in order, or the first failure. -/
  outcome : Except Failure (List (Option Result))
  /-- What was registered for each document. -/
  registers : List Register
  log : List LogLine

namespace Compiler

variable {σ : Type}

/-- A log line about a document, at the start of a batch. -/
def startEntry (text : Text) : LogEntry := ⟨0, "compiler", .debug, text⟩

/-- Looks up one document. -/
def start (tree : FileTree) (input : Input) (c : Compiler σ) (tools : σ) :
    Ticket × Compiler σ × σ × List LogEntry :=
  match (c.key tree input).run tools with
  | (.error f, tools) => (.settled (.error f), c, tools, [])
  | (.ok (document, key), tools) =>
    let digest := key.map (CacheKey.digest c.project.hashing)
    let found := match digest with
      | some d => c.fetch d
      | none => .ok (none, c)
    match found with
    | .error f => (.settled (.error f), c, tools, [])
    | .ok (some result, c) =>
      (.settled (.ok result), c, tools,
        [startEntry ("Using cached compile result for " ++ document.path)])
    | .ok (none, c) =>
      let log := [startEntry ("Compiling " ++ document.path)]
      match Step.page? document with
      | some page =>
        let (failure, c) := match digest with
          | some d => (c.remember d page true).swap
          | none => (none, c)
        (.settled (failure.elim (.ok page) .error), c, tools, log)
      | none => (.open_ document input.hot digest, c, tools, log)

/-- Looks up documents in order. -/
def startAll (tree : FileTree) : List Input → Compiler σ → σ →
    List Ticket × Compiler σ × σ × List LogEntry
  | [], c, tools => ([], c, tools, [])
  | input :: rest, c, tools =>
    let (ticket, c, tools, log) := c.start tree input tools
    let (tickets, c, tools, logs) := startAll tree rest c tools
    (ticket :: tickets, c, tools, log ++ logs)

/-- Compiles a document up to its lowering, if it has to be. -/
def draft (c : Compiler σ) (tree : FileTree) (ticket : Ticket) (tools : σ) :
    (Finished ⊕ Drafted) × σ :=
  match ticket with
  | .settled outcome => (.inl { outcome := outcome.map some }, tools)
  | .open_ document hot digest =>
    let (outcome, p) := (Step.compileComponent c.project tree document hot).from_ { tools }
    (.inr ⟨outcome, document.path, hot, digest, p.register, p.round, p.log⟩, p.tools)

/-- Compiles documents up to their lowering, in order. -/
def draftAll (c : Compiler σ) (tree : FileTree) : List Ticket → σ → List (Finished ⊕ Drafted) × σ
  | [], tools => ([], tools)
  | ticket :: rest, tools =>
    let (d, tools) := c.draft tree ticket tools
    let (others, tools) := draftAll c tree rest tools
    (d :: others, tools)

/-- Lowers the module of a document, if there is one. -/
def lowerDraft (c : Compiler σ) (tree : FileTree) (d : Drafted) (tools : σ) :
    Finished × Compiler σ × σ :=
  let done (outcome : Except Failure (Option Result)) : Finished :=
    ⟨outcome, d.register, d.digest, d.round, d.log⟩
  match d.outcome with
  | .error f => (done (.error f), c, tools)
  | .ok none => (done (.ok none), c, tools)
  | .ok (some artifact) =>
    let (outcome, p) := (Step.lowerModule c.project tree artifact d.path d.hot).from_
      ⟨tools, c.partitions, d.register, d.round, d.log⟩
    (⟨outcome.map (·.map .code), p.register, d.digest, p.round, p.log⟩,
      { c with partitions := p.partitions }, p.tools)

/-- Lowers modules one after the other, each document with its place in the batch. -/
def lowerInTurn (tree : FileTree) : List (Drafted × Nat) → Compiler σ → σ →
    List (Finished × Nat) × Compiler σ × σ
  | [], c, tools => ([], c, tools)
  | (d, place) :: rest, c, tools =>
    let (done, c, tools) := c.lowerDraft tree d tools
    let (others, c, tools) := lowerInTurn tree rest c tools
    ((done, place) :: others, c, tools)

/-- Documents with their places, round by round; within a round they stay in order. -/
def byRound {α : Type} (round : α → Nat) (docs : List (α × Nat)) : List (α × Nat) :=
  docs.mergeSort fun a b => round a.1 ≤ round b.1

/-- Documents in the order of their places. -/
def byPlace {α : Type} (docs : List (α × Nat)) : List α :=
  (docs.mergeSort fun a b => a.2 ≤ b.2).map Prod.fst

/-- Lowers the modules of a batch in the order in which they are ready. -/
def lowerAll (tree : FileTree) (drafts : List (Finished ⊕ Drafted)) (c : Compiler σ) (tools : σ) :
    List Finished × Compiler σ × σ :=
  let placed := drafts.zipIdx
  let settled := placed.filterMap fun (d, place) => d.getLeft?.map (·, place)
  let waiting := placed.filterMap fun (d, place) => d.getRight?.map (·, place)
  let (lowered, c, tools) := lowerInTurn tree (byRound Drafted.round waiting) c tools
  (byPlace (settled ++ lowered), c, tools)

/-- Holds a result that has just been compiled. One that cannot be held is a failure. -/
def hold (c : Compiler σ) (f : Finished) : Finished × Compiler σ :=
  match f.outcome, f.digest with
  | .ok (some result), some digest =>
    match c.remember digest result true with
    | (c, none) => (f, c)
    | (c, some e) => ({ f with outcome := .error e }, c)
  | _, _ => (f, c)

/-- Holds results one after the other. -/
def holdInTurn : List (Finished × Nat) → Compiler σ → List (Finished × Nat) × Compiler σ
  | [], c => ([], c)
  | (f, place) :: rest, c =>
    let (f, c) := c.hold f
    let (others, c) := holdInTurn rest c
    ((f, place) :: others, c)

/-- Holds the results of a batch, in the order in which they were ready. -/
def holdAll (finished : List Finished) (c : Compiler σ) : List Finished × Compiler σ :=
  let (held, c) := holdInTurn (byRound Finished.round finished.zipIdx) c
  (byPlace held, c)

/-- The results in order, or the first failure. -/
def results : List Finished → Except Failure (List (Option Result))
  | [] => .ok []
  | f :: rest =>
    match f.outcome with
    | .error e => .error e
    | .ok r => (results rest).map (r :: ·)

/-- Writes the caches. -/
def persist (c : Compiler σ) (tree : FileTree) : Compiler σ × FileTree × Option Failure :=
  let (disk, tree, failure) : Option Store × FileTree × Option Failure := match c.disk with
    | none => (none, tree, none)
    | some s => (s.persist tree).map some id
  match failure with
  | some e => (c, tree, some e)
  | none =>
    let (partitions, tree, failure) := c.partitions.persist tree
    ({ c with disk, partitions }, tree, failure)

/-- Compiles a batch. -/
def process (c : Compiler σ) (tree : FileTree) (tools : σ) (inputs : List Input) : Batch σ :=
  let (tickets, c, tools, started) := startAll tree inputs c tools
  let (drafts, tools) := c.draftAll tree tickets tools
  let (finished, c, tools) := lowerAll tree drafts c tools
  let (finished, c) := holdAll finished c
  let (c, tree, failure) := c.persist tree
  { compiler := c, tools, tree
    outcome := match failure with
      | some f => .error f
      | none => results finished
    registers := finished.map Finished.registered
    log := LogEntry.inOrder (started ++ finished.flatMap Finished.log) }

end Compiler

end Componentry
