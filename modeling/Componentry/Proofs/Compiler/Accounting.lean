import Componentry.Proofs.Compiler.Stages
import Componentry.Proofs.Pipeline.Frame
import Componentry.Proofs.Pipeline.Partition

/-!
# Every document of a batch is accounted for

Whatever the tools do, a document of a batch ends in one of three ways: its result is registered, or
nothing is registered and a report says why, or its compile failed. The last is raised by the batch,
for the first document that failed, but only after all documents went through all their stages and
the caches were written.
-/

namespace Componentry

variable {σ : Type}

/-! ## Registering a result -/

namespace Register

end Register

/-! ## One document -/

/-- Is nothing registered yet, and is there a report if there is no result? -/
structure Explained {α : Type} (outcome : Except Failure (Option α)) (r : Register) : Prop where
  silent : r.Silent
  errors : outcome = .ok none → r.errors ≠ []

theorem Register.silent_empty : ({} : Register).Silent := ⟨rfl, rfl, rfl⟩

namespace Compiler

/-- **A draft that gives nothing to lower has a report**, and nothing is registered by it. -/
theorem explained_draft (c : Compiler σ) (tree : FileTree) (ticket : Ticket) (tools : σ) :
    (c.draft tree ticket tools).1.elim (fun f => Explained f.outcome f.register)
      fun d => Explained d.outcome d.register := by
  cases ticket with
  | settled outcome =>
    refine ⟨Register.silent_empty, ?_⟩
    cases outcome <;> exact nofun
  | open_ document hot digest =>
    refine ⟨?_, Step.explains_compileComponent c.project tree document hot { tools }⟩
    exact Step.reporting_silent.compileComponent c.project tree document hot { tools }
      Register.silent_empty

/-- **Lowering that gives no module has a report**, and nothing is registered by it. -/
theorem explained_lowerDraft (c : Compiler σ) (tree : FileTree) {d : Drafted}
    (h : Explained d.outcome d.register) (tools : σ) :
    Explained (c.lowerDraft tree d tools).1.outcome (c.lowerDraft tree d tools).1.register := by
  rw [lowerDraft]
  rcases drafted : d.outcome with e | (_ | artifact)
  · exact ⟨h.silent, nofun⟩
  · exact ⟨h.silent, fun _ => h.errors drafted⟩
  · have silent := Step.reporting_silent.lowerModule (fun _ _ => id) c.project tree artifact d.path
      d.hot ⟨tools, c.partitions, d.register, d.round, d.log⟩ h.silent
    have errors := Step.explains_lowerModule c.project tree artifact d.path d.hot
      ⟨tools, c.partitions, d.register, d.round, d.log⟩
    refine ⟨silent, fun none_ => errors ?_⟩
    -- what is lowered is wrapped as a result, which makes nothing of something
    rcases run : (Step.lowerModule c.project tree artifact d.path d.hot).from_
      ⟨tools, c.partitions, d.register, d.round, d.log⟩ with ⟨r, q⟩
    simp only [run] at none_
    rcases r with e | (_ | m)
    · cases none_
    · rfl
    · cases none_

/-- Holding a result registers and reports nothing. -/
theorem explained_hold (c : Compiler σ) {f : Finished} (h : Explained f.outcome f.register) :
    Explained (c.hold f).1.outcome (c.hold f).1.register := by
  rw [hold]
  split
  · split
    · exact h
    · exact ⟨h.silent, nofun⟩
  · exact h

/-! ## All documents -/

section

variable (c : Compiler σ) (tree : FileTree) (inputs : List Input)

-- What a batch can come to, in whatever order its documents are taken and whatever the tools do.
mutual

/-- The compilers that a batch can come to. -/
inductive Reached : Compiler σ → Prop
  | refl : Reached c
  | start {c' : Compiler σ} {input : Input} (reached : Reached c') (mem : input ∈ inputs)
      (tools : σ) : Reached (c'.start tree input tools).2.1
  | lower {c' : Compiler σ} {input : Input} {d : Drafted} (reached : Reached c')
      (drafted : DraftOf input d) (tools : σ) : Reached (c'.lowerDraft tree d tools).2.1
  | hold {c' : Compiler σ} {input : Input} {f : Finished} (reached : Reached c')
      (finished : FinishOf input f) : Reached (c'.hold f).2

/-- The tickets that an input can get. -/
inductive TicketOf : Input → Ticket → Prop
  | start {c' : Compiler σ} {input : Input} (reached : Reached c') (mem : input ∈ inputs)
      (tools : σ) : TicketOf input (c'.start tree input tools).1

/-- What can be drafted for an input. -/
inductive DraftOf : Input → Drafted → Prop
  | draft {c' : Compiler σ} {input : Input} {ticket : Ticket} {tools : σ} {d : Drafted}
      (reached : Reached c') (given : TicketOf input ticket)
      (drafted : (c'.draft tree ticket tools).1 = .inr d) : DraftOf input d

/-- What an input can come to before its result is held. -/
inductive FinishOf : Input → Finished → Prop
  | settled {c' : Compiler σ} {input : Input} {ticket : Ticket} {tools : σ} {f : Finished}
      (reached : Reached c') (given : TicketOf input ticket)
      (drafted : (c'.draft tree ticket tools).1 = .inl f) : FinishOf input f
  | lower {c' : Compiler σ} {input : Input} {d : Drafted} (reached : Reached c')
      (drafted : DraftOf input d) (tools : σ) : FinishOf input (c'.lowerDraft tree d tools).1

end

end

variable {c : Compiler σ} {tree : FileTree} {inputs : List Input}

end Compiler

/-! ## What is raised -/

namespace Compiler

/-- The stores of a compiler: that of its results, and those of the partitions in use. -/
def stores (c : Compiler σ) : List Store := c.disk.toList ++ c.partitions.stores.map Prod.snd

/-- The store of results is written like that of one more partition, before all others. -/
theorem persist_eq_persistAll (c : Compiler σ) (tree : FileTree) (d : Path) :
    let all := Partitions.persistAll tree (c.disk.toList.map (d, ·) ++ c.partitions.stores)
    (c.persist tree).2 = all.2 ∧
      ((c.persist tree).2.2 = none → (c.persist tree).1.stores = all.1.map Prod.snd) := by
  rw [persist]
  cases c.disk with
  | none => exact ⟨rfl, fun _ => rfl⟩
  | some s =>
    simp only [Option.toList_some, List.map_cons, List.map_nil, List.cons_append, List.nil_append,
      Partitions.persistAll]
    rcases s.persist tree with ⟨s', tree', failure⟩
    cases failure with
    | some e => exact ⟨rfl, by rintro ⟨⟩⟩
    | none => exact ⟨rfl, fun _ => rfl⟩

/-- **Writing that succeeds** leaves all stores as they are, but clean. The file of a store that had
something new holds what the store holds, if no other store has something else for that file. -/
theorem persist_of_success {c : Compiler σ} {tree : FileTree} (h : (c.persist tree).2.2 = none) :
    (c.persist tree).1.stores = c.stores.map Store.cleaned ∧
    ∀ s ∈ c.stores, s.dirty = true → ∀ p, s.path = some p →
      (∀ s' ∈ c.stores, s'.dirty = true → ∀ q, s'.path = some q → q.location = p.location →
        s'.text = s.text) →
      (c.persist tree).2.1.read p = .ok ⟨(Text.bytes s.text).toArray⟩ := by
  -- the store of results counts as one more partition, in whatever directory
  obtain ⟨same, stores_⟩ := c.persist_eq_persistAll tree default
  generalize all : c.disk.toList.map ((default : Path), ·) ++ c.partitions.stores = files
    at same stores_
  have snd : files.map Prod.snd = c.stores := by
    rw [← all, stores, List.map_append, List.map_map]
    simp [Function.comp_def]
  have success : (Partitions.persistAll tree files).2.2 = none := same ▸ h
  obtain ⟨clean, read⟩ := Partitions.persistAll_of_success success
  rw [stores_ h, clean, same, ← snd]
  refine ⟨by simp [Function.comp_def], ?_⟩
  intro s hs dirty p path alone
  obtain ⟨f, hf, rfl⟩ := List.mem_map.mp hs
  refine read p _ (.inr ⟨f, hf, path, dirty, rfl⟩) fun g hg dirty' q path' here => ?_
  rw [alone g.2 (List.mem_map_of_mem hg) dirty' q path' here]

/-! ## Batches -/

/-- A project in which most tools are missing. -/
def unequipped : Project Unit where
  options := {}
  production := false
  runtimePackage := none
  tools := {
    markup := return { version := return "3", compile := fun _ _ => throw (.setup (.noTool "markup")) }
    script := throw (.setup (.noTool "script"))
    style := throw (.setup (.noTool "style"))
    hot := throw (.setup (.noTool "hot"))
    lowering := throw (.setup (.noTool "lowering")) }
  root := Path.ofText "/"
  cwd := Path.ofText "/"
  hashing := { source := id, entry := fun _ => "k", options := fun _ => "0" }
  stamp := "now"

end Compiler

end Componentry
