import Componentry.Compiler.Batch
import Mathlib.Data.List.Forall2

/-!
# The stages of a batch

The documents of a batch are looked up, drafted, lowered and held, each stage in an order of its own.
What is to be shown of a batch is shown of one document at one stage, with an invariant of the
compiler that every such step keeps; here the steps are put together to what holds of each document
of the whole batch, whatever the order, and of the compiler in the end.
-/

namespace Componentry

variable {σ α β : Type}

/-! ## Places -/

/-- Is what stands at a place right for the input at that place? -/
def AtPlace (R : α → β → Prop) (inputs : List β) (x : α × Nat) : Prop :=
  ∃ input, inputs[x.2]? = some input ∧ R x.1 input

theorem atPlace_zipIdx {R : α → β → Prop} {xs : List α} {inputs : List β}
    (h : List.Forall₂ R xs inputs) : ∀ x ∈ xs.zipIdx, AtPlace R inputs x := by
  rintro ⟨a, place⟩ hx
  have found : xs[place]? = some a := List.mem_zipIdx_iff_getElem?.mp hx
  obtain ⟨bound, rfl⟩ := List.getElem?_eq_some_iff.mp found
  have bound' : place < inputs.length := h.length_eq ▸ bound
  exact ⟨inputs[place], List.getElem?_eq_getElem bound', h.get bound bound'⟩

namespace Compiler

theorem perm_byRound (round : α → Nat) (docs : List (α × Nat)) : (byRound round docs).Perm docs :=
  List.mergeSort_perm docs _

/-- **Documents that have all places are in the order of the inputs again.** -/
theorem forall₂_byPlace {R : α → β → Prop} {docs : List (α × Nat)} {inputs : List β}
    (places : (docs.map Prod.snd).Perm (List.range inputs.length))
    (right : ∀ x ∈ docs, AtPlace R inputs x) : List.Forall₂ R (byPlace docs) inputs := by
  have perm := List.mergeSort_perm docs fun a b => decide (a.2 ≤ b.2)
  have inOrder : (docs.mergeSort fun a b => decide (a.2 ≤ b.2)).Pairwise
      fun a b => decide (a.2 ≤ b.2) = true :=
    List.pairwise_mergeSort
      (fun a b c hab hbc => by simp only [decide_eq_true_eq] at *; omega)
      (fun a b => by simp only [Bool.or_eq_true, decide_eq_true_eq]; omega) docs
  rw [byPlace]
  generalize docs.mergeSort (fun a b => decide (a.2 ≤ b.2)) = sorted at perm inOrder
  -- Sorted places are the range itself, so that each document stands at its own place.
  have rising : (sorted.map Prod.snd).Pairwise (· ≤ ·) := by
    rw [List.pairwise_map]
    exact inOrder.imp fun h => of_decide_eq_true h
  have all : sorted.map Prod.snd = List.range inputs.length :=
    ((perm.map Prod.snd).trans places).eq_of_pairwise (fun _ _ _ _ => Nat.le_antisymm) rising
      List.pairwise_le_range
  have length : sorted.length = inputs.length := by
    simpa using congrArg List.length all
  rw [List.forall₂_iff_get]
  refine ⟨by rw [List.length_map, length], fun i hi hi' => ?_⟩
  have hi : i < sorted.length := length ▸ hi'
  have place : (sorted[i]).2 = i := by
    have at_ := congrArg (·[i]?) all
    simpa [hi, hi'] using at_
  obtain ⟨input, found, holds⟩ := right sorted[i] (perm.mem_iff.mp (List.getElem_mem hi))
  rw [place, List.getElem?_eq_getElem hi', Option.some.injEq] at found
  simpa [found] using holds

/-- What is done already and what waits have all places between them. -/
theorem perm_places (docs : List ((α ⊕ β) × Nat)) :
    ((docs.filterMap fun (d, place) => d.getLeft?.map (·, place)).map Prod.snd ++
      (docs.filterMap fun (d, place) => d.getRight?.map (·, place)).map Prod.snd).Perm
        (docs.map Prod.snd) := by
  induction docs with
  | nil => exact .nil
  | cons x rest ih =>
    obtain ⟨d, place⟩ := x
    cases d with
    | inl a => exact ih.cons place
    | inr b => exact List.perm_middle.trans (ih.cons place)

/-! ## Batches before the caches are written -/

/-- What the documents of a batch have come to, with the compiler and the tools, before the caches
are written. -/
def compileAll (c : Compiler σ) (tree : FileTree) (tools : σ) (inputs : List Input) :
    List Finished × Compiler σ × σ :=
  let (tickets, c, tools, _) := startAll tree inputs c tools
  let (drafts, tools) := c.draftAll tree tickets tools
  let (finished, c, tools) := lowerAll tree drafts c tools
  let (finished, c) := holdAll finished c
  (finished, c, tools)

section

variable (c : Compiler σ) (tree : FileTree) (tools : σ) (inputs : List Input)

theorem registers_process : (c.process tree tools inputs).registers =
    (c.compileAll tree tools inputs).1.map Finished.registered := rfl

end

/-- A batch of one document takes it through its stages. -/
theorem compileAll_singleton (c : Compiler σ) (tree : FileTree) (tools : σ)
    (input : Input) {ticket : Ticket} {c₁ c₂ : Compiler σ} {tools₁ tools₂ tools₃ : σ}
    {log : List LogEntry} {d : Drafted} {f : Finished}
    (started : c.start tree input tools = (ticket, c₁, tools₁, log))
    (drafted : c₁.draft tree ticket tools₁ = (.inr d, tools₂))
    (lowered : c₁.lowerDraft tree d tools₂ = (f, c₂, tools₃)) :
    c.compileAll tree tools [input] = ([(c₂.hold f).1], (c₂.hold f).2, tools₃) := by
  simp only [compileAll, startAll, draftAll, lowerAll, holdAll, started, drafted, List.zipIdx_cons,
    List.zipIdx_nil, List.filterMap_cons, List.filterMap_nil, byRound, byPlace, lowerInTurn,
    List.mergeSort_singleton, lowered, holdInTurn, List.nil_append, List.map_cons, List.map_nil,
    Sum.getRight?, Sum.getLeft?, Option.map_some, Option.map_none]

/-! ## From one document to the batch -/

/-- What holds of one document after each stage behind the look-up, and of the compiler from then
on. -/
structure LaterStages (tree : FileTree) (inputs : List Input) (Inv : Compiler σ → Prop)
    (looked : Ticket → Input → Prop) (drafted : Drafted → Input → Prop)
    (done held : Finished → Input → Prop) : Prop where
  draft : ∀ {c ticket input}, Inv c → looked ticket input → ∀ tools,
    (c.draft tree ticket tools).1.elim (done · input) (drafted · input)
  lower : ∀ {c d input}, Inv c → drafted d input → ∀ tools,
    done (c.lowerDraft tree d tools).1 input ∧ Inv (c.lowerDraft tree d tools).2.1
  hold : ∀ {c f input}, Inv c → done f input → held (c.hold f).1 input ∧ Inv (c.hold f).2

/-- What holds of one document after each stage, and of the compiler all the time. -/
structure Stages (tree : FileTree) (inputs : List Input) (Inv : Compiler σ → Prop)
    (looked : Ticket → Input → Prop) (drafted : Drafted → Input → Prop)
    (done held : Finished → Input → Prop) : Prop
    extends LaterStages tree inputs Inv looked drafted done held where
  start : ∀ {c input}, Inv c → input ∈ inputs → ∀ tools,
    looked (c.start tree input tools).1 input ∧ Inv (c.start tree input tools).2.1

variable {tree : FileTree} {inputs : List Input} {Inv : Compiler σ → Prop}
  {looked : Ticket → Input → Prop} {drafted : Drafted → Input → Prop}
  {done held : Finished → Input → Prop} {c : Compiler σ}

/-- What holds of one document after its look-up holds of all of them. -/
theorem forall₂_startAll
    (start : ∀ {c : Compiler σ} {input}, Inv c → input ∈ inputs → ∀ tools,
      looked (c.start tree input tools).1 input ∧ Inv (c.start tree input tools).2.1)
    {part : List Input} (within : ∀ input ∈ part, input ∈ inputs) (inv : Inv c) (tools : σ) :
    List.Forall₂ looked (startAll tree part c tools).1 part ∧
      Inv (startAll tree part c tools).2.1 := by
  induction part generalizing c tools with
  | nil => exact ⟨.nil, inv⟩
  | cons input rest ih =>
    obtain ⟨first, inv⟩ := start inv (within input (List.mem_cons_self ..)) tools
    obtain ⟨others, inv⟩ := ih (fun i hi => within i (List.mem_cons_of_mem _ hi)) inv _
    exact ⟨.cons first others, inv⟩

namespace LaterStages

theorem draftAll (h : LaterStages tree inputs Inv looked drafted done held) (inv : Inv c)
    {tickets : List Ticket} {part : List Input} (tickets_ : List.Forall₂ looked tickets part)
    (tools : σ) : List.Forall₂ (fun x input => x.elim (done · input) (drafted · input))
      (c.draftAll tree tickets tools).1 part := by
  induction tickets_ generalizing tools with
  | nil => exact .nil
  | @cons ticket _ _ _ first _ ih =>
    exact .cons (h.draft inv first tools) (ih (c.draft tree ticket tools).2)

theorem lowerInTurn (h : LaterStages tree inputs Inv looked drafted done held) (inv : Inv c)
    {waiting : List (Drafted × Nat)} (waiting_ : ∀ x ∈ waiting, AtPlace drafted inputs x)
    (tools : σ) :
    (Compiler.lowerInTurn tree waiting c tools).1.map Prod.snd = waiting.map Prod.snd ∧
      (∀ x ∈ (Compiler.lowerInTurn tree waiting c tools).1, AtPlace done inputs x) ∧
      Inv (Compiler.lowerInTurn tree waiting c tools).2.1 := by
  induction waiting generalizing c tools with
  | nil => exact ⟨rfl, fun x hx => absurd hx List.not_mem_nil, inv⟩
  | cons first rest ih =>
    obtain ⟨d, place⟩ := first
    obtain ⟨input, found, right⟩ := waiting_ (d, place) (List.mem_cons_self ..)
    obtain ⟨finished, inv⟩ := h.lower inv right tools
    obtain ⟨places, others, inv⟩ :=
      ih inv (fun x hx => waiting_ x (List.mem_cons_of_mem _ hx)) _
    exact ⟨congrArg (place :: ·) places,
      List.forall_mem_cons.mpr ⟨⟨input, found, finished⟩, others⟩, inv⟩

theorem lowerAll (h : LaterStages tree inputs Inv looked drafted done held) (inv : Inv c)
    {drafts : List (Finished ⊕ Drafted)}
    (drafts_ : List.Forall₂ (fun x input => x.elim (done · input) (drafted · input)) drafts inputs)
    (tools : σ) : List.Forall₂ done (Compiler.lowerAll tree drafts c tools).1 inputs ∧
      Inv (Compiler.lowerAll tree drafts c tools).2.1 := by
  -- What is settled keeps its place while the others take their turns, so both parts are followed
  -- by place and put together at the end.
  have placed := atPlace_zipIdx drafts_
  have settled : ∀ x ∈ drafts.zipIdx.filterMap fun d => d.1.getLeft?.map (·, d.2),
      AtPlace done inputs x := by
    intro x hx
    obtain ⟨⟨d, place⟩, hd, hx⟩ := List.mem_filterMap.mp hx
    obtain ⟨f, left, rfl⟩ := Option.map_eq_some_iff.mp hx
    obtain ⟨input, found, right⟩ := placed (d, place) hd
    rw [Sum.getLeft?_eq_some_iff.mp left] at right
    exact ⟨input, found, right⟩
  have waiting : ∀ x ∈ drafts.zipIdx.filterMap fun d => d.1.getRight?.map (·, d.2),
      AtPlace drafted inputs x := by
    intro x hx
    obtain ⟨⟨d, place⟩, hd, hx⟩ := List.mem_filterMap.mp hx
    obtain ⟨y, right_, rfl⟩ := Option.map_eq_some_iff.mp hx
    obtain ⟨input, found, right⟩ := placed (d, place) hd
    rw [Sum.getRight?_eq_some_iff.mp right_] at right
    exact ⟨input, found, right⟩
  have turns := perm_byRound Drafted.round
    (drafts.zipIdx.filterMap fun d => d.1.getRight?.map (·, d.2))
  obtain ⟨places, lowered, inv⟩ :=
    h.lowerInTurn inv (fun x hx => waiting x (turns.mem_iff.mp hx)) tools
  refine ⟨forall₂_byPlace ?_ fun x hx => (List.mem_append.mp hx).elim (settled x) (lowered x), inv⟩
  have all : drafts.zipIdx.map Prod.snd = List.range inputs.length := by
    rw [List.zipIdx_map_snd, drafts_.length_eq, List.range_eq_range']
  rw [List.map_append, places, ← all]
  exact ((turns.map Prod.snd).append_left _).trans (perm_places drafts.zipIdx)

theorem holdInTurn (h : LaterStages tree inputs Inv looked drafted done held) (inv : Inv c)
    {finished : List (Finished × Nat)} (finished_ : ∀ x ∈ finished, AtPlace done inputs x) :
    (Compiler.holdInTurn finished c).1.map Prod.snd = finished.map Prod.snd ∧
      (∀ x ∈ (Compiler.holdInTurn finished c).1, AtPlace held inputs x) ∧
      Inv (Compiler.holdInTurn finished c).2 := by
  induction finished generalizing c with
  | nil => exact ⟨rfl, fun x hx => absurd hx List.not_mem_nil, inv⟩
  | cons first rest ih =>
    obtain ⟨f, place⟩ := first
    obtain ⟨input, found, right⟩ := finished_ (f, place) (List.mem_cons_self ..)
    obtain ⟨held_, inv⟩ := h.hold inv right
    obtain ⟨places, others, inv⟩ := ih inv fun x hx => finished_ x (List.mem_cons_of_mem _ hx)
    exact ⟨congrArg (place :: ·) places,
      List.forall_mem_cons.mpr ⟨⟨input, found, held_⟩, others⟩, inv⟩

theorem holdAll (h : LaterStages tree inputs Inv looked drafted done held) (inv : Inv c)
    {finished : List Finished} (finished_ : List.Forall₂ done finished inputs) :
    List.Forall₂ held (Compiler.holdAll finished c).1 inputs ∧
      Inv (Compiler.holdAll finished c).2 := by
  have turns := perm_byRound Finished.round finished.zipIdx
  obtain ⟨places, held_, inv⟩ := h.holdInTurn inv
    fun x hx => atPlace_zipIdx finished_ x (turns.mem_iff.mp hx)
  refine ⟨forall₂_byPlace ?_ held_, inv⟩
  rw [places]
  refine (turns.map Prod.snd).trans (.of_eq ?_)
  rw [List.zipIdx_map_snd, finished_.length_eq, List.range_eq_range']

/-- **What holds of each document after its look-up and is kept by the later stages holds of every
document of a batch**, and of the compiler in the end. -/
theorem compileAll (h : LaterStages tree inputs Inv looked drafted done held) {tools : σ}
    (tickets : List.Forall₂ looked (startAll tree inputs c tools).1 inputs)
    (inv : Inv (startAll tree inputs c tools).2.1) :
    List.Forall₂ held (c.compileAll tree tools inputs).1 inputs ∧
      Inv (c.compileAll tree tools inputs).2.1 := by
  rcases started : startAll tree inputs c tools with ⟨tickets', c₁, tools₁, log⟩
  rw [started] at tickets inv
  have drafts := h.draftAll inv tickets tools₁
  obtain ⟨finished, inv⟩ := h.lowerAll inv drafts (c₁.draftAll tree tickets' tools₁).2
  simp only [Compiler.compileAll, started]
  exact h.holdAll inv finished

end LaterStages

/-- **What holds of one document at each stage holds of every document of a batch**, and of the
compiler in the end. -/
theorem Stages.compileAll (h : Stages tree inputs Inv looked drafted done held) (inv : Inv c)
    (tools : σ) : List.Forall₂ held (c.compileAll tree tools inputs).1 inputs ∧
      Inv (c.compileAll tree tools inputs).2.1 := by
  obtain ⟨tickets, inv⟩ := forall₂_startAll h.start (fun _ hi => hi) inv tools
  exact h.toLaterStages.compileAll tickets inv

end Compiler

end Componentry
