import Componentry.Proofs.Compiler.Sound
import Componentry.Proofs.Compiler.Stages

/-!
# Batches register what is expected

Every stage of every document is right for its input: what it has come to so far is what the input
compiles to without caches. This is shown for one document at one stage, with a sound compiler, and
then holds of the whole batch: a sound compiler registers what is expected.
-/

namespace Componentry

variable {σ α β : Type}

/-! ## Stages that are right for an input -/

section

variable (w : Setting σ) (tree : FileTree) (input : Input)

/-- What an input compiles to. -/
def Setting.expectedOf : Option Result :=
  match input.document w.project.hashing w.project.root tree with
  | .error _ => none
  | .ok d => w.expected d input.hot

/-- Is the document of the input, if it has one, among those that can be kept and told apart? -/
def Setting.Knows : Prop :=
  ∀ d, input.document w.project.hashing w.project.root tree = .ok d → w.docs d input.hot

/-- Is this the document of the input, one of those that can be kept and told apart, and no page? -/
structure Setting.IsComponent (d : Document) : Prop where
  document : input.document w.project.hashing w.project.root tree = .ok d
  mem : w.docs d input.hot
  notPage : Step.page? d = none

/-- Is the ticket right for the input? -/
def Ticket.Right : Ticket → Prop
  | .settled outcome => outcome.toOption.map Result.normal = (w.expectedOf tree input).map Result.normal
  | .open_ d hot digest => w.IsComponent tree input d ∧ hot = input.hot ∧
      digest = w.project.digest? w.version d input.hot

/-- Is the draft right for the input? -/
structure Drafted.Right (x : Drafted) : Prop where
  exists_document : ∃ d, w.IsComponent tree input d ∧ x.path = d.path ∧
    x.outcome = w.project.draft w.base w.tools d input.hot ∧
    x.digest = w.project.digest? w.version d input.hot
  silent : x.register.outputs = ({} : Register).outputs

/-- Is what was compiled right for the input, and for the digest under which it is to be held? -/
structure Finished.Right (f : Finished) : Prop where
  silent : f.register.outputs = ({} : Register).outputs
  same : (given? f.outcome).map Result.normal = (w.expectedOf tree input).map Result.normal
  right : ∀ digest r, f.digest = some digest → given? f.outcome = some r → w.RightResult digest r

end

/-! ## One look-up, cut into parts -/

theorem Action.run_bind (a : Action σ α) (f : α → Action σ β) (s : σ) :
    (a >>= f).run s = match a.run s with
      | (.ok x, s') => (f x).run s'
      | (.error e, s') => (.error e, s') := by
  show (ExceptT.bindCont f (a.run s).1) (a.run s).2 = _
  rcases a.run s with ⟨r, s'⟩
  cases r <;> rfl

namespace Compiler

/-- What the compiler has under a digest, if there is a digest. -/
def lookup (c : Compiler σ) : Option Text → Except Failure (Option Result × Compiler σ)
  | some digest => c.fetch digest
  | none => .ok (none, c)

/-- Holds a page under a digest, if there is a digest. -/
def holdPage (c : Compiler σ) (page : Result) : Option Text → Option Failure × Compiler σ
  | some digest => (c.remember digest page true).swap
  | none => (none, c)

theorem start_eq {c : Compiler σ} {tree : FileTree} {input : Input} {tools tools' : σ}
    {d : Document} {key : Option CacheKey}
    (run : (c.key tree input).run tools = (.ok (d, key), tools')) :
    c.start tree input tools = match c.lookup (key.map (CacheKey.digest c.project.hashing)) with
      | .error f => (.settled (.error f), c, tools', [])
      | .ok (some result, c) => (.settled (.ok result), c, tools',
          [startEntry ("Using cached compile result for " ++ d.path)])
      | .ok (none, c') =>
        match Step.page? d with
        | some page =>
          let (failure, c) := c'.holdPage page (key.map (CacheKey.digest c.project.hashing))
          (.settled (failure.elim (.ok page) .error), c, tools', [startEntry ("Compiling " ++ d.path)])
        | none => (.open_ d input.hot (key.map (CacheKey.digest c.project.hashing)), c', tools',
            [startEntry ("Compiling " ++ d.path)]) := by
  rw [start, run]
  cases key <;> rfl

end Compiler

namespace Setting

variable {w : Setting σ} {c : Compiler σ} {tree : FileTree} {input : Input} {d : Document}

theorem expectedOf_eq (document : input.document w.project.hashing w.project.root tree = .ok d) :
    w.expectedOf tree input = w.expected d input.hot := by
  rw [expectedOf, document]

/-! ## Looking up -/

theorem run_key (sound : w.Sound c) (h : w.Cacheable)
    (document : input.document w.project.hashing w.project.root tree = .ok d) (tools : σ) :
    (c.key tree input).run tools = (.ok (d, CacheKey.derive? d w.project.options input.hot
      w.version w.project.production w.project.runtimePackage),
        (w.project.tools.version.run tools).2) := by
  have version : w.project.tools.version.run tools =
      (.ok w.version, (w.project.tools.version.run tools).2) := Prod.ext (h.answers tools) rfl
  simp only [Compiler.key, sound.project, document]
  show (w.project.tools.version >>= fun version => pure (d, CacheKey.derive? d w.project.options
    input.hot version w.project.production w.project.runtimePackage) : Action σ _).run tools = _
  rw [Action.run_bind, version]
  rfl

theorem run_key_error (sound : w.Sound c) {f : Failure}
    (document : input.document w.project.hashing w.project.root tree = .error f) (tools : σ) :
    (c.key tree input).run tools = (.error f, tools) := by
  simp only [Compiler.key, sound.project, document]
  rfl

/-- What is found for a document's digest, if it has one, is what the document compiles to. -/
theorem Sound.exists_lookup (sound : w.Sound c) (h : w.Cacheable) (mem : w.docs d input.hot)
    {digest : Option Text} (hd : digest = w.project.digest? w.version d input.hot) :
    ∃ found c', c.lookup digest = .ok (found, c') ∧ w.Sound c' ∧
      ∀ r, found = some r →
        (some r).map Result.normal = (w.expected d input.hot).map Result.normal := by
  cases digest with
  | none => exact ⟨none, c, rfl, sound, by rintro r ⟨⟩⟩
  | some g =>
    obtain ⟨found, c', fetched, sound', right⟩ := sound.exists_fetch h g
    exact ⟨found, c', fetched, sound', fun r hr => (right r hr).normal_eq h mem hd.symm⟩

/-- A page is held under its document's digest, if it has one. -/
theorem Sound.exists_holdPage (sound : w.Sound c) (h : w.Cacheable) (mem : w.docs d input.hot)
    {page : Result} (isPage : Step.page? d = some page) {digest : Option Text}
    (hd : digest = w.project.digest? w.version d input.hot) :
    ∃ c', c.holdPage page digest = (none, c') ∧ w.Sound c' := by
  cases digest with
  | none => exact ⟨c, rfl, sound⟩
  | some g =>
    have value : w.expected d input.hot = some page := by rw [expected, Project.expected, isPage]
    have right : w.RightResult g page := ⟨d, input.hot, page, mem, hd.symm, value, rfl⟩
    obtain ⟨c', remembered, sound'⟩ := sound.exists_remember h right true
    exact ⟨c', by rw [Compiler.holdPage, remembered, Prod.swap_prod_mk], sound'⟩

/-- **Looking up one document** gives a ticket that is right, and keeps the compiler sound. -/
theorem Sound.exists_start (sound : w.Sound c) (h : w.Cacheable) (known : w.Knows tree input)
    (tools : σ) : ∃ ticket c' tools' log, c.start tree input tools = (ticket, c', tools', log) ∧
      ticket.Right w tree input ∧ w.Sound c' := by
  cases document : input.document w.project.hashing w.project.root tree with
  | error f =>
    have none_ : w.expectedOf tree input = none := by rw [expectedOf, document]
    refine ⟨.settled (.error f), c, tools, [], ?_, by rw [Ticket.Right, none_]; rfl, sound⟩
    rw [Compiler.start, run_key_error sound document]
  | ok d =>
    have mem := known d document
    have value : w.expectedOf tree input = w.expected d input.hot := expectedOf_eq document
    have digest : (CacheKey.derive? d w.project.options input.hot w.version w.project.production
        w.project.runtimePackage).map (CacheKey.digest c.project.hashing) =
          w.project.digest? w.version d input.hot := by
      rw [sound.project, Project.digest?]
    obtain ⟨found, c₁, looked, sound₁, right⟩ := sound.exists_lookup h mem digest
    rw [Compiler.start_eq (run_key sound h document tools), looked]
    cases found with
    | some r =>
      refine ⟨_, _, _, _, rfl, ?_, sound₁⟩
      rw [Ticket.Right, value]
      exact right r rfl
    | none =>
      dsimp only
      cases page : Step.page? d with
      | none => exact ⟨_, _, _, _, rfl, ⟨⟨document, mem, page⟩, rfl, digest⟩, sound₁⟩
      | some result =>
        obtain ⟨c₂, held, sound₂⟩ := sound₁.exists_holdPage h mem page digest
        dsimp only
        rw [held]
        refine ⟨_, _, _, _, rfl, ?_, sound₂⟩
        rw [Ticket.Right, value, expected, Project.expected, page]
        rfl

/-! ## Drafting -/

/-- **Drafting one document** from a ticket that is right gives what is right. -/
theorem draft_right (project : c.project = w.project) (h : w.Cacheable)
    (styles : w.project.StylesAgree w.base tree) {ticket : Ticket}
    (right : Ticket.Right w tree input ticket) (tools : σ) :
    (c.draft tree ticket tools).1.elim (Finished.Right w tree input)
      (Drafted.Right w tree input) := by
  cases ticket with
  | settled outcome =>
    refine ⟨rfl, ?_, by rintro digest r ⟨⟩⟩
    rw [Ticket.Right] at right
    rw [← right]
    cases outcome <;> rfl
  | open_ d hot digest =>
    obtain ⟨component, rfl, rfl⟩ := right
    obtain ⟨q, run, -, silent⟩ :=
      Step.exists_compileComponent h.steady styles d input.hot tools w.tools
    rw [Compiler.draft, project, run]
    exact ⟨⟨d, component, rfl, rfl, rfl⟩, silent⟩

/-! ## Lowering -/

/-- The partitions of a sound compiler are ready. -/
theorem Sound.ready (sound : w.Sound c) (holds : w.Holds tree) (h : w.Cacheable) :
    Step.Ready w.project w.base w.version w.docs tree c.partitions where
  answers := h.answers
  sound := sound.partitions
  fits cache beside := (sound.beside cache beside).2
  keeps := by
    intro cache beside
    rw [(sound.beside cache beside).1]
    exact holds.lowerings

/-- What a component compiles to comes from its draft. -/
theorem expectedOf_component (component : w.IsComponent tree input d) :
    w.expectedOf tree input = ((given? (w.project.draft w.base w.tools d input.hot)).bind
      (w.project.lowersModule w.tools d.path)).map .code := by
  rw [expectedOf_eq component.document, expected, Project.expected, component.notPage]

/-- What a component has come to is right for its digest if it is right for the input. -/
theorem IsComponent.finished (component : w.IsComponent tree input d) {f : Finished}
    (silent : f.register.outputs = ({} : Register).outputs)
    (same : (given? f.outcome).map Result.normal = (w.expectedOf tree input).map Result.normal)
    (digest : f.digest = w.project.digest? w.version d input.hot) : f.Right w tree input where
  silent := silent
  same := same
  right := by
    intro g r hg hr
    rw [hr, expectedOf_eq component.document] at same
    obtain ⟨r₀, value, normal⟩ := Option.map_eq_some_iff.mp same.symm
    exact ⟨d, input.hot, r₀, component.mem, digest ▸ hg, value, normal.symm⟩

/-- **Lowering one document** that is drafted right gives what is right, and keeps the compiler
sound. -/
theorem Sound.exists_lowerDraft (sound : w.Sound c) (holds : w.Holds tree) (h : w.Cacheable)
    {x : Drafted} (right : x.Right w tree input) (tools : σ) :
    ∃ f c' tools', c.lowerDraft tree x tools = (f, c', tools') ∧ f.Right w tree input ∧
      w.Sound c' := by
  obtain ⟨⟨d, component, path, drafted, digest⟩, silent⟩ := right
  have value := expectedOf_component component
  rw [← drafted] at value
  rw [Compiler.lowerDraft]
  cases outcome : x.outcome with
  | error f =>
    rw [outcome] at value
    exact ⟨_, _, _, rfl, component.finished silent (by rw [value]; rfl) digest, sound⟩
  | ok artifact =>
    rw [outcome] at value
    cases artifact with
    | none => exact ⟨_, _, _, rfl, component.finished silent (by rw [value]; rfl) digest, sound⟩
    | some artifact =>
      have gives := Step.gives_of_draft (drafted.symm.trans outcome)
      obtain ⟨code, text⟩ := h.code d input.hot artifact component.mem component.notPage gives
      have occurs : w.project.Occurs w.base w.docs x.path code :=
        ⟨d, input.hot, artifact, component.mem, component.notPage, path.symm, gives, text⟩
      obtain ⟨r, q, run, ready, beside, silent', same⟩ :=
        Step.exists_lowerModule (q := ⟨tools, c.partitions, x.register, x.round, x.log⟩) h text occurs
          x.hot (sound.ready holds h) w.tools
      dsimp only
      rw [sound.project, run]
      refine ⟨_, _, _, rfl, component.finished (silent'.trans silent) ?_ digest, ?_⟩
      · rw [given?_map, value, ← path]
        exact Result.map_code_normal same
      · exact { sound with
          project := rfl
          partitions := ready.sound
          beside := by
            intro cache hc
            exact sound.beside cache (beside ▸ hc) }

/-! ## Holding -/

/-- **Holding one result** that is right leaves the document as it is, and the compiler sound. -/
theorem Sound.exists_hold (sound : w.Sound c) (h : w.Cacheable) {f : Finished}
    (right : f.Right w tree input) : ∃ c', c.hold f = (f, c') ∧ w.Sound c' := by
  rw [Compiler.hold]
  split
  next r digest outcome hd =>
    have right := right.right digest r hd (given?_eq_some_iff.mpr outcome)
    obtain ⟨c', remembered, sound'⟩ := sound.exists_remember h right true
    exact ⟨c', by rw [remembered], sound'⟩
  next => exact ⟨c, rfl, sound⟩

/-! ## A batch -/

theorem registered_eq (f : Finished) : f.registered = f.register.addAny (given? f.outcome) := by
  rw [Finished.registered]
  rcases f.outcome with e | (_ | r) <;> rfl

/-- A sound compiler gets every document of a batch right at every stage. -/
theorem stages (holds : w.Holds tree) (h : w.Cacheable) (styles : w.project.StylesAgree w.base tree)
    {inputs : List Input} (known : ∀ input ∈ inputs, w.Knows tree input) :
    Compiler.Stages tree inputs w.Sound (fun ticket input => ticket.Right w tree input)
      (fun d input => d.Right w tree input) (fun f input => f.Right w tree input)
      (fun f input => f.Right w tree input) where
  start := by
    intro c input sound mem tools
    obtain ⟨ticket, c', tools', log, started, right⟩ := sound.exists_start h (known input mem) tools
    rw [started]
    exact right
  draft sound right tools := draft_right sound.project h styles right tools
  lower := by
    intro c d input sound right tools
    obtain ⟨f, c', tools', lowered, right⟩ := sound.exists_lowerDraft holds h right tools
    rw [lowered]
    exact right
  hold := by
    intro c f input sound right
    obtain ⟨c', held, sound'⟩ := sound.exists_hold h right
    rw [held]
    exact ⟨right, sound'⟩

/-- **A batch of a sound compiler registers what is expected**, and leaves a sound compiler and the
files of sound stores. -/
theorem Sound.process {inputs : List Input} (sound : w.Sound c) (holds : w.Holds tree)
    (h : w.Cacheable) (styles : w.project.StylesAgree w.base tree)
    (known : ∀ input ∈ inputs, w.Knows tree input) (tools : σ) :
    List.Forall₂ (fun register input => register.outputs =
        (({} : Register).addAny (w.expectedOf tree input)).outputs)
      (c.process tree tools inputs).registers inputs ∧
    w.Sound (c.process tree tools inputs).compiler ∧ w.Holds (c.process tree tools inputs).tree := by
  obtain ⟨rights, sound⟩ := (stages holds h styles known).compileAll sound tools
  refine ⟨?_, sound.persist holds⟩
  rw [Compiler.registers_process, List.forall₂_map_left_iff]
  refine rights.imp fun f input right => ?_
  rw [registered_eq]
  exact Register.outputs_addAny_congr right.silent right.same

end Setting

end Componentry
