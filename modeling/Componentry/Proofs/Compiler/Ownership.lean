import Componentry.Proofs.Cache.Sessions
import Componentry.Proofs.Compiler.Accounting
import Componentry.Proofs.Compiler.History
import Componentry.Proofs.Pipeline.StylesheetNames

/-!
# Outputs are named after their document

A document gives sections called head and body, or a module at its own path with stylesheets that
are named after its file, all different. What is registered in a batch is so named, document by
document, if what the caches recall is; and they recall nothing else when batches have filled them.
-/

namespace Componentry

variable {σ : Type}

/-! ## Names of outputs -/

/-- Are these stylesheets of the document at a path? -/
structure SheetsFor (path : Text) (sheets : List Stylesheet) : Prop where
  distinct : (sheets.map Stylesheet.path).Nodup
  named : ∀ s ∈ sheets, s.path = basename path ++ ".component.css" ∨
    ∃ k, s.path = stylesheetName (basename path) k

/-- Is this a result of the document at a path? -/
def Result.IsFor (path : Text) : Result → Prop
  | .page parts => ∀ part ∈ parts, part.name = "head" ∨ part.name = "body"
  | .code m => m.path = path ∧ SheetsFor path m.stylesheets

/-- Is this all that is registered for the document at a path: one of its results, or nothing? -/
inductive Register.IsFor (path : Text) : Register → Prop
  | silent {r : Register} (silent : r.Silent) : IsFor path r
  | added {r : Register} {result : Result} (silent : r.Silent) (isFor : result.IsFor path) :
    IsFor path (r.add result)

namespace Step

variable {p : Project σ} {tree : FileTree} {d : Document} {hot : Bool}

theorem isFor_of_page? {page : Result} (h : page? d = some page) (path : Text) :
    page.IsFor path := by
  obtain ⟨sections, -, rfl⟩ := Option.map_eq_some_iff.mp h
  intro part hpart
  obtain ⟨s, -, rfl⟩ := List.mem_map.mp hpart
  cases s.name with
  | head => exact .inl rfl
  | body => exact .inr rfl

theorem WellNamed.sheetsFor {site : Site} {inlineCss : Bool} {path : Text}
    {blocks : List Markup.Block} {results : List Processed} {sheets : List Stylesheet}
    (h : WellNamed p site inlineCss (basename path) blocks results sheets) :
    SheetsFor path sheets := by
  have ofBlocks : ∀ s ∈ results.flatMap (·.stylesheets),
      ∃ k, s.path = stylesheetName (basename path) k := by
    intro s hs
    obtain ⟨r, hr, own⟩ := List.mem_flatMap.mp hs
    obtain ⟨i, given⟩ := List.mem_iff_getElem?.mp hr
    rcases h.named i r given with none_ | ⟨sheet, one, name⟩
    · rw [none_] at own
      cases own
    · rw [one, List.mem_singleton] at own
      exact ⟨_, own ▸ name⟩
  refine ⟨h.distinct, fun s hs => ?_⟩
  rcases h.ordered with rfl | ⟨own, rfl, name⟩
  · exact .inr (ofBlocks s hs)
  · rcases List.mem_append.mp hs with block | last
    · exact .inr (ofBlocks s block)
    · rw [List.mem_singleton.mp last]
      exact .inl name

/-- **What is compiled for a document has stylesheets named after it.** -/
theorem sheetsFor_compileComponent {artifact : Artifact}
    (h : (compileComponent p tree d hot).Yields (some artifact)) :
    SheetsFor d.path artifact.stylesheets := by
  obtain ⟨options, preprocessed, compiled, -, processed, made⟩ :=
    exists_preprocess_of_compileComponent h
  obtain ⟨q, c, results, run, ended, put⟩ := exists_run_of_preprocess processed
  rw [stylesheets_of_spliceBlocks put] at made
  exact (Crew.wellNamed rfl run ended made).sheetsFor

theorem isFor_of_lowerModule {artifact : Artifact} {path : Text} {m : Module}
    (sheets : SheetsFor path artifact.stylesheets)
    (h : (lowerModule p tree artifact path hot).Yields (some m)) :
    (Result.code m).IsFor path := by
  obtain ⟨own, kept⟩ := fields_of_lowerModule h
  exact ⟨own, kept ▸ sheets⟩

/-- **What a document compiles to is named after it.** -/
theorem isFor_of_compileOne {r : Result} (h : (compileOne p tree d hot).Yields (some r)) :
    r.IsFor d.path := by
  rw [compileOne] at h
  split at h
  next page isPage =>
    obtain rfl := Option.some.inj (eq_of_pure h)
    exact isFor_of_page? isPage d.path
  next =>
    obtain ⟨artifact, component, h⟩ := exists_of_bind h
    cases artifact with
    | none => cases eq_of_pure h
    | some artifact =>
      obtain ⟨lowered, module_, h⟩ := exists_of_bind h
      obtain ⟨m, rfl, rfl⟩ := Option.map_eq_some_iff.mp (eq_of_pure h)
      exact isFor_of_lowerModule (sheetsFor_compileComponent component) module_

end Step

/-- The names do not depend on the order of fields. -/
theorem Result.IsFor.of_normal_eq {path : Text} {r r' : Result} (h : r.IsFor path)
    (same : r'.normal = r.normal) : r'.IsFor path := by
  cases r with
  | page parts =>
    cases r' with
    | page parts' =>
      cases same
      exact h
    | code m' => cases same
  | code m =>
    cases r' with
    | page parts' => cases same
    | code m' =>
      have same : m'.normal = m.normal := Result.code.inj same
      have paths : m'.path = m.path := (congrArg Module.path same :)
      have sheets : m'.stylesheets.map Stylesheet.path = m.stylesheets.map Stylesheet.path := by
        have normal := congrArg (fun x : Module => x.stylesheets.map Stylesheet.path) same
        simpa [Module.normal, Function.comp_def, Stylesheet.normal] using normal
      obtain ⟨own, distinct, named⟩ := h
      refine ⟨paths.trans own, sheets ▸ distinct, fun s hs => ?_⟩
      have mem : s.path ∈ m.stylesheets.map Stylesheet.path := sheets ▸ List.mem_map_of_mem hs
      obtain ⟨s', hs', path'⟩ := List.mem_map.mp mem
      rw [← path']
      exact named s' hs'

/-! ## One document behind its look-up -/

/-- Can the ticket be that of a document at the path? -/
def Ticket.IsFor (path : Text) : Ticket → Prop
  | .settled outcome => ∀ r, outcome = .ok r → r.IsFor path
  | .open_ d _ _ => d.path = path

/-- Is this drafted for a document at the path? -/
structure Drafted.IsFor (path : Text) (x : Drafted) : Prop where
  own : x.path = path
  explained : Explained x.outcome x.register
  sheets : ∀ artifact, x.outcome = .ok (some artifact) → SheetsFor path artifact.stylesheets

/-- Has a document at the path come to this? -/
structure Finished.IsFor (path : Text) (f : Finished) : Prop where
  explained : Explained f.outcome f.register
  result : ∀ r, f.outcome = .ok (some r) → r.IsFor path

theorem Finished.IsFor.registered {path : Text} {f : Finished} (h : f.IsFor path) :
    f.registered.IsFor path := by
  rw [Finished.registered]
  split
  next result outcome => exact .added h.explained.silent (h.result result outcome)
  next => exact .silent h.explained.silent

namespace Compiler

variable {c : Compiler σ} {tree : FileTree} {inputs : List Input} {path : Text}

theorem isFor_draft {ticket : Ticket} (h : ticket.IsFor path) (c : Compiler σ) (tools : σ) :
    (c.draft tree ticket tools).1.elim (Finished.IsFor path) (Drafted.IsFor path) := by
  have explained := explained_draft c tree ticket tools
  cases ticket with
  | settled outcome =>
    refine ⟨explained, fun r hr => h r ?_⟩
    cases outcome with
    | error f => cases hr
    | ok r' => exact congrArg Except.ok (Option.some.inj (Except.ok.inj hr))
  | open_ d hot digest =>
    refine ⟨h, explained, fun artifact given => ?_⟩
    obtain rfl : d.path = path := h
    exact Step.sheetsFor_compileComponent ⟨{ tools }, given⟩

theorem isFor_lowerDraft {x : Drafted} (h : x.IsFor path) (c : Compiler σ) (tools : σ) :
    (c.lowerDraft tree x tools).1.IsFor path := by
  refine ⟨explained_lowerDraft c tree h.explained tools, fun r hr => ?_⟩
  rw [lowerDraft] at hr
  rcases drafted : x.outcome with e | (_ | artifact)
  · rw [drafted] at hr
    cases hr
  · rw [drafted] at hr
    cases hr
  · simp only [drafted] at hr
    rcases run : (Step.lowerModule c.project tree artifact x.path x.hot).from_
      ⟨tools, c.partitions, x.register, x.round, x.log⟩ with ⟨outcome, q⟩
    rw [run] at hr
    rcases outcome with e | (_ | m)
    · cases hr
    · cases hr
    · obtain rfl := Option.some.inj (Except.ok.inj hr)
      have sheets := h.sheets artifact drafted
      obtain rfl := h.own
      exact Step.isFor_of_lowerModule sheets ⟨_, congrArg Prod.fst run⟩

theorem isFor_hold {f : Finished} (h : f.IsFor path) (c : Compiler σ) : (c.hold f).1.IsFor path := by
  refine ⟨explained_hold c h.explained, ?_⟩
  rw [hold]
  split
  · split
    · exact h.result
    · intro r hr
      cases hr
  · exact h.result

/-- Behind the look-up, each document is followed by its own outputs, whatever the compiler holds. -/
theorem laterStages_isFor (tree : FileTree) (inputs : List Input) :
    LaterStages tree inputs (fun _ : Compiler σ => True) (fun ticket input => ticket.IsFor input.path)
      (fun x input => x.IsFor input.path) (fun f input => f.IsFor input.path)
      (fun f input => f.IsFor input.path) where
  draft _ h tools := isFor_draft h _ tools
  lower _ h tools := ⟨isFor_lowerDraft h _ tools, trivial⟩
  hold _ h := ⟨isFor_hold h _, trivial⟩

/-! ## Looking up -/

/-- Is everything right that can be recalled, from memory or from disk? -/
structure Recalls (Right : Text → Result → Prop) (c : Compiler σ) : Prop where
  memory : c.memory.Sound Right
  disk : ∀ s, c.disk = some s → ∀ digest payload result, s.get? digest = some payload →
    Result.ofJson? payload = .ok (some result) → Right digest result

variable {Right : Text → Result → Prop} {digest : Text} {result : Result}

theorem project_remember (c : Compiler σ) (digest : Text) (result : Result) (persist : Bool) :
    (c.remember digest result persist).1.project = c.project := by
  rw [remember]
  split
  · split <;> rfl
  · rfl

/-- What is held can be recalled, and on disk it is what it was. -/
theorem Recalls.remember (h : c.Recalls Right) (right : Right digest result)
    (text : result.HasText) (persist : Bool) : (c.remember digest result persist).1.Recalls Right := by
  have kept : ∀ s, (if persist then c.disk.map fun s => s.put digest result.toJson c.project.stamp
      else c.disk) = some s → ∀ digest payload result, s.get? digest = some payload →
        Result.ofJson? payload = .ok (some result) → Right digest result := by
    cases persist with
    | false => exact h.disk
    | true =>
      intro s hs name payload found look read
      obtain ⟨s', hs', rfl⟩ := Option.map_eq_some_iff.mp hs
      obtain ⟨fields, obj⟩ : ∃ fields, result.toJson = .obj fields := by
        cases result <;> exact ⟨_, rfl⟩
      rw [obj, Store.get?_put] at look
      split at look
      next same =>
        rw [← Option.some.inj look, ← obj, Result.ofJson?_toJson text] at read
        exact same ▸ Option.some.inj (Except.ok.inj read) ▸ right
      next => exact h.disk s' hs' name payload found look read
  rw [Compiler.remember]
  split
  · split
    · exact ⟨h.memory.remember right _, kept⟩
    · exact ⟨h.memory, kept⟩
  · exact ⟨h.memory, kept⟩

/-- What is recalled is right, and stays so. -/
theorem Recalls.fetch (h : c.Recalls Right) {found : Option Result} {c' : Compiler σ}
    (fetched : c.fetch digest = .ok (found, c')) :
    (∀ r, found = some r → Right digest r) ∧ c'.project = c.project ∧ c'.Recalls Right := by
  rw [Compiler.fetch] at fetched
  split at fetched
  next r memory look =>
    obtain ⟨rfl, rfl⟩ := Prod.mk.inj (Except.ok.inj fetched)
    obtain ⟨right, memory_⟩ := h.memory.fetch? look
    refine ⟨?_, rfl, memory_, h.disk⟩
    rintro _ ⟨⟩
    exact right
  next =>
    split at fetched
    next =>
      obtain ⟨rfl, rfl⟩ := Prod.mk.inj (Except.ok.inj fetched)
      refine ⟨fun r hr => ?_, rfl, h⟩
      cases hr
    next payload kept =>
      split at fetched
      next => cases fetched
      next =>
        obtain ⟨rfl, rfl⟩ := Prod.mk.inj (Except.ok.inj fetched)
        refine ⟨fun r hr => ?_, rfl, h⟩
        cases hr
      next r read =>
        obtain ⟨s, hs, look⟩ := Option.bind_eq_some_iff.mp kept
        have right := h.disk s hs _ _ _ look read
        have later := h.remember right (Result.hasText_of_ofJson? read) false
        have project := project_remember c digest r false
        split at fetched
        next c₁ held =>
          obtain ⟨rfl, rfl⟩ := Prod.mk.inj (Except.ok.inj fetched)
          rw [held] at later project
          refine ⟨?_, project, later⟩
          rintro _ ⟨⟩
          exact right
        next => cases fetched

end Compiler

/-- Is this a digest of the input, for some version that the markup tool may answer? -/
def Project.HasDigest (p : Project σ) (tree : FileTree) (input : Input) (digest : Text) : Prop :=
  ∃ d version tools, input.document p.hashing p.root tree = .ok d ∧
    (p.tools.version.run tools).1 = .ok version ∧
    (CacheKey.derive? d p.options input.hot version p.production p.runtimePackage).map
      (CacheKey.digest p.hashing) = some digest

/-- Is the result one of every input that has the digest? -/
def Project.Owns (p : Project σ) (tree : FileTree) (inputs : List Input) (digest : Text)
    (result : Result) : Prop :=
  ∀ input ∈ inputs, p.HasDigest tree input digest → result.IsFor input.path

namespace Compiler

variable {c : Compiler σ} {tree : FileTree} {inputs : List Input} {input : Input} {d : Document}
  {key : Option CacheKey} {tools tools' : σ}

/-- Does the compiler recall for each input only what is its own? -/
def RecallsOwn (c : Compiler σ) (tree : FileTree) (inputs : List Input) : Prop :=
  c.Recalls (c.project.Owns tree inputs)

theorem exists_of_run_key (run : (c.key tree input).run tools = (.ok (d, key), tools')) :
    input.document c.project.hashing c.project.root tree = .ok d ∧
      ∃ version, (c.project.tools.version.run tools).1 = .ok version ∧
        key = CacheKey.derive? d c.project.options input.hot version c.project.production
          c.project.runtimePackage := by
  cases document : input.document c.project.hashing c.project.root tree with
  | error f =>
    simp only [Compiler.key, document] at run
    cases run
  | ok d' =>
    have whole : (c.key tree input).run tools = (c.project.tools.version >>= fun version =>
        pure (d', CacheKey.derive? d' c.project.options input.hot version c.project.production
          c.project.runtimePackage) : Action σ _).run tools := by
      simp only [Compiler.key, document]
      rfl
    rw [whole, Action.run_bind] at run
    rcases answer : c.project.tools.version.run tools with ⟨outcome, s⟩
    rw [answer] at run
    cases outcome with
    | error f => cases run
    | ok version =>
      obtain ⟨rfl, rfl⟩ := Prod.mk.inj (Except.ok.inj (congrArg Prod.fst run))
      exact ⟨rfl, version, rfl, rfl⟩

theorem path_of_document {p : Project σ} (h : input.document p.hashing p.root tree = .ok d) :
    d.path = input.path := by
  rw [Input.document] at h
  cases text : input.text p.root tree with
  | error f => simp [text, bind, Except.bind] at h
  | ok content =>
    simp only [text, bind, Except.bind] at h
    split at h
    · cases h
    · obtain rfl := Except.ok.inj h
      rfl

theorem Recalls.lookup {Right : Text → Result → Prop} (h : c.Recalls Right) {digest : Option Text}
    {found : Option Result} {c' : Compiler σ} (looked : c.lookup digest = .ok (found, c')) :
    (∀ r, found = some r → ∃ g, digest = some g ∧ Right g r) ∧ c'.project = c.project ∧
      c'.Recalls Right := by
  cases digest with
  | none =>
    obtain ⟨rfl, rfl⟩ := Prod.mk.inj (Except.ok.inj looked)
    refine ⟨fun r hr => ?_, rfl, h⟩
    cases hr
  | some g =>
    obtain ⟨right, project, recalls⟩ := h.fetch looked
    exact ⟨fun r hr => ⟨g, rfl, right r hr⟩, project, recalls⟩

/-- A page can be held under any digest, for it is a result of every document. -/
theorem RecallsOwn.holdPage (h : c.RecallsOwn tree inputs) {page : Result}
    (isPage : Step.page? d = some page) (digest : Option Text) :
    (c.holdPage page digest).2.project = c.project ∧
      (c.holdPage page digest).2.RecallsOwn tree inputs := by
  cases digest with
  | none => exact ⟨rfl, h⟩
  | some g =>
    have text : page.HasText := by
      obtain ⟨sections, -, rfl⟩ := Option.map_eq_some_iff.mp isPage
      trivial
    have owns : c.project.Owns tree inputs g page :=
      fun input _ _ => Step.isFor_of_page? isPage input.path
    have project := project_remember c g page true
    refine ⟨project, ?_⟩
    show (c.remember g page true).1.Recalls
      ((c.remember g page true).1.project.Owns tree inputs)
    rw [project]
    exact Recalls.remember h owns text true

/-- **One look-up** gives a document its own outputs. -/
theorem RecallsOwn.start (h : c.RecallsOwn tree inputs) (mem : input ∈ inputs) (tools : σ) :
    (c.start tree input tools).1.IsFor input.path ∧
      (c.start tree input tools).2.1.RecallsOwn tree inputs := by
  rcases run : (c.key tree input).run tools with ⟨outcome, tools'⟩
  cases outcome with
  | error f =>
    rw [Compiler.start, run]
    refine ⟨fun r hr => ?_, h⟩
    cases hr
  | ok pair =>
    obtain ⟨d, key⟩ := pair
    obtain ⟨document, version, answer, rfl⟩ := exists_of_run_key run
    rw [start_eq run]
    split
    next =>
      refine ⟨fun r hr => ?_, h⟩
      cases hr
    next result c' looked =>
      obtain ⟨right, project, recalls⟩ := Recalls.lookup h looked
      obtain ⟨g, digest, owns⟩ := right result rfl
      refine ⟨?_, by rw [RecallsOwn, project]; exact recalls⟩
      rintro _ ⟨⟩
      exact owns input mem ⟨d, version, tools, document, answer, digest⟩
    next c' looked =>
      obtain ⟨-, project, recalls⟩ := Recalls.lookup h looked
      have later : c'.RecallsOwn tree inputs := by
        rw [RecallsOwn, project]
        exact recalls
      split
      next page isPage =>
        refine ⟨fun r hr => ?_, (later.holdPage isPage _).2⟩
        have only (failure : Option Failure)
            (h : failure.elim (Except.ok page) .error = (.ok r : Except Failure Result)) :
            page = r := by
          cases failure with
          | none => exact Except.ok.inj h
          | some f => cases h
        obtain rfl := only _ hr
        exact Step.isFor_of_page? isPage input.path
      next => exact ⟨path_of_document document, later⟩

/-- **What a batch registers for a document is named after it.** -/
theorem RecallsOwn.registers (h : c.RecallsOwn tree inputs) (tools : σ) :
    List.Forall₂ (fun register input => register.IsFor input.path)
      (c.process tree tools inputs).registers inputs := by
  obtain ⟨tickets, -⟩ := @forall₂_startAll σ tree inputs (·.RecallsOwn tree inputs)
    (fun ticket input => ticket.IsFor input.path) c (fun own mem => own.start mem) inputs
    (fun _ mem => mem) h tools
  obtain ⟨finished, -⟩ := (laterStages_isFor tree inputs).compileAll tickets trivial
  rw [registers_process, List.forall₂_map_left_iff]
  exact finished.imp fun f input h => h.registered

theorem recalls_fresh (p : Project σ) (cacheSize : Int) (Right : Text → Result → Prop) :
    (fresh p cacheSize).Recalls Right := ⟨nofun, nofun⟩

end Compiler

/-! ## What caches recall -/

namespace Setting

variable {w : Setting σ} {c : Compiler σ} {tree : FileTree} {inputs : List Input}

theorem Sound.recallsOwn (sound : w.Sound c) (h : w.Cacheable)
    (known : ∀ input ∈ inputs, w.Knows tree input) : c.RecallsOwn tree inputs := by
  have owns {digest : Text} {r : Result} (right : w.RightResult digest r) :
      c.project.Owns tree inputs digest r := by
    rw [sound.project]
    rintro input mem ⟨d, version, tools, document, answer, digest_⟩
    obtain rfl : w.version = version := Except.ok.inj ((h.answers tools).symm.trans answer)
    have mem := known input mem d document
    -- compiling the document gives the same, but for the order of fields
    have same := right.normal_eq h mem digest_
    obtain ⟨outcome, q, run, -, expected⟩ :=
      Step.exists_compileOne h (.refl h.steady w.base) mem w.tools w.tools
    obtain ⟨r', given, normal⟩ := Option.map_eq_some_iff.mp (expected.trans same.symm)
    have isFor : r'.IsFor d.path := Step.isFor_of_compileOne
      ⟨_, (congrArg Prod.fst run).trans (given?_eq_some_iff.mp given)⟩
    rw [← Compiler.path_of_document document]
    exact isFor.of_normal_eq normal.symm
  refine ⟨fun held mem => owns (sound.memory held mem), fun s hs digest payload result look read => ?_⟩
  obtain ⟨-, right⟩ := (sound.disk s hs).1.of_get? look
  obtain ⟨r, read', right⟩ := RightPayload.exists_ofJson? h right
  obtain rfl := Option.some.inj (Except.ok.inj (read'.symm.trans read))
  exact owns right

/-- **After any history, a compiler recalls for each document only what is named after it.** -/
theorem Reached.recallsOwn {s : Workplace σ} (reached : w.Reached s) (h : w.Cacheable)
    (fits : w.scope.Fits w.version w.dir) (allowed : w.Allows s.tree inputs) :
    s.compiler.RecallsOwn s.tree inputs :=
  (reached.sound h fits).1.recallsOwn h allowed.known

end Setting

end Componentry
