import Componentry.Document
import Componentry.Proofs.Cache.Key
import Componentry.Proofs.Pipeline.Lowering

/-!
# Compiling without caches

What a document compiles to when nothing is held of earlier compiles, and what is registered for it
then. With steady tools this is a function of the document, of whether its module is to be
replaceable, and of the files that styles read. It does not depend on the state of the tools, and
documents with one digest have it in common.
-/

namespace Componentry

variable {σ : Type}

/-! ## What is registered -/

/-- What an outcome gives in the end, if anything. -/
def given? {α : Type} : Except Failure (Option α) → Option α
  | .ok a => a
  | .error _ => none

theorem given?_map {α β : Type} (f : α → β) (r : Except Failure (Option α)) :
    given? (r.map (Option.map f)) = (given? r).map f := by
  cases r <;> rfl

namespace Register

/-- What is registered of modules, stylesheets and sections, with the fields of maps in order. -/
def outputs (r : Register) : List Module × List Stylesheet × List HtmlPart :=
  (r.modules.map Module.normal, r.stylesheets.map Stylesheet.normal, r.html)

theorem Silent.outputs {r : Register} (h : r.Silent) : r.outputs = ({} : Register).outputs := by
  simp only [Register.outputs, h.modules, h.stylesheets, h.html]

/-- A result registered, if there is one. -/
def addAny (r : Register) : Option Result → Register
  | some result => r.add result
  | none => r

theorem outputs_addAny_congr {r r' : Register} {x x' : Option Result} (h : r.outputs = r'.outputs)
    (hx : x.map Result.normal = x'.map Result.normal) :
    (r.addAny x).outputs = (r'.addAny x').outputs := by
  simp only [outputs, Prod.mk.injEq] at h
  obtain ⟨modules, stylesheets, html⟩ := h
  cases x with
  | none =>
    cases x' with
    | none => simp only [addAny, outputs, modules, stylesheets, html]
    | some result' => cases hx
  | some result =>
    cases x' with
    | none => cases hx
    | some result' =>
      have same : result.normal = result'.normal := Option.some.inj hx
      cases result with
      | page parts =>
        cases result' with
        | page parts' =>
          cases same
          simp only [addAny, add, outputs, modules, stylesheets, html]
        | code m' => cases same
      | code m =>
        cases result' with
        | page parts' => cases same
        | code m' =>
          have same : m.normal = m'.normal := Result.code.inj same
          have sheets : m.stylesheets.map Stylesheet.normal = m'.stylesheets.map Stylesheet.normal :=
            (congrArg Module.stylesheets same :)
          simp only [addAny, add, outputs, List.map_append, List.map_cons, List.map_nil, modules,
            stylesheets, html, same, sheets]

end Register

theorem Result.map_code_normal {a b : Option Module} (h : a.map Module.normal = b.map Module.normal) :
    (a.map Result.code).map Result.normal = (b.map Result.code).map Result.normal := by
  have out (m : Option Module) :
      (m.map Result.code).map Result.normal = (m.map Module.normal).map Result.code := by
    cases m <;> rfl
  rw [out, out, h]

/-! ## One document -/

namespace Step

/-- Compiles a document, from its text alone unless there are partitions. -/
def compileOne (p : Project σ) (tree : FileTree) (document : Document) (hot : Bool) :
    Step σ (Option Result) :=
  match page? document with
  | some page => return some page
  | none => do
    let some artifact ← compileComponent p tree document hot | return none
    return (← lowerModule p tree artifact document.path hot).map .code

/-- Can the step give `a`, from nothing? -/
def Gives {α : Type} (s : Step σ α) (a : α) : Prop :=
  ∃ tools : σ, (s.from_ { tools }).1 = .ok a

end Step

namespace Project

variable (p : Project σ)

/-- What is registered for an input by a compiler that holds nothing and has no cache directory. -/
def uncached (tree : FileTree) (tools : σ) (input : Input) : Register :=
  match input.document p.hashing p.root tree with
  | .error _ => {}
  | .ok document =>
    let (outcome, q) := (Step.compileOne p tree document input.hot).from_ { tools }
    q.register.addAny (given? outcome)

/-- The digest of a document's key, if what it compiles to may be kept. -/
def digest? (version : Text) (d : Document) (hot : Bool) : Option Text :=
  (CacheKey.derive? d p.options hot version p.production p.runtimePackage).map
    (CacheKey.digest p.hashing)

/-- What of a document is to be lowered. -/
def draft (tree : FileTree) (s : σ) (d : Document) (hot : Bool) : Except Failure (Option Artifact) :=
  ((Step.compileComponent p tree d hot).from_ { tools := s }).1

/-- The module that an artifact is lowered to, by tools in a state. -/
def lowersModule (s : σ) (path : Text) (artifact : Artifact) : Option Module :=
  match artifact.code with
  | .str code => (p.lowerer.lowersTo s path code >>= Step.finish artifact path).toOption
  | _ => none

/-- What a document compiles to, by tools in a state. -/
def expected (tree : FileTree) (s : σ) (d : Document) (hot : Bool) : Option Result :=
  match Step.page? d with
  | some page => some page
  | none => ((given? (p.draft tree s d hot)).bind (p.lowersModule s d.path)).map .code

/-- Is this code that is lowered at a path for one of the documents? -/
def Occurs (base : FileTree) (docs : Document → Bool → Prop) (path code : Text) : Prop :=
  ∃ d hot artifact, docs d hot ∧ Step.page? d = none ∧ d.path = path ∧
    (Step.compileComponent p base d hot).Gives (some artifact) ∧ artifact.code = .str code

/-- The texts whose digests name entries for the documents, in stores of results and of lowered
code. -/
inductive Hashed (base : FileTree) (version : Text) (docs : Document → Bool → Prop) : Text → Prop
  | key (d : Document) (hot : Bool) (k : CacheKey) (mem : docs d hot)
      (derived : CacheKey.derive? d p.options hot version p.production p.runtimePackage = some k) :
      Hashed base version docs k.text
  | lowering (path code : Text) (occurs : p.Occurs base docs path code) :
      Hashed base version docs (loweringText path code)

/-- Can what the documents compile to be kept, and be told apart? The tools are functions of what
they are given, hash functions do not collide on what is hashed, and what tools give can be written
and read back. -/
structure Cacheable (base : FileTree) (version : Text) (docs : Document → Bool → Prop) : Prop where
  steady : p.tools.Steady
  answers : ∀ s, (p.tools.version.run s).1 = .ok version
  sourceDigests : ∀ s, (p.hashing.source s).Whole
  entryDigests : ∀ s, (p.hashing.entry s).Whole
  stamp : p.stamp.Whole
  named : ∀ d hot, docs d hot → d.sourceHash = p.hashing.source d.content
  path : ∀ d hot, docs d hot → d.path.Whole ∧ .char '\x00' ∉ d.path
  sources : ∀ d hot d' hot', docs d hot → docs d' hot' →
    p.hashing.source d.content = p.hashing.source d'.content → d.content = d'.content
  entries : ∀ t t', p.Hashed base version docs t → p.Hashed base version docs t' →
    p.hashing.entry t = p.hashing.entry t' → t = t'
  code : ∀ d hot artifact, docs d hot → Step.page? d = none →
    (Step.compileComponent p base d hot).Gives (some artifact) → ∃ code, artifact.code = .str code
  lowerings : ∀ path code t, p.Occurs base docs path code → p.lowerer.Lowers path code t → t.isOutput →
    t.payload.Keepable ∧ (∃ s, t.code = .str s) ∧ ∀ items, t.map ≠ some (.arr items)
  results : ∀ d hot r, docs d hot → (Step.compileOne p base d hot).Gives (some r) → r.Keepable

variable {p} {base : FileTree} {version : Text} {docs : Document → Bool → Prop}

theorem StylesAgree.refl (steady : p.tools.Steady) (t : FileTree) : p.StylesAgree t t where
  transform tool given _ _ _ := steady.styleTransform tool given _ _ _ _
  watched _ _ _ _ _ _ _ _ _ := rfl

theorem Cacheable.keepsLowerings (h : p.Cacheable base version docs) :
    p.lowerer.Keeps (p.Occurs base docs) where
  noNull := by
    rintro path code ⟨d, hot, artifact, mem, -, rfl, -, -⟩
    exact (h.path d hot mem).2
  noCollision path code path' code' occurs occurs' :=
    h.entries _ _ (.lowering path code occurs) (.lowering path' code' occurs')
  whole _ _ _ := h.entryDigests _
  keepable := h.lowerings

end Project

/-! ## From whatever partitions -/

namespace Step

variable {p : Project σ} {base tree : FileTree} {version : Text} {docs : Document → Bool → Prop}
  {d : Document} {hot : Bool}

/-- What lowering finds for the documents. -/
abbrev Ready (p : Project σ) (base : FileTree) (version : Text) (docs : Document → Bool → Prop)
    (tree : FileTree) (ps : Partitions) : Prop :=
  Prepared (p.lowering tree) version (p.lowerer.Right (p.Occurs base docs)) ps

/-- **A module is lowered to what is expected**, up to the order of fields, and nothing is
registered by that. -/
theorem exists_lowerModule (h : p.Cacheable base version docs) {artifact : Artifact}
    {path code : Text} (text : artifact.code = .str code) (occurs : p.Occurs base docs path code)
    (hot : Bool) {q : Progress σ} (ready : Ready p base version docs tree q.partitions) (s₀ : σ) :
    ∃ r q', (lowerModule p tree artifact path hot).from_ q = (r, q') ∧
      Ready p base version docs tree q'.partitions ∧ q'.partitions.cache = q.partitions.cache ∧
      q'.register.outputs = q.register.outputs ∧
      (given? r).map Module.normal = (p.lowersModule s₀ path artifact).map Module.normal := by
  obtain ⟨r, tools, ps, log, run, ready', served, agree⟩ := exists_lower
    (c := p.lowering tree) h.steady.lowerer h.keepsLowerings h.stamp text occurs hot ready s₀
  have beside := served.cache
  have ran : (outcome (job (lower (p.lowering tree) artifact path hot))).from_ q =
      (.ok r, { q with tools, partitions := ps, log, round := q.round + 2 }) := by
    simp only [outcome, job, from_of, run]
  have value : p.lowersModule s₀ path artifact =
      (p.lowerer.lowersTo s₀ path code >>= finish artifact path).toOption := by
    rw [Project.lowersModule, text]
  rw [value, lowerModule, from_bind, ran]
  change Agree _ r (p.lowerer.lowersTo s₀ path code >>= finish artifact path) at agree
  generalize (p.lowerer.lowersTo s₀ path code >>= finish artifact path) = pure_ at agree
  cases agree with
  | ok same => exact ⟨_, _, rfl, ready', beside, rfl, congrArg some same⟩
  | error f =>
    dsimp only
    split
    · rw [from_bind, check, from_of]
      -- A complaint that has no place is raised and not reported; there is no module either way.
      cases Report.ofLowering f with
      | error e => exact ⟨_, _, rfl, ready', beside, rfl, rfl⟩
      | ok report => exact ⟨_, _, rfl, ready', beside, rfl, rfl⟩
    · exact ⟨_, _, rfl, ready', beside, rfl, rfl⟩

/-- **A component is drafted to what is expected** among files that styles cannot tell apart, and
nothing is registered by that. -/
theorem exists_compileComponent (steady : p.tools.Steady) (styles : p.StylesAgree base tree)
    (d : Document) (hot : Bool) (tools s₀ : σ) :
    ∃ q, (compileComponent p tree d hot).from_ { tools } = (p.draft base s₀ d hot, q) ∧
      q.partitions = {} ∧ q.register.outputs = ({} : Register).outputs := by
  obtain ⟨tools', run⟩ := alike_compileComponent steady styles d hot { tools := s₀ } tools
  have silent := reporting_silent.compileComponent p base d hot { tools := s₀ } ⟨rfl, rfl, rfl⟩
  refine ⟨_, run, reporting_partitions.compileComponent p base d hot { tools := s₀ }, ?_⟩
  exact silent.outputs

/-- What is drafted can be drafted from nothing, by tools in any state. -/
theorem gives_of_draft {s₀ : σ} {artifact : Artifact}
    (drafted : p.draft base s₀ d hot = .ok (some artifact)) :
    (compileComponent p base d hot).Gives (some artifact) := ⟨s₀, drafted⟩

/-- No partitions at all are ready. -/
theorem ready_empty (h : p.Cacheable base version docs) (tree : FileTree) :
    Ready p base version docs tree {} where
  answers := h.answers
  sound := .moved none
  fits := by rintro cache ⟨⟩
  keeps := by rintro cache ⟨⟩

/-- **A document is compiled to what is expected**, up to the order of fields, and nothing is
registered by that. -/
theorem exists_compileOne (h : p.Cacheable base version docs) (styles : p.StylesAgree base tree)
    (mem : docs d hot) (tools s₀ : σ) :
    ∃ r q, (compileOne p tree d hot).from_ { tools } = (r, q) ∧
      q.register.outputs = ({} : Register).outputs ∧
      (given? r).map Result.normal = (p.expected base s₀ d hot).map Result.normal := by
  cases page : page? d with
  | some result =>
    refine ⟨.ok (some result), { tools }, ?_, rfl, ?_⟩
    · rw [compileOne, page]
      rfl
    · rw [Project.expected, page]
      rfl
  | none =>
    obtain ⟨q, run, partitions, silent⟩ :=
      exists_compileComponent h.steady styles d hot tools s₀
    have value : p.expected base s₀ d hot =
        ((given? (p.draft base s₀ d hot)).bind (p.lowersModule s₀ d.path)).map .code := by
      rw [Project.expected, page]
    rw [value, compileOne, page]
    dsimp only
    rw [from_bind, run]
    cases drafted : p.draft base s₀ d hot with
    | error f => exact ⟨_, _, rfl, silent, rfl⟩
    | ok artifact =>
      cases artifact with
      | none => exact ⟨_, _, rfl, silent, rfl⟩
      | some artifact =>
        have gives := gives_of_draft drafted
        obtain ⟨code, text⟩ := h.code d hot artifact mem page gives
        have ready : Ready p base version docs tree q.partitions := partitions ▸ ready_empty h tree
        obtain ⟨r, q', lowered, -, -, silent', same⟩ :=
          exists_lowerModule h text ⟨d, hot, artifact, mem, page, rfl, gives, text⟩ hot ready s₀
        refine ⟨r.map (Option.map .code), q', ?_, silent'.trans silent, ?_⟩
        · dsimp only
          rw [from_bind, lowered]
          cases r <;> rfl
        · rw [given?_map]
          exact Result.map_code_normal same

end Step

/-! ## What is expected of a document -/

theorem given?_eq_some_iff {α : Type} {r : Except Failure (Option α)} {a : α} :
    given? r = some a ↔ r = .ok (some a) := by
  cases r with
  | error f => simp [given?]
  | ok a' => simp [given?]

/-- Do the documents have in common what compiling them can see? -/
structure Document.Alike (d d' : Document) : Prop where
  path : d.path = d'.path
  content : d.content = d'.content
  server : d.isServer = d'.isServer

namespace Project

variable {p : Project σ} {base tree : FileTree} {version : Text} {docs : Document → Bool → Prop}
  {d d' : Document} {hot hot' : Bool}

theorem Cacheable.keepable (h : p.Cacheable base version docs) (mem : docs d hot) {s₀ : σ}
    {r : Result} (value : p.expected base s₀ d hot = some r) : r.Keepable := by
  obtain ⟨outcome, q, run, -, same⟩ :=
    Step.exists_compileOne h (.refl h.steady base) mem s₀ s₀
  rw [value] at same
  obtain ⟨r', given, normal⟩ := Option.map_eq_some_iff.mp same
  have gives : (Step.compileOne p base d hot).Gives (some r') :=
    ⟨s₀, by rw [run]; exact given?_eq_some_iff.mp given⟩
  exact (h.results d hot r' mem gives).of_normal_eq normal.symm

/-- **What is registered without caches is what is expected.** -/
theorem Cacheable.outputs_uncached (h : p.Cacheable base version docs)
    (styles : p.StylesAgree base tree) {input : Input}
    (document : input.document p.hashing p.root tree = .ok d) (mem : docs d input.hot)
    (tools s₀ : σ) : (p.uncached tree tools input).outputs =
      (({} : Register).addAny (p.expected base s₀ d input.hot)).outputs := by
  obtain ⟨r, q, run, silent, same⟩ := Step.exists_compileOne h styles mem tools s₀
  rw [uncached, document]
  dsimp only
  rw [run]
  exact Register.outputs_addAny_congr silent same

theorem compileComponent_congr (h : d.Alike d') (hot : Bool) :
    Step.compileComponent p tree d hot = Step.compileComponent p tree d' hot := by
  obtain ⟨path, content, arch, package, sourceHash⟩ := d
  obtain ⟨path', content', arch', package', sourceHash'⟩ := d'
  obtain ⟨rfl, rfl, server⟩ := h
  simp only [Step.compileComponent, Step.moduleStylesheets, MarkupOptions.ofDocument, server]
  rfl

/-- Documents that compiling cannot tell apart are compiled to the same. -/
theorem expected_congr (h : d.Alike d') (s : σ) (hot : Bool) :
    p.expected tree s d hot = p.expected tree s d' hot := by
  rw [expected, expected, draft, draft, compileComponent_congr h, Step.page?, Step.page?, h.path,
    h.content]

/-- **A digest tells documents apart**, as far as compiling can. -/
theorem Cacheable.alike_of_digest? (h : p.Cacheable base version docs) (mem : docs d hot)
    (mem' : docs d' hot') {digest : Text} (found : p.digest? version d hot = some digest)
    (found' : p.digest? version d' hot' = some digest) : d.Alike d' ∧ hot = hot' := by
  obtain ⟨k, derived, digest_⟩ := Option.map_eq_some_iff.mp found
  obtain ⟨k', derived', digest_'⟩ := Option.map_eq_some_iff.mp found'
  have text : k.text = k'.text :=
    h.entries _ _ (.key d hot k mem derived) (.key d' hot' k' mem' derived')
      (digest_.trans digest_'.symm)
  rw [CacheKey.derive?, Option.ite_none_left_eq_some] at derived derived'
  obtain ⟨-, ⟨⟩⟩ := derived
  obtain ⟨-, ⟨⟩⟩ := derived'
  obtain ⟨arch, hot_, path, source⟩ := CacheKey.text_inj (by exact ⟨rfl, rfl, rfl⟩) text
  have path_ : d.path = d'.path := by
    rw [← (h.path d hot mem).1, ← (h.path d' hot' mem').1]
    exact path
  have digests : p.hashing.source d.content = p.hashing.source d'.content := by
    rw [← h.sourceDigests d.content, ← h.sourceDigests d'.content, ← h.named d hot mem,
      ← h.named d' hot' mem']
    exact source
  exact ⟨⟨path_, h.sources _ _ _ _ mem mem' digests, Document.isServer_eq arch⟩, hot_⟩

end Project

end Componentry
