import Componentry.Proofs.Compiler.Batch
import Componentry.Proofs.Pipeline.Reuse

/-!
# Histories

A project is compiled again and again. Batches follow each other, a compiler is started anew with
the cache directory or without it, and files are edited in between. What a compiler registers for a
document is then what one registers that holds nothing of earlier compiles, whatever has happened
before: every step of a history keeps the compiler sound and the files of its caches right.
-/

namespace Componentry

variable {σ : Type}

/-- A compiler at work: its tools in their state, among the files. -/
structure Workplace (σ : Type) where
  compiler : Compiler σ
  tools : σ
  tree : FileTree

/-- The workplace after a batch. -/
def Workplace.after (s : Workplace σ) (inputs : List Input) : Workplace σ :=
  let batch := s.compiler.process s.tree s.tools inputs
  ⟨batch.compiler, batch.tools, batch.tree⟩

namespace Setting

section

variable (w : Setting σ)

/-- Is this the place of a file that the caches are kept in? -/
def IsCacheFile (loc : Location) : Prop :=
  loc = (w.dir.child "compile-cache.json").location ∨
    ∃ hot d, w.scope.directory w.dir w.version hot = .ok d ∧ loc = (d.child "cache.json").location

/-- Was the compiler just started, with the cache directory or without it? -/
def Starts (tree : FileTree) (c : Compiler σ) : Prop :=
  ∃ cacheSize, c = .fresh w.project cacheSize ∨
    (Compiler.fresh w.project cacheSize).withCacheDir tree w.dir = .ok c

/-- Can the inputs be compiled among the files? Styles find there what they always find, and the
documents are among those of the setting. -/
structure Allows (tree : FileTree) (inputs : List Input) : Prop where
  styles : w.project.StylesAgree w.base tree
  known : ∀ input ∈ inputs, w.Knows tree input

/-- What a project can come to, from no files in the caches. -/
inductive Reached : Workplace σ → Prop
  | start {c : Compiler σ} {tree : FileTree} (tools : σ)
      (empty : ∀ loc, w.IsCacheFile loc → tree.bytesAt? loc = none) (starts : w.Starts tree c) :
      Reached ⟨c, tools, tree⟩
  | batch {s : Workplace σ} {inputs : List Input} (reached : Reached s)
      (allowed : w.Allows s.tree inputs) : Reached (s.after inputs)
  | restart {s : Workplace σ} {c : Compiler σ} (reached : Reached s) (starts : w.Starts s.tree c) :
      Reached { s with compiler := c }
  /-- Files other than those of the caches are changed from outside. -/
  | edit {s : Workplace σ} {tree : FileTree} (reached : Reached s)
      (same : ∀ loc, w.IsCacheFile loc → tree.bytesAt? loc = s.tree.bytesAt? loc) :
      Reached { s with tree }

end

variable {w : Setting σ}

/-! ## The files of the caches -/

/-- Whether the files of the caches are right can be told from these files alone. -/
theorem Holds.of_bytesAt?_eq {t t' : FileTree} (h : w.Holds t)
    (same : ∀ loc, w.IsCacheFile loc → t'.bytesAt? loc = t.bytesAt? loc) : w.Holds t' where
  results := h.results.of_bytesAt?_eq (same _ (.inl rfl))
  lowerings hot d directory :=
    (h.lowerings hot d directory).of_bytesAt?_eq (same _ (.inr ⟨hot, d, directory, rfl⟩))

theorem holds_of_absent {t : FileTree} (empty : ∀ loc, w.IsCacheFile loc → t.bytesAt? loc = none) :
    w.Holds t where
  results _ found := absurd ((empty _ (.inl rfl)).symm.trans found) nofun
  lowerings hot d directory _ found :=
    absurd ((empty _ (.inr ⟨hot, d, directory, rfl⟩)).symm.trans found) nofun

/-- A compiler that was just started over the files of sound stores is sound. -/
theorem Starts.sound {tree : FileTree} {c : Compiler σ} (starts : w.Starts tree c)
    (holds : w.Holds tree) (fits : w.scope.Fits w.version w.dir) : w.Sound c := by
  obtain ⟨cacheSize, rfl | opened⟩ := starts
  · exact .fresh cacheSize
  · obtain ⟨c', opened', sound⟩ := Sound.exists_withCacheDir holds fits cacheSize
    rw [opened, Except.ok.injEq] at opened'
    exact opened' ▸ sound

/-! ## Histories -/

/-- **Every history leaves a sound compiler among the files of sound stores.** -/
theorem Reached.sound {s : Workplace σ} (reached : w.Reached s) (h : w.Cacheable)
    (fits : w.scope.Fits w.version w.dir) : w.Sound s.compiler ∧ w.Holds s.tree := by
  -- over the events: only a batch writes to the caches, and only a start reads them anew
  induction reached with
  | start tools empty starts =>
    have holds := holds_of_absent empty
    exact ⟨starts.sound holds fits, holds⟩
  | @batch s inputs _ allowed ih =>
    exact (ih.1.process ih.2 h allowed.styles allowed.known s.tools).2
  | restart _ starts ih => exact ⟨starts.sound ih.2 fits, ih.2⟩
  | edit _ same ih => exact ⟨ih.1, ih.2.of_bytesAt?_eq same⟩

/-- What is registered without caches is what is expected of the input. -/
theorem outputs_uncached_of_knows {tree : FileTree} {input : Input} (h : w.Cacheable)
    (styles : w.project.StylesAgree w.base tree) (known : w.Knows tree input) (tools : σ) :
    (w.project.uncached tree tools input).outputs =
      (({} : Register).addAny (w.expectedOf tree input)).outputs := by
  cases document : input.document w.project.hashing w.project.root tree with
  | error f =>
    rw [Project.uncached, expectedOf, document]
    rfl
  | ok d =>
    rw [expectedOf_eq document]
    exact h.outputs_uncached styles document (known d document) tools w.tools

/-- **Caches change nothing.** After any history, a batch registers for each of its documents what is
registered for it without memory and without a cache directory, up to the order of fields in maps;
and a compiler can always be started over the cache directory. -/
theorem registers_eq_uncached (h : w.Cacheable) (fits : w.scope.Fits w.version w.dir)
    {s : Workplace σ} (reached : w.Reached s) {inputs : List Input}
    (allowed : w.Allows s.tree inputs) :
    List.Forall₂ (fun register input =>
        ∀ tools, register.outputs = (w.project.uncached s.tree tools input).outputs)
      (s.compiler.process s.tree s.tools inputs).registers inputs ∧
    ∀ cacheSize, ∃ c, (Compiler.fresh w.project cacheSize).withCacheDir s.tree w.dir = .ok c := by
  obtain ⟨sound, holds⟩ := reached.sound h fits
  obtain ⟨expected, -⟩ := sound.process holds h allowed.styles allowed.known s.tools
  constructor
  · rw [List.forall₂_iff_get] at expected ⊢
    obtain ⟨length, expected⟩ := expected
    refine ⟨length, fun i hi hi' tools => ?_⟩
    rw [expected i hi hi']
    have known := allowed.known (inputs.get ⟨i, hi'⟩) (List.get_mem ..)
    exact (outputs_uncached_of_knows h allowed.styles known tools).symm
  · intro cacheSize
    obtain ⟨c, opened, -⟩ := Sound.exists_withCacheDir holds fits cacheSize
    exact ⟨c, opened⟩

/-! ## An instance -/

/-- A project with a tool for markup, of some version, and one for lowering. -/
def sampleProject (version : Text) : Project Unit where
  options := {}
  production := false
  runtimePackage := none
  tools := {
    markup := return { version := return version, compile := fun _ _ => return { code := .str "m" } }
    script := throw (.setup (.noTool "script"))
    style := throw (.setup (.noTool "style"))
    hot := throw (.setup (.noTool "hot"))
    lowering := return { lower := fun _ _ => return {
      code := .str "l", map := some (.obj [("version", .int 3), ("mappings", .str "")]) } } }
  root := ⟨true, [], false⟩
  cwd := ⟨true, [], false⟩
  hashing := {
    source := fun s => s.filter fun c => !c.isHalf
    entry := fun s => s.filter fun c => !c.isHalf
    options := fun _ => "0" }
  stamp := "now"

/-- A component. -/
def sampleInput : Input := { path := "A", content := some "<p>x</p>" }

/-- The document of the component. -/
def sampleDocument : Document := { path := "A", content := "<p>x</p>", sourceHash := "<p>x</p>" }

/-- The project with this component alone, and a cache directory. -/
def sample : Setting Unit where
  project := sampleProject "3"
  base := ⟨[], []⟩
  version := "3"
  docs d hot := d = sampleDocument ∧ hot = false
  tools := ()
  dir := ⟨true, ["cache"], false⟩

theorem gives_sample {artifact : Option Artifact}
    (h : (Step.compileComponent (sampleProject "3") ⟨[], []⟩ sampleDocument false).Gives artifact) :
    artifact = some { code := .str "m" } := by
  obtain ⟨_, h⟩ := h
  exact (Except.ok.inj h).symm

/-- What the component compiles to. -/
def sampleResult : Result := .code {
  sourcePath := "A", path := "A", data := .str "l"
  sourceMap := .obj [("version", .int 3), ("mappings", .str "")] }

theorem keepable_sampleResult : sampleResult.Keepable :=
  ⟨⟨⟨_, rfl⟩, nofun⟩, by decide, by decide⟩

theorem occurs_sample {path code : Text}
    (h : (sampleProject "3").Occurs ⟨[], []⟩ sample.docs path code) :
    path = "A" ∧ code = "m" := by
  obtain ⟨_, _, artifact, ⟨rfl, rfl⟩, -, rfl, gives, text⟩ := h
  obtain rfl := Option.some.inj (gives_sample gives)
  exact ⟨rfl, (Json.str.inj text).symm⟩

/-- The key starts with a brace, and the text for lowering does not. -/
theorem entry_sample_ne {k : CacheKey} {path code : Text}
    (occurs : (sampleProject "3").Occurs ⟨[], []⟩ sample.docs path code) :
    (sampleProject "3").hashing.entry k.text ≠
      (sampleProject "3").hashing.entry (loweringText path code) := by
  obtain ⟨rfl, rfl⟩ := occurs_sample occurs
  rw [CacheKey.text_eq]
  intro same
  have first : CodePoint.char '\x7b' = .char 'A' := (List.cons.inj same).1
  exact absurd first (by decide)

theorem cacheable_sample : sample.Cacheable where
  steady := {
    markup _ _ := rfl
    script _ _ := rfl
    style _ _ := rfl
    hot _ _ := rfl
    lowering _ _ := rfl
    version _ _ _ _ := rfl
    compile _ _ _ _ _ _ := rfl
    scriptTransform _ _ _ _ _ _ _ := rfl
    styleTransform _ _ _ _ _ _ _ _ := rfl
    instrument _ _ _ _ _ := rfl
    lower _ _ _ _ _ _ := rfl }
  answers _ := rfl
  sourceDigests s := Text.whole_of_not_isHalf fun c hc => by simpa using (List.mem_filter.mp hc).2
  entryDigests s := Text.whole_of_not_isHalf fun c hc => by simpa using (List.mem_filter.mp hc).2
  stamp := by decide
  named := by
    rintro _ _ ⟨rfl, -⟩
    rfl
  path := by
    rintro _ _ ⟨rfl, -⟩
    decide
  sources := by
    rintro _ _ _ _ ⟨rfl, -⟩ ⟨rfl, -⟩ -
    rfl
  entries := by
    intro t t' h h' same
    cases h with
    | key _ _ k mem derived =>
      obtain ⟨rfl, rfl⟩ := mem
      cases h' with
      | key _ _ k' mem' derived' =>
        obtain ⟨rfl, rfl⟩ := mem'
        rw [Option.some.inj (derived.symm.trans derived')]
      | lowering path code occurs => exact absurd same (entry_sample_ne occurs)
    | lowering path code occurs =>
      cases h' with
      | key _ _ k' _ _ => exact absurd same.symm (entry_sample_ne occurs)
      | lowering path' code' occurs' =>
        obtain ⟨rfl, rfl⟩ := occurs_sample occurs
        obtain ⟨rfl, rfl⟩ := occurs_sample occurs'
        rfl
  code := by
    rintro _ _ artifact ⟨rfl, rfl⟩ - gives
    obtain rfl := Option.some.inj (gives_sample gives)
    exact ⟨_, rfl⟩
  lowerings := by
    rintro _ _ t - ⟨_, ⟨_, ⟨⟩⟩, ⟨_, ⟨⟩⟩⟩ -
    exact ⟨⟨⟨_, rfl⟩, by decide, by decide⟩, ⟨_, rfl⟩, nofun⟩
  results := by
    rintro _ _ r ⟨rfl, rfl⟩ ⟨_, gives⟩
    have value : r = sampleResult := (Option.some.inj (Except.ok.inj gives)).symm
    rw [value]
    exact keepable_sampleResult

theorem fits_sample : sample.scope.Fits "3" sample.dir where
  digests _ := by show Text.IsNamePart "0"; decide
  version := by decide
  named := by decide
  single := by decide
  nameable := by decide

theorem allows_sample (tree : FileTree) : sample.Allows tree [sampleInput] where
  styles := ⟨nofun, nofun⟩
  known := by
    intro input hi d document
    obtain rfl := List.mem_singleton.mp hi
    exact ⟨(Except.ok.inj document).symm, rfl⟩

/-- A component is registered as without caches when a compiler finds it in the cache directory. -/
theorem registers_after_restart :
    ∃ c c' : Compiler Unit,
      (Compiler.fresh (sampleProject "3") 100).withCacheDir ⟨[], []⟩ sample.dir = .ok c ∧
      let tree := (c.process ⟨[], []⟩ () [sampleInput]).tree
      (Compiler.fresh (sampleProject "3") 100).withCacheDir tree sample.dir = .ok c' ∧
      (c'.process tree () [sampleInput]).registers.map Register.outputs =
        [((sampleProject "3").uncached tree () sampleInput).outputs] := by
  -- a batch with an empty cache directory, a restart over what it wrote, and the batch again
  have bare : sample.Reached ⟨.fresh (sampleProject "3") 0, (), ⟨[], []⟩⟩ :=
    .start () (fun _ _ => rfl) ⟨0, .inl rfl⟩
  obtain ⟨-, opens⟩ := registers_eq_uncached cacheable_sample fits_sample bare (allows_sample _)
  obtain ⟨c, opened⟩ := opens 100
  have first : sample.Reached ⟨c, (), ⟨[], []⟩⟩ := bare.restart ⟨100, .inr opened⟩
  have again := first.batch (allows_sample _)
  obtain ⟨-, opens⟩ := registers_eq_uncached cacheable_sample fits_sample again (allows_sample _)
  obtain ⟨c', opened'⟩ := opens 100
  have second := again.restart ⟨100, .inr opened'⟩
  obtain ⟨same, -⟩ := registers_eq_uncached cacheable_sample fits_sample second (allows_sample _)
  obtain ⟨register, rest, same, others, registers⟩ := List.forall₂_cons_right_iff.mp same
  obtain rfl := List.forall₂_nil_right_iff.mp others
  refine ⟨c, c', opened, opened', (congrArg (List.map Register.outputs) registers).trans ?_⟩
  exact congrArg (· :: []) (same ())

/-- With a version that no file name can hold, nothing is registered if there is a cache directory,
and a module is without one. -/
theorem registers_null_version :
    ∃ c, (Compiler.fresh (sampleProject "3\x00") 100).withCacheDir ⟨[], []⟩ sample.dir = .ok c ∧
      (c.process ⟨[], []⟩ () [sampleInput]).registers = [{}] ∧
      (sampleProject "3\x00").uncached ⟨[], []⟩ () sampleInput = ({} : Register).add sampleResult := by
  refine ⟨_, rfl, ?_, ?_⟩
  · rw [Compiler.registers_process, Compiler.compileAll_singleton _ _ _ _ rfl rfl rfl]
    rfl
  · rfl

/-- The project with a lowering tool that gives a list for a map. -/
def listProject : Project Unit := { sampleProject "3" with
  tools := { (sampleProject "3").tools with
    lowering := return { lower := fun _ _ => return Step.listMapped } } }

/-- A component whose compile result is not kept, for it mentions a style that may import files. -/
def listInput : Input := { path := "A", content := some "<style lang='scss'" }

/-- A compiler that was just started with the cache directory, and found no results there. -/
def listCompiler : Compiler Unit := { Compiler.fresh listProject 100 with
  disk := some { path := some (sample.dir.child "compile-cache.json") }
  partitions := .moved (some sample.dir) }

/-- The component's module before it is lowered. -/
def listArtifact : Artifact := { code := .str "m" }

/-- The component before its module is lowered. -/
def listDraft : Drafted := ⟨.ok (some listArtifact), "A", false, none, {}, 2, []⟩

/-- A module with a map. -/
def listModule (map : Json) : Module := ⟨"A", "A", .str "x", map, []⟩

/-- The files after a first batch. -/
def listFiles : FileTree := Lowering.World.sampleFiles "A\x00m" Step.listMapped.payload

open Lowering.World in
theorem tree_listCompiler : (listCompiler.process ⟨[], []⟩ () [listInput]).tree = listFiles := by
  have compiled := Compiler.compileAll_singleton listCompiler ⟨[], []⟩ () listInput
    (d := listDraft) rfl rfl rfl
  show ((listCompiler.compileAll ⟨[], []⟩ () [listInput]).2.1.persist ⟨[], []⟩).2.1 = _
  rw [compiled]
  exact congrArg (·.2.1)
    (persistAll_sampleStore "A\x00m" _ (by decide) Step.keepable_payload_listMapped)

open Lowering.World in
/-- The module is lowered to what a first batch has kept. -/
theorem exists_lowerDraft_listFiles :
    ∃ c' round log, listCompiler.lowerDraft listFiles listDraft () = (⟨.ok (some (.code
      (listModule (.obj [("3", .str "version")])))), {}, none, round, log⟩, c', ()) := by
  have load : Store.opened listFiles _ = _ :=
    opened_sampleFiles "A\x00m" _ (by decide) Step.keepable_payload_listMapped
  rw [Step.sorted_payload_listMapped] at load
  have directory : (listProject.lowering listFiles).scope.directory sample.dir "3" false =
    .ok samplePartition := by rfl
  have opened := Step.from_openPartition_of_closed
    (q := ⟨(), .moved (some sample.dir), {}, 2, []⟩) rfl rfl directory rfl load
  have name : Step.entryName (listProject.lowering listFiles).scope.hashing "A" listArtifact.code =
    .ok "A\x00m" := rfl
  have lowered := Step.from_lower_of_kept opened name rfl
  simp only [Compiler.lowerDraft, listDraft, listCompiler, Compiler.fresh, Step.lowerModule,
    Step.from_bind, Step.outcome, Step.job, Step.from_of, lowered]
  exact ⟨_, _, _, rfl⟩

/-- A map that is a list is another one after a restart, and so is the map of the module that is
registered. -/
theorem registers_listMapped :
    let tree := (listCompiler.process ⟨[], []⟩ () [listInput]).tree
    (Compiler.fresh listProject 100).withCacheDir ⟨[], []⟩ sample.dir = .ok listCompiler ∧
    (Compiler.fresh listProject 100).withCacheDir tree sample.dir = .ok listCompiler ∧
    (listCompiler.process tree () [listInput]).registers =
      [({} : Register).add (.code (listModule (.obj [("3", .str "version")])))] ∧
    listProject.uncached tree () listInput =
      ({} : Register).add (.code (listModule (.obj [("version", .str "3")]))) := by
  intro tree
  have files : tree = listFiles := tree_listCompiler
  rw [files]
  refine ⟨rfl, rfl, ?_, rfl⟩
  obtain ⟨c', round, log, lowered⟩ := exists_lowerDraft_listFiles
  rw [Compiler.registers_process, Compiler.compileAll_singleton listCompiler listFiles () listInput
    (d := listDraft) rfl rfl lowered]
  rfl

end Setting

end Componentry
