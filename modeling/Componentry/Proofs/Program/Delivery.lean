import Componentry.Program.Run
import Componentry.Proofs.Files.Address
import Mathlib.Data.List.Forall2

/-!
# Delivering outputs

What a run writes for documents, file by file and in order. A run that delivers everything has
written each output of each document to its own target; one that stops has written the first of
them. Files at other places are untouched, and an output is there in the end if no later one goes to
the same place.
-/

namespace Componentry

/-! ## Writing files -/

/-- Directories are made and files are written, one after the other. -/
inductive Writes : FileTree → List (Path × ByteArray) → FileTree → Prop
  | nil (t : FileTree) : Writes t [] t
  | dirs {t t' : FileTree} {ws : List (Path × ByteArray)} (p : Path)
      (rest : Writes (t.makeDirs p).1 ws t') : Writes t ws t'
  | file {t t₁ t' : FileTree} {p : Path} {bytes : ByteArray} {ws : List (Path × ByteArray)}
      (written : t.write p bytes = .ok t₁) (rest : Writes t₁ ws t') : Writes t ((p, bytes) :: ws) t'

namespace Writes

variable {t t' t'' : FileTree} {ws ws' : List (Path × ByteArray)}

theorem append (h : Writes t ws t') (h' : Writes t' ws' t'') : Writes t (ws ++ ws') t'' := by
  induction h with
  | nil t => exact h'
  | dirs p _ ih => exact .dirs p (ih h')
  | file written _ ih => exact .file written (ih h')

/-- A file that no output goes to is as it was. -/
theorem bytesAt?_eq (h : Writes t ws t') {loc : Location} (other : ∀ w ∈ ws, w.1.location ≠ loc) :
    t'.bytesAt? loc = t.bytesAt? loc := by
  induction h with
  | nil t => rfl
  | dirs p _ ih => rw [ih other, (FileTree.extends_makeDirs _ p).bytesAt?]
  | file written _ ih =>
    obtain ⟨here, later⟩ := List.forall_mem_cons.mp other
    rw [ih later, FileTree.bytesAt?_write written, if_neg here.symm]

/-- A file that can be read is read as before if no output goes to its place. -/
theorem read_of_read (h : Writes t ws t') {p : Path} {bytes : ByteArray}
    (read : t.read p = .ok bytes) (other : ∀ w ∈ ws, w.1.location ≠ p.location) :
    t'.read p = .ok bytes := by
  induction h with
  | nil t => exact read
  | dirs q _ ih => exact ih ((FileTree.extends_makeDirs _ q).read read) other
  | file written _ ih =>
    obtain ⟨here, later⟩ := List.forall_mem_cons.mp other
    have next := FileTree.read_write_of_read written read
    rw [if_neg here.symm] at next
    exact ih next later

/-- **Outputs that go to different places are all there in the end.** -/
theorem read (h : Writes t ws t') (distinct : (ws.map fun w => w.1.location).Nodup) :
    ∀ w ∈ ws, t'.read w.1 = .ok w.2 := by
  induction h with
  | nil t => simp
  | dirs p _ ih => exact ih distinct
  | file written rest ih =>
    obtain ⟨apart, distinct⟩ := List.nodup_cons.mp distinct
    refine List.forall_mem_cons.mpr ⟨rest.read_of_read (FileTree.read_write written) ?_, ih distinct⟩
    intro w hw same
    exact apart (List.mem_map.mpr ⟨w, hw, same⟩)

end Writes

/-! ## Writing data -/

/-- Is this how data is written to its file: as the bytes of its text? -/
structure Puts (f : Path × Json) (w : Path × ByteArray) : Prop where
  path : w.1 = f.1
  data : ∃ text, f.2 = .str text ∧ w.2 = ⟨(Text.bytes text).toArray⟩

/-- Files are written in order: all of them with their data, or the first ones. -/
def WritesUpTo (t : FileTree) (files : List (Path × Json)) (all : Bool) (t' : FileTree) : Prop :=
  ∃ ws, Writes t ws t' ∧ ws.map Prod.fst <+: files.map Prod.fst ∧
    (all = true → List.Forall₂ Puts files ws)

theorem map_fst_of_puts {files : List (Path × Json)} {ws : List (Path × ByteArray)}
    (h : List.Forall₂ Puts files ws) : ws.map Prod.fst = files.map Prod.fst := by
  induction h with
  | nil => rfl
  | cons first _ ih => rw [List.map_cons, List.map_cons, first.path, ih]

/-- Each member of a list is related to one of the list beside it. -/
theorem exists_of_forall₂ {α β : Type} {R : α → β → Prop} {as : List α} {bs : List β}
    (h : List.Forall₂ R as bs) {a : α} (mem : a ∈ as) : ∃ b ∈ bs, R a b := by
  induction h with
  | nil => cases mem
  | cons first _ ih =>
    rcases List.mem_cons.mp mem with rfl | later
    · exact ⟨_, List.mem_cons_self .., first⟩
    · obtain ⟨b, hb, related⟩ := ih later
      exact ⟨b, List.mem_cons_of_mem _ hb, related⟩

namespace WritesUpTo

variable {t t' t'' : FileTree} {files more : List (Path × Json)} {all : Bool}

theorem nil (t : FileTree) (all : Bool) : WritesUpTo t [] all t :=
  ⟨[], .nil t, List.prefix_rfl, fun _ => .nil⟩

theorem none_written (t : FileTree) (files : List (Path × Json)) : WritesUpTo t files false t :=
  ⟨[], .nil t, List.nil_prefix, nofun⟩

theorem append (h : WritesUpTo t files true t') (h' : WritesUpTo t' more all t'') :
    WritesUpTo t (files ++ more) all t'' := by
  obtain ⟨ws, writes, -, puts⟩ := h
  obtain ⟨ws', writes', first, puts'⟩ := h'
  have paths := map_fst_of_puts (puts rfl)
  refine ⟨ws ++ ws', writes.append writes', ?_, fun h => List.rel_append (puts rfl) (puts' h)⟩
  rw [List.map_append, List.map_append, paths]
  exact (List.prefix_append_right_inj _).mpr first

theorem stopped (h : WritesUpTo t files false t') (more : List (Path × Json)) :
    WritesUpTo t (files ++ more) false t' := by
  obtain ⟨ws, writes, first, -⟩ := h
  refine ⟨ws, writes, ?_, nofun⟩
  rw [List.map_append]
  exact first.trans (List.prefix_append ..)

theorem dirs (p : Path) (h : WritesUpTo (t.makeDirs p).1 files all t') :
    WritesUpTo t files all t' := by
  obtain ⟨ws, writes, rest⟩ := h
  exact ⟨ws, .dirs p writes, rest⟩

/-- A place that no file goes to is as it was. -/
theorem bytesAt?_eq (h : WritesUpTo t files all t') {loc : Location}
    (other : ∀ f ∈ files, f.1.location ≠ loc) : t'.bytesAt? loc = t.bytesAt? loc := by
  obtain ⟨ws, writes, first, -⟩ := h
  refine writes.bytesAt?_eq fun w hw => ?_
  obtain ⟨f, hf, path⟩ := List.mem_map.mp (first.mem (List.mem_map_of_mem hw))
  rw [← path]
  exact other f hf

/-- Files that go to different places are all there in the end. -/
theorem read (h : WritesUpTo t files true t') (distinct : (files.map fun f => f.1.location).Nodup) :
    ∀ f ∈ files, ∃ text, f.2 = .str text ∧ t'.read f.1 = .ok ⟨(Text.bytes text).toArray⟩ := by
  obtain ⟨ws, writes, -, puts⟩ := h
  have paths := map_fst_of_puts (puts rfl)
  have apart : (ws.map fun w => w.1.location).Nodup := by
    have places : ws.map (fun w => w.1.location) = (ws.map Prod.fst).map Path.location := by
      rw [List.map_map]
      rfl
    rw [places, paths, List.map_map]
    exact distinct
  intro f hf
  obtain ⟨w, hw, path, text, data, bytes⟩ := exists_of_forall₂ (puts rfl) hf
  have found := writes.read apart w hw
  rw [path, bytes] at found
  exact ⟨text, data, found⟩

end WritesUpTo

namespace Program

variable {t : FileTree}

/-- Has an attempt to write files come to this? -/
def Attempted (t : FileTree) (files : List (Path × Json)) (x : Except Failure FileTree × FileTree) :
    Prop :=
  match x.1 with
  | .ok t' => WritesUpTo t files true t'
  | .error _ => WritesUpTo t files false x.2

theorem writesUpTo_of_writeText {p : Path} {text : Text} {t' : FileTree}
    (h : t.writeText p text = .ok t') : WritesUpTo t [(p, .str text)] true t' :=
  ⟨[(p, ⟨(Text.bytes text).toArray⟩)], .file (FileTree.write_of_writeText h) (.nil t'),
    List.prefix_rfl, fun _ => .cons ⟨rfl, text, rfl, rfl⟩ .nil⟩

theorem attempted_writeText (t : FileTree) (p : Path) (text : Text) :
    Attempted t [(p, .str text)] ((t.writeText p text).mapError .file, t) := by
  cases written : t.writeText p text with
  | error e => exact .none_written t _
  | ok t' => exact writesUpTo_of_writeText written

theorem attempted_writeData (t : FileTree) (p : Path) (data : Json) :
    Attempted t [(p, data)] (writeData t p data) := by
  cases data with
  | str text =>
    rw [writeData]
    cases emptied : t.write p .empty with
    | error e => exact .none_written t _
    | ok t₁ =>
      cases written : t.writeText p text with
      | error e =>
        simp only [Except.mapError]
        exact ⟨[(p, .empty)], .file emptied (.nil t₁), List.prefix_rfl, nofun⟩
      | ok t₂ => exact writesUpTo_of_writeText written
  | _ => exact .none_written t _

theorem attempted_append {t' : FileTree} {files more : List (Path × Json)}
    {x : Except Failure FileTree × FileTree} (h : WritesUpTo t files true t')
    (h' : Attempted t' more x) : Attempted t (files ++ more) x := by
  rw [Attempted] at h' ⊢
  split at h'
  next => exact h.append h'
  next => exact h.append h'

theorem attempted_of_dirs {p : Path} {files : List (Path × Json)}
    {x : Except Failure FileTree × FileTree} (h : Attempted (t.makeDirs p).1 files x) :
    Attempted t files x := by
  rw [Attempted] at h ⊢
  split at h
  next => exact .dirs p h
  next => exact .dirs p h

/-- Directories are made, and then data is written. -/
theorem attempted_dirs_writeData (t : FileTree) (dir p : Path) (data : Json) :
    Attempted t [(p, data)] (match t.makeDirs dir with
      | (tree, some e) => (.error (.file e), tree)
      | (tree, none) => writeData tree p data) := by
  have first := attempted_writeData (t.makeDirs dir).1 p data
  have nothing := WritesUpTo.none_written (t.makeDirs dir).1 [(p, data)]
  rcases made : t.makeDirs dir with ⟨t₁, _ | e⟩
  · rw [made] at first
    exact attempted_of_dirs (p := dir) (by rw [made]; exact first)
  · rw [made] at nothing
    have stopped : WritesUpTo t [(p, data)] false t₁ := .dirs dir (by rw [made]; exact nothing)
    exact stopped

theorem attempted_writeBelow (t : FileTree) (p : Path) (data : Json) :
    Attempted t [(p, data)] (writeBelow t p data) :=
  attempted_dirs_writeData t p.parent p data

/-! ## Outputs and their targets -/

/-- The files of a module: its code, and its map if it has one. -/
def moduleFiles (dir : Path) (m : Module) : List (Path × Json) :=
  let target := dir.child (m.path ++ ".js")
  (target, m.data) ::
    if m.sourceMap.truthy then [(target.extended ".map", .str (Json.render m.sourceMap))] else []

/-- The file of a stylesheet of the document at `path`. -/
def sheetFile (dir : Path) (path : Text) (s : Stylesheet) : Path × Json :=
  ((dir.join (Path.ofText path).parent).child s.path, s.data)

/-- The file of a section of the page at `path`. -/
def partFile (dir : Path) (path : Text) (part : HtmlPart) : Path × Json :=
  (dir.child (path ++ "." ++ part.name ++ ".html"), .str part.data)

/-- The files of all that is registered for the document at `path`. -/
def filesOf (dir : Path) (path : Text) (r : Register) : List (Path × Json) :=
  r.modules.flatMap (moduleFiles dir) ++ r.stylesheets.map (sheetFile dir path) ++
    r.html.map (partFile dir path)

/-- A module goes to a file with a name, so that there is one for its map. -/
theorem renamed_target (dir : Path) (path : Text) :
    (dir.child (path ++ ".js")).renamed ((dir.child (path ++ ".js")).name ++ ".map") =
      .ok ((dir.child (path ++ ".js")).extended ".map") := by
  obtain ⟨front, last, rfl, hfront, hlast⟩ := Text.exists_last (· = .char '/') path
  have single : .char '/' ∉ last := fun mem => hlast _ mem rfl
  rw [List.append_assoc]
  have names : (dir.child (front ++ (last ++ ".js"))).names =
      (dir.child front).names ++ [last ++ ".js"] :=
    Path.child_append hfront (.append single (by decide) ⟨'j', by decide⟩)
  have name : (dir.child (front ++ (last ++ ".js"))).name = last ++ ".js" := by
    simp [Path.name, names]
  refine Path.renamed_eq_extended (by simp [names]) ?_
  rw [name, List.append_assoc]
  exact .append single (by decide) ⟨'j', by decide⟩

theorem attempted_writeModule (dir : Path) (t : FileTree) (m : Module) :
    Attempted t (moduleFiles dir m) (writeModule t dir m) := by
  have first := attempted_writeBelow t (dir.child (m.path ++ ".js")) m.data
  rw [moduleFiles, writeModule]
  rcases written : writeBelow t (dir.child (m.path ++ ".js")) m.data with ⟨e | t₁, t₂⟩
  · rw [written] at first
    exact first.stopped _
  · rw [written] at first
    dsimp only
    split
    next map =>
      rw [renamed_target]
      exact attempted_append first (attempted_writeText t₁ _ _)
    next => exact first

theorem attempted_writeStylesheet (dir : Path) (path : Text) (t : FileTree) (s : Stylesheet) :
    Attempted t [sheetFile dir path s] (writeStylesheet dir path t s) :=
  attempted_dirs_writeData t (dir.join (Path.ofText path).parent) _ s.data

theorem attempted_writePart (dir : Path) (path : Text) (t : FileTree) (part : HtmlPart) :
    Attempted t [partFile dir path part] (writePart dir path t part) :=
  attempted_writeBelow t _ (.str part.data)

/-- **One output after the other**, up to the first that fails. -/
theorem writesUpTo_writeEach {α : Type} {write : FileTree → α → Except Failure FileTree × FileTree}
    {files : α → List (Path × Json)} (each : ∀ t a, Attempted t (files a) (write t a))
    (t : FileTree) (outputs : List α) :
    WritesUpTo t (outputs.flatMap files) (writeEach write t outputs).1.isNone
      (writeEach write t outputs).2 := by
  induction outputs generalizing t with
  | nil => exact .nil t true
  | cons a rest ih =>
    have first := each t a
    rw [writeEach, List.flatMap_cons]
    rcases written : write t a with ⟨e | t₁, t₂⟩
    · rw [written] at first
      exact first.stopped _
    · rw [written] at first
      exact first.append (ih t₁)

/-- **All that is registered for a document**, up to the first output that fails. -/
theorem writesUpTo_writeOutputs (dir : Path) (path : Text) (t : FileTree) (r : Register) :
    WritesUpTo t (filesOf dir path r) (writeOutputs dir path t r).1.isNone
      (writeOutputs dir path t r).2 := by
  have modules := writesUpTo_writeEach (attempted_writeModule dir) t r.modules
  rw [writeOutputs, filesOf]
  rcases written : writeEach (fun t m => writeModule t dir m) t r.modules with ⟨_ | f, t₁⟩
  · rw [written] at modules
    have sheets := writesUpTo_writeEach (attempted_writeStylesheet dir path) t₁ r.stylesheets
    rw [← List.map_eq_flatMap] at sheets
    dsimp only
    rcases styled : writeEach (writeStylesheet dir path) t₁ r.stylesheets with ⟨_ | f, t₂⟩
    · rw [styled] at sheets
      have parts := writesUpTo_writeEach (attempted_writePart dir path) t₂ r.html
      rw [← List.map_eq_flatMap] at parts
      exact (modules.append sheets).append parts
    · rw [styled] at sheets
      exact (modules.append sheets).stopped _
  · rw [written] at modules
    rw [List.append_assoc]
    exact modules.stopped _

/-! ## Documents -/

variable {σ : Type}

/-- The files of all documents. -/
def allFiles (dir : Path) (documents : List (Text × Register)) : List (Path × Json) :=
  documents.flatMap fun d => filesOf dir d.1 d.2

namespace Run

@[simp] theorem tree_stop (r : Run σ) (f : Failure) : (r.stop f).tree = r.tree := by
  rw [stop]
  split <;> rfl

theorem tree_foldl_complain {α : Type} (line : α → Text) (lines : List α) (r : Run σ) :
    (lines.foldl (fun r l => r.complain (line l)) r).tree = r.tree := by
  induction lines generalizing r with
  | nil => rfl
  | cons l rest ih => exact ih (r.complain (line l))

@[simp] theorem tree_log (r : Run σ) (setup : LogSetup) (lines : List LogLine) :
    (r.log setup lines).tree = r.tree :=
  tree_foldl_complain LogLine.shown _ r

/-- A run that stops does not end well. -/
theorem outcome_stop_ne (r : Run σ) (f : Failure) : (r.stop f).outcome ≠ .ok 0 := by
  rw [stop]
  split
  · exact fun h => absurd (Except.ok.inj h) Nat.one_ne_zero
  · exact nofun

end Run

/-- **Documents are delivered in order**, all outputs of all of them, or the first ones; a run that
does not deliver all ends badly. -/
theorem writesUpTo_deliver (setup : LogSetup) (dir : Path) (documents : List (Text × Register))
    (run : Run σ) :
    WritesUpTo run.tree (allFiles dir documents) (deliver setup dir documents run).2
        (deliver setup dir documents run).1.tree ∧
      ((deliver setup dir documents run).2 = false →
        (deliver setup dir documents run).1.outcome ≠ .ok 0) := by
  induction documents generalizing run with
  | nil => exact ⟨.nil run.tree true, nofun⟩
  | cons d rest ih =>
    obtain ⟨path, register⟩ := d
    have first := writesUpTo_writeOutputs dir path run.tree register
    rw [deliver, allFiles, List.flatMap_cons]
    dsimp only
    rw [Run.tree_foldl_complain]
    rcases written : writeOutputs dir path run.tree register with ⟨_ | f, t₁⟩
    · rw [written] at first
      dsimp only
      obtain ⟨later, bad⟩ := ih (Run.log
        { register.errors.foldl (fun run e => run.complain (reportLine path e)) run with tree := t₁ }
        setup [⟨"cli", .info, "Compiled " ++ path⟩])
      rw [Run.tree_log] at later
      exact ⟨first.append later, bad⟩
    · rw [written] at first
      refine ⟨?_, fun _ => Run.outcome_stop_ne _ f⟩
      rw [Run.tree_stop]
      exact first.stopped _

/-! ## Orders -/

/-- An order that comes to its batch: there is a compiler, a directory is given, and the components
are found. -/
structure Started (h : Host σ) (settings : Config) (order : CompileOrder) (run : Run σ) where
  config : Config
  compiler : Compiler σ
  tools : σ
  outDir : Text
  found : List Path
  cached : withCache h.cwd settings order = .ok config
  made : h.compiler config run.tree run.tools = (.ok compiler, tools)
  given : order.outDir = some outDir
  collected : collectComponents run.tree h.cwd (.ofText order.path) = .ok found

namespace Started

variable {h : Host σ} {settings : Config} {order : CompileOrder} {run : Run σ}
  (s : Started h settings order run)

/-- The components, as inputs of the compiler. -/
def inputs : List Input :=
  s.found.map fun p =>
    Input.of (s.config.root.relativeTo p) none order.arch order.package order.hot

/-- What the compiler makes of them. -/
def batch : Batch σ := s.compiler.process run.tree s.tools s.inputs

/-- The paths of the documents, with what is registered for them. -/
def documents : List (Text × Register) := (s.inputs.map Input.path).zip s.batch.registers

/-- The directory that outputs go to. -/
def dir : Path := h.cwd.join (.ofText s.outDir)

/-- The files of the outputs. -/
def files : List (Path × Json) := allFiles s.dir s.documents

/-- The run behind the batch. -/
def logged (setup : LogSetup) : Run σ :=
  Run.log { run with tree := s.batch.tree, tools := s.batch.tools } setup s.batch.log

theorem compile_eq (setup : LogSetup) : compile h setup settings order run =
    match s.batch.outcome with
    | .error f => (s.logged setup).stop f
    | .ok _ =>
      match deliver setup s.dir s.documents (s.logged setup) with
      | (run, false) => run
      | (run, true) =>
        let failures := s.batch.registers.foldl (fun n r => n + r.errors.length) 0
        if failures = 0 then run
        else run.quit 1 (toString failures ++ " component(s) failed to compile") := by
  rw [compile, s.cached]
  simp only [compileWith, s.made, s.given, s.collected]
  rfl

/-- **After its batch an order writes the files of the outputs**, and it ends well only if it writes
all of them. -/
theorem writesUpTo_compile (setup : LogSetup) :
    ∃ all, WritesUpTo s.batch.tree s.files all (compile h setup settings order run).tree ∧
      ((compile h setup settings order run).outcome = .ok 0 → all = true) := by
  have tree : (s.logged setup).tree = s.batch.tree := Run.tree_log ..
  rw [compile_eq]
  split
  next f _ =>
    refine ⟨false, ?_, fun ok => absurd ok (Run.outcome_stop_ne _ f)⟩
    rw [Run.tree_stop, tree]
    exact .none_written _ _
  next =>
    obtain ⟨written, bad⟩ := writesUpTo_deliver setup s.dir s.documents (s.logged setup)
    rw [tree] at written
    split
    next final delivered =>
      rw [delivered] at written bad
      exact ⟨false, written, fun ok => absurd ok (bad rfl)⟩
    next final delivered =>
      rw [delivered] at written
      refine ⟨true, ?_, fun _ => rfl⟩
      dsimp only
      split <;> exact written

end Started

end Program

end Componentry
