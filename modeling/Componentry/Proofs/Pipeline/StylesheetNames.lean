import Componentry.Proofs.Compiler.Uncached
import Componentry.Proofs.Number.Digits
import Componentry.Proofs.Pipeline.Interleaving

/-!
# Names of stylesheets

The stylesheets of a module have different names. Those of its blocks are numbered by how many of
the blocks before have taken a name, with or without giving a stylesheet, and this does not depend
on the order in which the blocks' jobs end. The component's own stylesheet, which comes last, has a
word in the place of the number.
-/

namespace Componentry

open Markup

/-! ## Numbers in names -/

theorem stylesheetName_succ (base : Text) (k : Nat) :
    stylesheetName base (k + 1) = base ++ ("." ++ (Text.ofNat (k + 1) ++ ".css")) := by
  rw [stylesheetName, if_neg k.succ_ne_zero, List.append_assoc, List.append_assoc]
  rfl

/-- A name tells how many were taken before it. -/
theorem stylesheetName_inj {base : Text} {k k' : Nat}
    (h : stylesheetName base k = stylesheetName base k') : k = k' := by
  have bare (n : Nat) : stylesheetName base 0 ≠ stylesheetName base (n + 1) := by
    intro same
    rw [stylesheetName_succ] at same
    have lengths := congrArg List.length (List.append_cancel_left same)
    have digits := List.length_pos_iff.mpr (Text.ofNat_ne_nil (n + 1))
    simp only [List.length_append] at lengths
    omega
  cases k with
  | zero =>
    cases k' with
    | zero => rfl
    | succ n => exact absurd h (bare n)
  | succ k =>
    cases k' with
    | zero => exact absurd h.symm (bare k)
    | succ n =>
      rw [stylesheetName_succ, stylesheetName_succ] at h
      have digits := List.append_cancel_right
        (List.append_cancel_left (List.append_cancel_left h))
      have values := congrArg Json.digitsValue digits
      rwa [Text.digitsValue_ofNat, Text.digitsValue_ofNat] at values

/-- The component's own stylesheet has no name of a block. -/
theorem stylesheetName_ne_component (base : Text) (k : Nat) :
    stylesheetName base k ≠ base ++ ".component.css" := by
  intro same
  cases k with
  | zero => exact absurd (List.append_cancel_left same) (by decide)
  | succ k =>
    rw [stylesheetName_succ] at same
    -- the word would be the digits of a number
    have word : Text.ofNat (k + 1) = "component" := List.append_cancel_right
      (List.append_cancel_left (List.append_cancel_left same) :
        Text.ofNat (k + 1) ++ ".css" = "component" ++ ".css")
    have digits := Text.digits_ofNat (k + 1)
    rw [word] at digits
    exact absurd (digits 'c' (by decide)) (by decide)

namespace Step

variable {σ : Type} {p : Project σ} {site : Site} {inlineCss : Bool} {b : Block}
  {blocks : List Block} {results : List Processed} {name : Text} {r : Processed}

/-! ## Names of blocks -/

theorem takenBefore_mono {i j : Nat} (h : i ≤ j) :
    takenBefore inlineCss blocks i ≤ takenBefore inlineCss blocks j :=
  (List.take_sublist_take_left h).countP_le

/-- A block that takes a name leaves a greater number to those after it. -/
theorem takenBefore_lt {i j : Nat} (place : blocks[i]? = some b) (takes_ : takes inlineCss b)
    (h : i < j) : takenBefore inlineCss blocks i < takenBefore inlineCss blocks j := by
  calc takenBefore inlineCss blocks i
    _ < takenBefore inlineCss blocks i + 1 := Nat.lt_succ_self _
    _ = takenBefore inlineCss blocks (i + 1) := by rw [takenBefore_succ place, if_pos takes_]
    _ ≤ takenBefore inlineCss blocks j := takenBefore_mono h

/-- **What a block gives**: nothing if it takes no name; otherwise a stylesheet of that name, or
nothing if it is a style that the tool has failed on. -/
theorem Named.cases (h : Named p site inlineCss name b r) :
    (r.stylesheets = [] ∧ ¬ takes inlineCss b) ∨
      ((b.kind = .style ∧ isScss b ∧ shouldEmit inlineCss b) ∧ r = { code := .str "" } ∧
        Refuses p site b) ∨
      takes inlineCss b ∧ ∃ sheet, r.stylesheets = [sheet] ∧ sheet.path = name := by
  by_cases lowers : b.kind = .style ∧ isScss b
  · obtain ⟨style_, scss⟩ := lowers
    have same : takes inlineCss b = shouldEmit inlineCss b := by
      simp [takes, takesName, style_, scss]
    cases h.lowered style_ scss with
    | refused failed =>
      by_cases leaves : shouldEmit inlineCss b
      · exact .inr (.inl ⟨⟨style_, scss, leaves⟩, rfl, failed⟩)
      · exact .inl ⟨rfl, by rwa [same]⟩
    | emitted name' leaves =>
      exact .inr (.inr ⟨by rwa [same], _, rfl, h.named _ (List.mem_singleton_self _)⟩)
    | kept stays => exact .inl ⟨rfl, by rwa [same]⟩
  · have count := h.plain lowers
    have same : takes inlineCss b = decide (b.kind = .style ∧ emitsPlain b) := by
      by_cases style_ : b.kind = .style
      · have plain : ¬ isScss b := fun scss => lowers ⟨style_, scss⟩
        simp [takes, takesName, style_, plain]
      · simp [takes, style_]
    by_cases emits : b.kind = .style ∧ emitsPlain b
    · rw [plainSheets, if_pos emits] at count
      obtain ⟨sheet, only⟩ := List.length_eq_one_iff.mp count
      have own := h.named sheet (only ▸ List.mem_singleton_self sheet)
      exact .inr (.inr ⟨by rw [same]; exact decide_eq_true emits, sheet, only, own⟩)
    · rw [plainSheets, if_neg emits] at count
      have no : ¬ takes inlineCss b := by
        rw [same]
        exact fun yes => emits (of_decide_eq_true yes)
      exact .inl ⟨List.length_eq_zero_iff.mp count, no⟩

/-- Has the block taken a name, by what it has become: has it given a stylesheet, or is it a lowered
style that should have given one? -/
def tookName (inlineCss : Bool) (x : Block × Processed) : Bool :=
  !x.2.stylesheets.isEmpty || (x.1.kind = .style && isScss x.1 && shouldEmit inlineCss x.1)

theorem Named.tookName_eq (h : Named p site inlineCss name b r) :
    tookName inlineCss (b, r) = takes inlineCss b := by
  rcases h.cases with ⟨none_, no⟩ | ⟨⟨style_, scss, leaves⟩, rfl, -⟩ | ⟨yes, sheet, one, -⟩
  · have stays : ¬ (b.kind = .style ∧ isScss b ∧ shouldEmit inlineCss b) := by
      rintro ⟨style_, scss, leaves⟩
      exact no (by simp [takes, takesName, style_, scss, leaves])
    simp_all [tookName]
  · simp [tookName, takes, takesName, style_, scss, leaves]
  · simp [tookName, one, yes]

/-- The blocks of a document with what they have become, each under the name of its place. -/
structure AllNamed (p : Project σ) (site : Site) (inlineCss : Bool) (base : Text)
    (blocks : List Block) (results : List Processed) : Prop where
  length : results.length = blocks.length
  named : ∀ (i : Nat) (b : Block) (r : Processed), blocks[i]? = some b → results[i]? = some r →
    Named p site inlineCss (stylesheetName base (takenBefore inlineCss blocks i)) b r

namespace AllNamed

variable {base : Text}

theorem exists_block (h : AllNamed p site inlineCss base blocks results) {i : Nat}
    (given : results[i]? = some r) : ∃ b, blocks[i]? = some b := by
  obtain ⟨bound, -⟩ := List.getElem?_eq_some_iff.mp given
  rw [h.length] at bound
  exact ⟨blocks[i], List.getElem?_eq_getElem bound⟩

/-- The results tell how many names were taken. -/
theorem countP_tookName (h : AllNamed p site inlineCss base blocks results) (i : Nat) :
    ((blocks.zip results).take i).countP (tookName inlineCss) = takenBefore inlineCss blocks i := by
  have each : ∀ x ∈ (blocks.zip results).take i, tookName inlineCss x = takes inlineCss x.1 := by
    rintro ⟨b, r⟩ hx
    obtain ⟨j, found⟩ := List.mem_iff_getElem?.mp (List.mem_of_mem_take hx)
    obtain ⟨place, given⟩ := List.getElem?_zip_eq_some.mp found
    exact (h.named j b r place given).tookName_eq
  have firsts : ((blocks.zip results).take i).map Prod.fst = blocks.take i := by
    rw [List.map_take, List.map_fst_zip h.length.ge]
  calc ((blocks.zip results).take i).countP (tookName inlineCss)
    _ = ((blocks.zip results).take i).countP (takes inlineCss ∘ Prod.fst) :=
        List.countP_congr fun x hx => by rw [each x hx]; rfl
    _ = takenBefore inlineCss blocks i := by rw [← List.countP_map, firsts]; rfl

/-- A stylesheet of a block has the name of the block's place. -/
theorem path_of_mem (h : AllNamed p site inlineCss base blocks results) {i : Nat}
    (place : blocks[i]? = some b) (given : results[i]? = some r) {path : Text}
    (mem : path ∈ r.stylesheets.map Stylesheet.path) :
    path = stylesheetName base (takenBefore inlineCss blocks i) ∧ takes inlineCss b := by
  rcases (h.named i b r place given).cases with ⟨none_, -⟩ | ⟨-, rfl, -⟩ | ⟨yes, sheet, one, own⟩
  · simp [none_] at mem
  · simp at mem
  · rw [one, List.map_singleton, List.mem_singleton] at mem
    exact ⟨mem.trans own, yes⟩

theorem exists_name (h : AllNamed p site inlineCss base blocks results) {path : Text}
    (mem : path ∈ (results.flatMap (·.stylesheets)).map Stylesheet.path) :
    ∃ k, path = stylesheetName base k := by
  rw [List.map_flatMap] at mem
  obtain ⟨r, hr, own⟩ := List.mem_flatMap.mp mem
  obtain ⟨i, given⟩ := List.mem_iff_getElem?.mp hr
  obtain ⟨b, place⟩ := h.exists_block given
  exact ⟨_, (h.path_of_mem place given own).1⟩

/-- **No two blocks' stylesheets share a name.** -/
theorem nodup_paths (h : AllNamed p site inlineCss base blocks results) :
    ((results.flatMap (·.stylesheets)).map Stylesheet.path).Nodup := by
  rw [List.map_flatMap, List.nodup_flatMap]
  constructor
  · intro r hr
    obtain ⟨i, given⟩ := List.mem_iff_getElem?.mp hr
    obtain ⟨b, place⟩ := h.exists_block given
    rcases (h.named i b r place given).cases with ⟨none_, -⟩ | ⟨-, rfl, -⟩ | ⟨-, sheet, one, -⟩
    · simp [none_]
    · simp
    · simp [one]
  · rw [List.pairwise_iff_getElem]
    intro i j hi hj before path mem mem'
    have given := List.getElem?_eq_getElem hi
    have given' := List.getElem?_eq_getElem hj
    obtain ⟨b, place⟩ := h.exists_block given
    obtain ⟨b', place'⟩ := h.exists_block given'
    obtain ⟨own, yes⟩ := h.path_of_mem place given mem
    obtain ⟨own', -⟩ := h.path_of_mem place' given' mem'
    have less := takenBefore_lt place yes before
    have same := stylesheetName_inj (own.symm.trans own')
    omega

end AllNamed

/-! ## Stylesheets of modules -/

/-- The stylesheets of a module, beside its blocks and what they have become. -/
structure WellNamed (p : Project σ) (site : Site) (inlineCss : Bool) (base : Text)
    (blocks : List Block) (results : List Processed) (sheets : List Stylesheet) : Prop where
  /-- No two share a path. -/
  distinct : (sheets.map Stylesheet.path).Nodup
  /-- Those of the blocks come first, in order, and then at most the component's own. -/
  ordered : sheets = results.flatMap (·.stylesheets) ∨
    ∃ own, sheets = results.flatMap (·.stylesheets) ++ [own] ∧ own.path = base ++ ".component.css"
  /-- A block gives none or one, which has the number of the blocks before that took a name. -/
  named : ∀ (i : Nat) (r : Processed), results[i]? = some r →
    let k := ((blocks.zip results).take i).countP (tookName inlineCss)
    r.stylesheets = [] ∨ ∃ sheet, r.stylesheets = [sheet] ∧
      sheet.path = if k = 0 then base ++ ".css" else base ++ "." ++ toString k ++ ".css"
  /-- A lowered style that should have given one, and has not, is one that the tool failed on. -/
  failed : ∀ (i : Nat) (b : Block) (r : Processed), blocks[i]? = some b → results[i]? = some r →
    b.kind = .style → isScss b → shouldEmit inlineCss b → r.stylesheets = [] →
      r = { code := .str "" } ∧ Refuses p site b

theorem AllNamed.wellNamed {base : Text} {sheets : List Stylesheet}
    (h : AllNamed p site inlineCss base blocks results)
    (ordered : sheets = results.flatMap (·.stylesheets) ∨
      ∃ own, sheets = results.flatMap (·.stylesheets) ++ [own] ∧
        own.path = base ++ ".component.css") :
    WellNamed p site inlineCss base blocks results sheets where
  ordered
  distinct := by
    rcases ordered with rfl | ⟨own, rfl, path⟩
    · exact h.nodup_paths
    · rw [List.map_append, List.nodup_append]
      refine ⟨h.nodup_paths, List.nodup_singleton _, fun x hx y hy => ?_⟩
      obtain ⟨k, rfl⟩ := h.exists_name hx
      rw [List.mem_singleton.mp hy, path]
      exact stylesheetName_ne_component base k
  named i r given := by
    obtain ⟨b, place⟩ := h.exists_block given
    rw [h.countP_tookName]
    rcases (h.named i b r place given).cases with ⟨none_, -⟩ | ⟨-, rfl, -⟩ | ⟨-, sheet, one, own⟩
    · exact .inl none_
    · exact .inl rfl
    · exact .inr ⟨sheet, one, own⟩
  failed i b r place given style_ scss leaves none_ := by
    rcases (h.named i b r place given).cases with ⟨-, no⟩ | ⟨-, empty, refuses⟩ | ⟨-, sheet, one, -⟩
    · exact absurd (by simp [takes, takesName, style_, scss, leaves]) no
    · exact ⟨empty, refuses⟩
    · rw [none_] at one
      cases one

/-- **Every run is well named**, in whatever order its jobs end. -/
theorem Crew.wellNamed {document : Document} {options : MarkupOptions} {compiled : Transformed}
    {sheets : List Stylesheet} {q : Progress σ} {c : Crew σ} (path : site.path = document.path)
    (run : Crew.Reaches p site options.css blocks { progress := q } c)
    (ended : c.Ended blocks results) (made : moduleStylesheets document options (results.flatMap (·.stylesheets)) compiled =
      .ok sheets) :
    WellNamed p site options.css document.basename blocks results sheets := by
  have all : AllNamed p site options.css document.basename blocks results := by
    refine ⟨ended.1, fun i b r place given => ?_⟩
    rw [Document.basename, ← path]
    exact Crew.named_of_ended run ended place given
  exact all.wellNamed (cases_of_moduleStylesheets made)

/-! ## Compiling a document -/

theorem yields_of_stage {α : Type} {complaint : Text} {s : Step σ α} {a : α}
    (h : (stage complaint s).Yields (some a)) : s.Yields a := by
  obtain ⟨r, ⟨q, run⟩, h⟩ := exists_of_bind h
  cases r with
  | ok a' =>
    obtain rfl := Option.some.inj (eq_of_pure h)
    exact ⟨q, Except.ok.inj run⟩
  | error f =>
    dsimp only at h
    split at h
    · obtain ⟨_, h⟩ := h
      cases h
    · obtain ⟨_, -, h⟩ := exists_of_bind h
      obtain ⟨_, -, h⟩ := exists_of_bind h
      cases eq_of_pure h

/-- A module that is to be lowered has the stylesheets of its document's blocks. -/
theorem exists_preprocess_of_compileComponent {tree : FileTree} {document : Document} {hot : Bool}
    {artifact : Artifact} (h : (compileComponent p tree document hot).Yields (some artifact)) :
    ∃ options preprocessed compiled,
      MarkupOptions.ofDocument document p.options p.production = .ok options ∧
      (preprocess document.content document.path
        (blockSteps p (p.site tree document.path) options.css 0)).Yields preprocessed ∧
      moduleStylesheets document options preprocessed.stylesheets compiled =
        .ok artifact.stylesheets := by
  obtain ⟨options, given, h⟩ := exists_of_bind h
  obtain ⟨preprocessed, first, h⟩ := exists_of_bind h
  cases preprocessed with
  | none => cases eq_of_pure h
  | some preprocessed =>
    obtain ⟨compiled, -, h⟩ := exists_of_bind h
    cases compiled with
    | none => cases eq_of_pure h
    | some compiled =>
      obtain ⟨_, -, h⟩ := exists_of_bind h
      obtain ⟨_, -, h⟩ := exists_of_bind h
      obtain ⟨sheets, made, h⟩ := exists_of_bind h
      refine ⟨options, preprocessed, compiled.2.2, eq_of_check given, yields_of_stage first, ?_⟩
      rw [eq_of_check made]
      split at h
      · obtain ⟨code, -, h⟩ := exists_of_bind h
        cases code with
        | none => cases eq_of_pure h
        | some code =>
          obtain rfl := Option.some.inj (eq_of_pure h)
          rfl
      · obtain rfl := Option.some.inj (eq_of_pure h)
        rfl

/-- A lowered module has the path of its document and the stylesheets that it had before. -/
theorem fields_of_lowerModule {tree : FileTree} {artifact : Artifact} {path : Text}
    {hot : Bool} {m : Module} (h : (lowerModule p tree artifact path hot).Yields (some m)) :
    m.path = path ∧ m.stylesheets = artifact.stylesheets := by
  obtain ⟨r, ⟨q, run⟩, h⟩ := exists_of_bind h
  cases r with
  | ok m' =>
    obtain rfl := Option.some.inj (eq_of_pure h)
    have lowered : (lower (p.lowering tree) artifact path hot).Yields m' := ⟨q, Except.ok.inj run⟩
    obtain ⟨_, -, lowered⟩ := exists_of_bind lowered
    dsimp only at lowered
    split at lowered
    · obtain ⟨_, -, lowered⟩ := exists_of_bind lowered
      obtain ⟨_, -, lowered⟩ := exists_of_bind lowered
      obtain rfl := eq_of_pure lowered
      exact ⟨rfl, rfl⟩
    · obtain ⟨_, -, lowered⟩ := exists_of_bind lowered
      obtain rfl := eq_of_pure lowered
      exact ⟨rfl, rfl⟩
  | error f =>
    dsimp only at h
    split at h
    · obtain ⟨_, -, h⟩ := exists_of_bind h
      obtain ⟨_, -, h⟩ := exists_of_bind h
      cases eq_of_pure h
    · obtain ⟨_, h⟩ := h
      cases h

/-- Lowering keeps the stylesheets. -/
theorem stylesheets_of_lowerModule {tree : FileTree} {artifact : Artifact} {path : Text}
    {hot : Bool} {m : Module} (h : (lowerModule p tree artifact path hot).Yields (some m)) :
    m.stylesheets = artifact.stylesheets :=
  (fields_of_lowerModule h).2

/-- **Stylesheets have names of their own.** However the jobs of a document's blocks end, and in
whatever order, the stylesheets of the module have different paths, those of the blocks come in
document order, and each is numbered by the blocks before it that took a name: those that gave a
stylesheet, and lowered styles that should have and failed. The module that compiling the document
gives has the stylesheets of such a run. -/
theorem stylesheets_wellNamed (p : Project σ) (tree : FileTree) (document : Document) :
    (∀ (options : MarkupOptions) (q : Progress σ) (c : Crew σ) (results : List Processed)
      (compiled : Transformed) (sheets : List Stylesheet),
      Crew.Reaches p (p.site tree document.path) options.css (Markup.blocks document.content)
        { progress := q } c →
      c.Ended (Markup.blocks document.content) results →
      moduleStylesheets document options (results.flatMap (·.stylesheets)) compiled = .ok sheets →
      WellNamed p (p.site tree document.path) options.css document.basename
        (Markup.blocks document.content) results sheets) ∧
    ∀ (hot : Bool) (m : Module), (compileOne p tree document hot).Yields (some (.code m)) →
      ∃ options q c results, MarkupOptions.ofDocument document p.options p.production = .ok options ∧
        Crew.Reaches p (p.site tree document.path) options.css (Markup.blocks document.content)
          { progress := q } c ∧
        c.Ended (Markup.blocks document.content) results ∧
        WellNamed p (p.site tree document.path) options.css document.basename
          (Markup.blocks document.content) results m.stylesheets := by
  refine ⟨fun options q c results compiled sheets run ended made =>
    Crew.wellNamed rfl run ended made, fun hot m h => ?_⟩
  rw [compileOne] at h
  split at h
  · -- a page is no module
    rename_i page found
    obtain rfl := Option.some.inj (eq_of_pure h)
    obtain ⟨_, -, same⟩ := Option.map_eq_some_iff.mp found
    cases same
  · obtain ⟨artifact, component, h⟩ := exists_of_bind h
    cases artifact with
    | none => cases eq_of_pure h
    | some artifact =>
      obtain ⟨lowered, kept, h⟩ := exists_of_bind h
      obtain ⟨m', rfl, same⟩ := Option.map_eq_some_iff.mp (eq_of_pure h)
      obtain rfl := Result.code.inj same
      obtain ⟨options, preprocessed, compiled, given, processed, made⟩ :=
        exists_preprocess_of_compileComponent component
      obtain ⟨q, c, results, run, ended, put⟩ := exists_run_of_preprocess processed
      rw [stylesheets_of_spliceBlocks put, ← stylesheets_of_lowerModule kept] at made
      exact ⟨options, q, c, results, given, run, ended, Crew.wellNamed rfl run ended made⟩

/-! ## An instance -/

/-- A project in which styles are not part of the module. -/
def separateProject : Project Unit := { namingProject with options := {} }

/-- A file beside the document. -/
def oneFile : FileTree := ⟨[], [([Text.ofString "a"], ⟨#[0x61]⟩)]⟩

/-- A style that names a missing file, and one that names a file. -/
def twoStyles : Document where
  path := "A.svelte"
  content := "<style lang=\"scss\">/gone</style><style lang=\"scss\">/a</style>"
  sourceHash := "0"

def missingStyle : Block := ⟨.style, "/gone", [("lang", some "scss")], 19, 24⟩

def presentStyle : Block := ⟨.style, "/a", [("lang", some "scss")], 51, 53⟩

/-- What the two styles become. -/
def twoStylesResults : List Processed :=
  [{ code := .str "" },
    { code := .str placeholder, stylesheets := [{ path := "A.svelte.1.css", data := .str "a" }] }]

/-- A run in which the second style ends before the job of the first one. -/
theorem exists_reaches_laterFirst (q : Progress Unit) :
    ∃ c, Crew.Reaches separateProject (separateProject.site oneFile twoStyles.path) false
      [missingStyle, presentStyle] { progress := q } c ∧
      c.Ended [missingStyle, presentStyle] twoStylesResults := by
  let site := separateProject.site oneFile twoStyles.path
  let first : Task Unit := .lowering namingTool "A.svelte.css"
  let second : Task Unit := .lowering namingTool "A.svelte.1.css"
  let failed : Task Unit := .lowered "A.svelte.css" (.error (.file (.notFound "/gone")))
  let read : Task Unit := .lowered "A.svelte.1.css" (.ok { code := .str "a" })
  let Goes := Crew.Moves separateProject site false [missingStyle, presentStyle]
  have started₂ : startBlock separateProject site false 1 presentStyle q = ((second, 2), q) := rfl
  have start₁ : Goes { progress := q } ⟨q, 1, [first]⟩ :=
    Crew.moves_start (b := missingStyle) rfl rfl
  have start₂ : Goes ⟨q, 1, [first]⟩ ⟨q, 2, [first, second]⟩ :=
    Crew.moves_start (b := presentStyle) rfl started₂
  have job₂ : Goes ⟨q, 2, [first, second]⟩ ⟨q, 2, [first, read]⟩ :=
    Crew.moves_goOn (i := 1) (b := presentStyle) (t := second) rfl rfl rfl
  have end₂ : Goes ⟨q, 2, [first, read]⟩ ⟨(read.next separateProject site false presentStyle q).2, 2,
      [first, (read.next separateProject site false presentStyle q).1]⟩ :=
    Crew.moves_goOn (i := 1) (b := presentStyle) (t := read) rfl rfl rfl
  have job₁ (q : Progress Unit) (t : Task Unit) : Goes ⟨q, 2, [first, t]⟩ ⟨q, 2, [failed, t]⟩ :=
    Crew.moves_goOn (i := 0) (b := missingStyle) (t := first) rfl rfl rfl
  have end₁ (q : Progress Unit) (t : Task Unit) : Goes ⟨q, 2, [failed, t]⟩
      ⟨(failed.next separateProject site false missingStyle q).2, 2,
        [(failed.next separateProject site false missingStyle q).1, t]⟩ :=
    Crew.moves_goOn (i := 0) (b := missingStyle) (t := failed) rfl rfl rfl
  exact ⟨_, .head start₁ (.head start₂ (.head job₂ (.head end₂ (.head (job₁ _ _)
    (.single (end₁ _ _)))))), rfl, rfl⟩

/-- The second style is numbered although the first one has no stylesheet, and although it ends
first. -/
theorem stylesheets_wellNamed_laterFirst : ∃ options c sheets,
    MarkupOptions.ofDocument twoStyles separateProject.options separateProject.production =
      .ok options ∧
    Crew.Reaches separateProject (separateProject.site oneFile twoStyles.path) options.css
      (Markup.blocks twoStyles.content) { progress := { tools := () } } c ∧
    c.Ended (Markup.blocks twoStyles.content) twoStylesResults ∧
    moduleStylesheets twoStyles options (twoStylesResults.flatMap (·.stylesheets))
      { code := .null, css := .str "c" } = .ok sheets ∧
    sheets.map Stylesheet.path =
      [Text.ofString "A.svelte.1.css", Text.ofString "A.svelte.component.css"] ∧
    WellNamed separateProject (separateProject.site oneFile twoStyles.path) options.css
      twoStyles.basename (Markup.blocks twoStyles.content) twoStylesResults sheets := by
  have found : Markup.blocks twoStyles.content = [missingStyle, presentStyle] := rfl
  obtain ⟨c, run, ended⟩ := exists_reaches_laterFirst { tools := () }
  rw [← found] at run ended
  exact ⟨_, c, _, rfl, run, ended, rfl, rfl,
    (stylesheets_wellNamed separateProject oneFile twoStyles).1 _ _ c _
      { code := .null, css := .str "c" } _ run ended rfl⟩

end Step

end Componentry
