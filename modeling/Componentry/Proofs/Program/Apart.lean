import Componentry.Proofs.Program.Endings
import Mathlib.Data.List.Nodup

/-!
# Outputs are kept apart

An order writes the outputs of its documents to files below one directory. These go to different
places as long as no page has two sections of one name and no two documents clash, and they stay
inside the directory as long as no document's path leads out of it. For components below the root of
their project, with no backslash in their names, only the sections of one page can meet. A component
outside the root has an absolute path, so its outputs go beside it and not into the directory.
-/

namespace Componentry.Program

variable {σ : Type}

/-! ## Documents that clash -/

/-- Do two documents meet, and have both a module, or both a section of one name? -/
def Clash (dir : Path) (a b : Text × Register) : Prop :=
  Meet dir a.1 b.1 ∧ ((a.2.modules ≠ [] ∧ b.2.modules ≠ []) ∨
    ∃ part ∈ a.2.html, ∃ part' ∈ b.2.html, part.name = part'.name)

/-- Do files go to different places? -/
def Apart (files : List (Path × Json)) : Prop := (files.map fun f => f.1.address).Nodup

instance (files : List (Path × Json)) : Decidable (Apart files) :=
  inferInstanceAs (Decidable (List.Nodup _))

/-- Files at different places are at different locations. -/
theorem Apart.nodup_location {files : List (Path × Json)} (h : Apart files) :
    (files.map fun f => f.1.location).Nodup := by
  have addresses : files.map (fun f => f.1.address) =
      (files.map fun f => f.1.location).map (List.map nameBytes) := by
    rw [List.map_map]
    exact List.map_congr_left fun f _ => Path.address_eq_map_location f.1
  rw [Apart, addresses] at h
  exact List.Nodup.of_map _ h

/-- Is this a document with outputs of its own? -/
structure IsOwn (d : Text × Register) : Prop where
  plain : .char '\\' ∉ d.1
  isFor : d.2.IsFor d.1

variable {dir : Path} {d a b : Text × Register}

theorem IsOwn.placed (h : IsOwn d) (dir : Path) :
    List.Forall₂ (Placed dir d.1) (filesOf dir d.1 d.2) (endingsOf d.1 d.2) :=
  forall₂_placed h.isFor h.plain dir

/-- **The files of one document go to different places** if no two sections have one name. -/
theorem IsOwn.apart_iff (h : IsOwn d) :
    Apart (filesOf dir d.1 d.2) ↔ (d.2.html.map HtmlPart.name).Nodup := by
  constructor
  · intro apart
    rw [Apart, filesOf, List.map_append, List.map_map] at apart
    have parts := (List.nodup_append.mp apart).2.1
    have named : d.2.html.map ((fun f : Path × Json => f.1.address) ∘ partFile dir d.1) =
        (d.2.html.map HtmlPart.name).map
          fun name => (dir.child (d.1 ++ "." ++ name ++ ".html")).address := by
      rw [List.map_map]
      rfl
    exact List.Nodup.of_map _ (named ▸ parts)
  · intro distinct
    have endings := (nodup_endingsOf h.isFor).mpr distinct
    -- already the last names of the addresses differ
    have lasts : ((filesOf dir d.1 d.2).map fun f => f.1.address).map List.getLast? =
        (endingsOf d.1 d.2).map fun e => some (nameBytes (basename d.1 ++ e)) := by
      rw [← List.forall₂_eq_eq_eq, List.forall₂_map_left_iff, List.forall₂_map_left_iff,
        List.forall₂_map_right_iff]
      refine (h.placed dir).imp fun f e placed => ?_
      obtain ⟨place, address, -⟩ := placed
      rw [address, List.getLast?_append]
      rfl
    refine List.Nodup.of_map List.getLast? (lasts ▸ endings.map_on fun e he e' he' same => ?_)
    rw [Option.some.injEq, nameBytes_append, nameBytes_append] at same
    exact eq_of_nameBytes_eq (mem_endingsOf h.isFor he).1.whole (mem_endingsOf h.isFor he').1.whole
      (List.append_cancel_left same)

/-- The module of a document is among its files. -/
theorem exists_code (h : IsOwn d) (some_ : d.2.modules ≠ []) (dir : Path) :
    ∃ f ∈ filesOf dir d.1 d.2, f.1 = dir.child (d.1 ++ ".js") := by
  rcases h.isFor.cases with ⟨none_, -⟩ | ⟨m, modules, own, -⟩
  · exact absurd none_ some_
  · refine ⟨(dir.child (m.path ++ ".js"), m.data), ?_, by rw [own]⟩
    simp [filesOf, modules, moduleFiles]

theorem mem_filesOf_of_part {part : HtmlPart} (h : part ∈ d.2.html) (dir : Path) :
    partFile dir d.1 part ∈ filesOf dir d.1 d.2 :=
  List.mem_append_right _ (List.mem_map_of_mem h)

/-- Documents that clash share a file. -/
theorem Clash.exists_shared (clash : Clash dir a b) (ha : IsOwn a) (hb : IsOwn b) :
    ∃ f ∈ filesOf dir a.1 a.2, ∃ f' ∈ filesOf dir b.1 b.2, f.1.address = f'.1.address := by
  obtain ⟨meet, ⟨hm, hm'⟩ | ⟨part, hpart, part', hpart', same⟩⟩ := clash
  · obtain ⟨f, hf, target⟩ := exists_code ha hm dir
    obtain ⟨f', hf', target'⟩ := exists_code hb hm' dir
    refine ⟨f, hf, f', hf', ?_⟩
    rw [target, target']
    exact meet
  · refine ⟨_, mem_filesOf_of_part hpart dir, _, mem_filesOf_of_part hpart' dir, ?_⟩
    have ending : IsEnding (sectionEnding part.name) :=
      (mem_endingsOf ha.isFor (List.mem_append_right _ (List.mem_map_of_mem hpart))).1
    rw [path_partFile, path_partFile, ← same]
    exact meet.address_child ha.plain hb.plain ending

/-- Components that share a file clash. -/
theorem clash_of_shared (ha : IsOwn a) (hb : IsOwn b) (component : IsComponentPath a.1)
    (component' : IsComponentPath b.1) {f f' : Path × Json} (hf : f ∈ filesOf dir a.1 a.2)
    (hf' : f' ∈ filesOf dir b.1 b.2) (same : f.1.address = f'.1.address) : Clash dir a b := by
  obtain ⟨e, he, placed⟩ := exists_of_forall₂ (ha.placed dir) hf
  obtain ⟨e', he', placed'⟩ := exists_of_forall₂ (hb.placed dir) hf'
  obtain ⟨ending, kind⟩ := mem_endingsOf ha.isFor he
  obtain ⟨ending', kind'⟩ := mem_endingsOf hb.isFor he'
  obtain ⟨meet, rfl⟩ := meet_of_placed ha.plain hb.plain component component' ending ending'
    placed placed' same
  refine ⟨meet, ?_⟩
  -- one letter tells the sections from the rest
  have last (name : Text) : .char 'l' ∈ sectionEnding name := List.mem_append_right _ (by decide)
  rcases kind with ⟨hm, other⟩ | ⟨part, hpart, rfl⟩ <;>
    rcases kind' with ⟨hm', other'⟩ | ⟨part', hpart', same'⟩
  · exact .inl ⟨hm, hm'⟩
  · exact absurd (same' ▸ last _) other
  · exact absurd (last _) other'
  · exact .inr ⟨part, hpart, part', hpart', sectionEnding_injective same'⟩

/-- **Two components share a file** exactly if they clash. -/
theorem disjoint_iff (ha : IsOwn a) (hb : IsOwn b) (component : IsComponentPath a.1)
    (component' : IsComponentPath b.1) :
    ((filesOf dir a.1 a.2).map fun f => f.1.address).Disjoint
      ((filesOf dir b.1 b.2).map fun f => f.1.address) ↔ ¬ Clash dir a b := by
  constructor
  · intro disjoint clash
    obtain ⟨f, hf, f', hf', same⟩ := clash.exists_shared ha hb
    exact disjoint (List.mem_map_of_mem hf) (same ▸ List.mem_map_of_mem hf')
  · intro free x mem mem'
    obtain ⟨f, hf, rfl⟩ := List.mem_map.mp mem
    obtain ⟨f', hf', same⟩ := List.mem_map.mp mem'
    exact free (clash_of_shared ha hb component component' hf hf' same.symm)

variable {documents : List (Text × Register)}

/-- **Files of documents go to different places** exactly if no page has two sections of one name
and no two documents clash, for one document or for components. -/
theorem apart_allFiles_iff (own : ∀ d ∈ documents, IsOwn d)
    (components : documents.length ≤ 1 ∨ ∀ d ∈ documents, IsComponentPath d.1) :
    Apart (allFiles dir documents) ↔
      (∀ d ∈ documents, (d.2.html.map HtmlPart.name).Nodup) ∧
        documents.Pairwise fun a b => ¬ Clash dir a b := by
  rw [Apart, allFiles, List.map_flatMap, List.nodup_flatMap]
  refine and_congr (forall₂_congr fun d hd => (own d hd).apart_iff) ?_
  rcases components with few | components
  · rcases documents with _ | ⟨d, _ | ⟨e, rest⟩⟩
    · simp
    · simp
    · simp at few
  · exact List.Pairwise.iff_of_mem fun ha hb =>
      disjoint_iff (own _ ha) (own _ hb) (components _ ha) (components _ hb)

/-! ## The output directory -/

/-- Does a path lead to a place inside the directory? -/
def Inside (dir p : Path) : Prop := dir.address <+: p.address ∧ dir.address ≠ p.address

instance (dir p : Path) : Decidable (Inside dir p) := inferInstanceAs (Decidable (_ ∧ _))

theorem inside_iff {p : Path} {place : List (List UInt8)} {n : List UInt8}
    (h : p.address = place ++ [n]) : Inside dir p ↔ dir.address <+: place := by
  rw [Inside, h, List.prefix_concat_iff]
  constructor
  · rintro ⟨same | inside, other⟩
    · exact absurd same other
    · exact inside
  · intro inside
    refine ⟨.inr inside, fun same => ?_⟩
    have lengths := inside.length_le
    rw [same, List.length_append, List.length_singleton] at lengths
    omega

/-- **Files of documents are all inside the directory** exactly if the places are that the
documents' paths lead to from there. -/
theorem inside_allFiles_iff (own : ∀ d ∈ documents, IsOwn d) (named : ∀ d ∈ documents, HasName d.1) :
    (∀ f ∈ allFiles dir documents, Inside dir f.1) ↔
      ∀ d ∈ documents, filesOf dir d.1 d.2 ≠ [] →
        dir.address <+: (dir.join (Path.ofText d.1).parent).address := by
  have each : ∀ d ∈ documents, ∀ f ∈ filesOf dir d.1 d.2,
      (Inside dir f.1 ↔ dir.address <+: (dir.join (Path.ofText d.1).parent).address) := by
    intro d hd f hf
    obtain ⟨e, -, place, address, there⟩ := exists_of_forall₂ ((own d hd).placed dir) hf
    rw [inside_iff address, there (named d hd)]
  constructor
  · intro inside d hd some_
    obtain ⟨f, hf⟩ := List.exists_mem_of_ne_nil _ some_
    exact (each d hd f hf).mp (inside f (List.mem_flatMap.mpr ⟨d, hd, hf⟩))
  · intro kept f hf
    obtain ⟨d, hd, hf⟩ := List.mem_flatMap.mp hf
    exact (each d hd f hf).mpr (kept d hd (List.ne_nil_of_mem hf))

/-! ## Ordinary components -/

variable {root p q : Path}

/-- An ordinary component's outputs go where its path leads from the directory. -/
theorem inside_of_ordinary (h : Ordinary root p) :
    dir.address <+: (dir.join (Path.ofText (documentPath root p)).parent).address := by
  obtain ⟨names, -, isName, -, path, relative⟩ := exists_of_ordinary h
  have up : ∀ n ∈ (Path.ofText (documentPath root p)).parent.names, n ≠ ".." := by
    intro n hn
    rw [Path.parent, path] at hn
    exact (isName n (List.dropLast_subset _ hn)).up
  have relative : (Path.ofText (documentPath root p)).parent.absolute = false := relative
  rw [Path.address_join relative up]
  exact List.prefix_append ..

/-- **Ordinary components that meet are one.** -/
theorem names_eq_of_meet (hp : Ordinary root p) (hq : Ordinary root q)
    (meet : Meet dir (documentPath root p) (documentPath root q)) :
    p.names.map nameBytes = q.names.map nameBytes := by
  obtain ⟨names, below, isName, named, path, relative⟩ := exists_of_ordinary hp
  obtain ⟨names', below', isName', named', path', relative'⟩ := exists_of_ordinary hq
  have address := meet.address_eq (backslash_not_mem_documentPath root p)
    (backslash_not_mem_documentPath root q) named named'
  rw [Path.child, Path.child, Path.address_join relative, Path.address_join relative', path, path']
    at address
  · rw [below, below', List.map_append, List.map_append, List.append_cancel_left address]
  · exact path' ▸ fun n hn => (isName' n hn).up
  · exact path ▸ fun n hn => (isName n hn).up

/-! ## Orders -/

namespace Started

variable {h : Host σ} {settings : Config} {order : CompileOrder} {run : Run σ}
  {s : Started h settings order run}

theorem map_path_inputs (s : Started h settings order run) :
    s.inputs.map Input.path = s.found.map (documentPath s.config.root) := by
  rw [inputs, List.map_map]
  rfl

theorem map_fst_documents (recalls : s.compiler.RecallsOwn run.tree s.inputs) :
    s.documents.map Prod.fst = s.found.map (documentPath s.config.root) := by
  have lengths : s.batch.registers.length = s.inputs.length := (recalls.registers s.tools).length_eq
  rw [documents, List.map_fst_zip (by rw [List.length_map, lengths]), map_path_inputs]

/-- A document is the path of a component. -/
theorem exists_component {d : Text × Register} (hd : d ∈ s.documents) :
    ∃ p ∈ s.found, documentPath s.config.root p = d.1 := by
  have mem := (List.of_mem_zip hd).1
  rw [map_path_inputs] at mem
  exact List.mem_map.mp mem

/-- Without a cache directory there is nothing to recall. -/
theorem recallsOwn_of_cacheDir (none_ : s.config.cacheDir = none) :
    s.compiler.RecallsOwn run.tree s.inputs := by
  have made := s.made
  rw [Host.compiler] at made
  split at made
  · cases (Prod.mk.inj made).1
  · have compiler := (Prod.mk.inj made).1
    rw [Compiler.ofConfig, none_] at compiler
    rw [← Except.ok.inj compiler]
    exact Compiler.recalls_fresh ..

/-- **Documents have outputs of their own.** -/
theorem isOwn (recalls : s.compiler.RecallsOwn run.tree s.inputs) :
    ∀ d ∈ s.documents, IsOwn d := by
  intro d hd
  obtain ⟨p, -, path⟩ := exists_component hd
  refine ⟨path ▸ backslash_not_mem_documentPath s.config.root p, ?_⟩
  have related : List.Forall₂ (fun path register => register.IsFor path) (s.inputs.map Input.path)
      s.batch.registers := by
    rw [List.forall₂_map_left_iff]
    exact (recalls.registers s.tools).flip
  exact List.forall₂_zip related hd

/-- There is one document, or each is a component. -/
theorem isComponentPath (recalls : s.compiler.RecallsOwn run.tree s.inputs) :
    s.documents.length ≤ 1 ∨ ∀ d ∈ s.documents, IsComponentPath d.1 := by
  refine (length_le_one_or_isComponent s.collected).imp (fun few => ?_) fun components d hd => ?_
  · have lengths := congrArg List.length (map_fst_documents recalls)
    rw [List.length_map, List.length_map] at lengths
    omega
  · obtain ⟨p, hp, path⟩ := exists_component hd
    exact path ▸ isComponentPath_documentPath _ (components p hp)

/-- **Ordinary components never clash.** -/
theorem pairwise_not_clash (recalls : s.compiler.RecallsOwn run.tree s.inputs)
    (ordinary : ∀ p ∈ s.found, Ordinary s.config.root p) (distinct : run.tree.Distinct) :
    s.documents.Pairwise fun a b => ¬ Clash s.dir a b := by
  have names : s.found.Pairwise fun p q => p.names.map nameBytes ≠ q.names.map nameBytes :=
    List.pairwise_map.mp (nodup_of_collectComponents distinct s.collected)
  have free : s.found.Pairwise fun p q =>
      ¬ Meet s.dir (documentPath s.config.root p) (documentPath s.config.root q) :=
    names.imp_of_mem fun hp hq apart meet =>
      apart (names_eq_of_meet (ordinary _ hp) (ordinary _ hq) meet)
  have paths : (s.documents.map Prod.fst).Pairwise fun a b => ¬ Meet s.dir a b := by
    rw [map_fst_documents recalls]
    exact List.pairwise_map.mpr free
  exact (List.pairwise_map.mp paths).imp fun apart clash => apart clash.1

theorem apart_files_iff (recalls : s.compiler.RecallsOwn run.tree s.inputs) :
    Apart s.files ↔ (∀ d ∈ s.documents, (d.2.html.map HtmlPart.name).Nodup) ∧
      s.documents.Pairwise fun a b => ¬ Clash s.dir a b :=
  apart_allFiles_iff (isOwn recalls) (isComponentPath recalls)

theorem inside_files_iff (recalls : s.compiler.RecallsOwn run.tree s.inputs)
    (named : ∀ d ∈ s.documents, HasName d.1) :
    (∀ f ∈ s.files, Inside s.dir f.1) ↔ ∀ d ∈ s.documents, filesOf s.dir d.1 d.2 ≠ [] →
      s.dir.address <+: (s.dir.join (Path.ofText d.1).parent).address :=
  inside_allFiles_iff (isOwn recalls) named

/-- **Ordinary components' outputs are inside the directory.** -/
theorem inside_files_of_ordinary (recalls : s.compiler.RecallsOwn run.tree s.inputs)
    (ordinary : ∀ p ∈ s.found, Ordinary s.config.root p) : ∀ f ∈ s.files, Inside s.dir f.1 := by
  refine (inside_files_iff recalls fun d hd => ?_).mpr fun d hd _ => ?_
  · obtain ⟨p, hp, path⟩ := exists_component hd
    obtain ⟨names, -, -, named, -⟩ := exists_of_ordinary (ordinary p hp)
    exact .inr (path ▸ named)
  · obtain ⟨p, hp, path⟩ := exists_component hd
    exact path ▸ inside_of_ordinary (ordinary p hp)

/-- **What an order does with its outputs.** Only their files are written; and if these go to
different places and the order ends well, each is there with its data. They go to different places
exactly if no page has two sections of one name and no two documents clash. They are inside the
given directory exactly if no document with outputs has a path that leads out of it. For ordinary
components they are inside, and go to different places exactly if no page has two sections of one
name. -/
theorem compile_keeps_apart (s : Started h settings order run)
    (recalls : s.compiler.RecallsOwn run.tree s.inputs) (setup : LogSetup) :
    let final := compile h setup settings order run
    (∀ p : Path, (∀ f ∈ s.files, f.1.address ≠ p.address) →
      final.tree.bytesAt? p.location = s.batch.tree.bytesAt? p.location) ∧
    (final.outcome = .ok 0 → Apart s.files → ∀ f ∈ s.files,
      ∃ text, f.2 = .str text ∧ final.tree.read f.1 = .ok ⟨(Text.bytes text).toArray⟩) ∧
    (Apart s.files ↔ (∀ d ∈ s.documents, (d.2.html.map HtmlPart.name).Nodup) ∧
      s.documents.Pairwise fun a b => ¬ Clash s.dir a b) ∧
    ((∀ d ∈ s.documents, HasName d.1) → ((∀ f ∈ s.files, Inside s.dir f.1) ↔
      ∀ d ∈ s.documents, filesOf s.dir d.1 d.2 ≠ [] →
        s.dir.address <+: (s.dir.join (Path.ofText d.1).parent).address)) ∧
    ((∀ p ∈ s.found, Ordinary s.config.root p) → (∀ f ∈ s.files, Inside s.dir f.1) ∧
      (run.tree.Distinct →
        (Apart s.files ↔ ∀ d ∈ s.documents, (d.2.html.map HtmlPart.name).Nodup))) := by
  intro final
  obtain ⟨all, written, well⟩ := s.writesUpTo_compile setup
  refine ⟨fun p other => ?_, fun ok apart => ?_, apart_files_iff recalls, inside_files_iff recalls,
    fun ordinary => ⟨inside_files_of_ordinary recalls ordinary, fun distinct => ?_⟩⟩
  · exact written.bytesAt?_eq fun f hf same => other f hf (Path.address_eq_of_location_eq same)
  · obtain rfl := well ok
    exact written.read apart.nodup_location
  · rw [apart_files_iff recalls]
    exact and_iff_left (pairwise_not_clash recalls ordinary distinct)

end Started

/-! ## An instance -/

/-- A tool for markup that is asked for its version only. -/
def pageTool : NamedTool Unit where
  name := "Markup"
  tool := .markup { version := return "3", compile := fun _ _ => throw (.setup (.noTool "markup")) }

/-- A host on which this tool can be named. -/
def pageHost : Host Unit where
  cwd := ⟨true, [], false⟩
  modules := [{ name := "tools", items := [("Markup", .tool pageTool)] }]
  hashing := { source := id, entry := id, options := fun _ => "0" }
  stamp := "now"

/-- A project that is published, with its root anywhere. -/
def pageSettings (root : Path) : Config where
  root
  options := { isPublishing := .bool true }
  tools := [("markup", "tools:Markup")]

/-- To compile a directory. -/
def pageOrder : CompileOrder := { path := "/src", outDir := some "build" }

/-- With one page in it. -/
def pageRun (text : String) : Run Unit where
  tree := { dirs := [["src"]], files := [(["src", "a.svelte"], text.toUTF8)] }
  tools := ()

/-- The order, come to its batch. -/
def pageStart (root : Path) (text : String) :
    Started pageHost (pageSettings root) pageOrder (pageRun text) where
  config := pageSettings root
  compiler := _
  tools := ()
  outDir := "build"
  found := [⟨true, ["src", "a.svelte"], false⟩]
  cached := rfl
  made := rfl
  given := rfl
  collected := congrArg Except.ok (List.mergeSort_singleton _)

/-- The project at the top of all files. -/
def fileRoot : Path := ⟨true, [], false⟩

/-- A head and a body go to two files of the directory. -/
theorem headAndBody_kept_apart :
    let s := pageStart fileRoot "<head>x</head><body>y</body>"
    s.files.map (fun f => f.1.toText) =
        [("/build/src/a.svelte.head.html" : Text), "/build/src/a.svelte.body.html"] ∧
      Apart s.files ∧ s.files.all (fun f => Inside s.dir f.1) = true := by
  intro s
  have ordinary : ∀ p ∈ s.found, Ordinary s.config.root p := by
    intro p hp
    obtain rfl := List.mem_singleton.mp hp
    exact ⟨["src", "a.svelte"], by decide, rfl, rfl, by decide⟩
  have parts : ∀ d ∈ s.documents, (d.2.html.map HtmlPart.name).Nodup := by decide +kernel
  obtain ⟨-, -, -, -, kept⟩ := s.compile_keeps_apart (Started.recallsOwn_of_cacheDir rfl)
    (.of false none)
  obtain ⟨inside, apart⟩ := kept ordinary
  exact ⟨by decide +kernel, (apart (List.nodup_singleton _)).mpr parts, by simpa using inside⟩

/-- A page with two heads. -/
def twoHeads : String := "<head>x</head><head>y</head>"

/-- A page that is not in the project. -/
def elsewhere : Started pageHost (pageSettings ⟨true, ["app"], false⟩) pageOrder
    (pageRun "<body>x</body>") :=
  pageStart ⟨true, ["app"], false⟩ "<body>x</body>"

/-- What becomes of the page with two heads. -/
def twoHeadsDone : Run Unit :=
  compile pageHost (.of false none) (pageSettings fileRoot) pageOrder (pageRun twoHeads)

/-- A second head is written over the first, in a run that ends well; and the sections of a page
that is not in the project stay beside it. -/
theorem sections_overwritten_or_outside :
    ((pageStart fileRoot twoHeads).documents.flatMap (fun d => d.2.html) =
        [⟨"head", "x"⟩, ⟨"head", "y"⟩] ∧
      ¬ Apart (pageStart fileRoot twoHeads).files ∧ twoHeadsDone.outcome.toOption = some 0 ∧
      twoHeadsDone.tree.files.map Prod.fst =
        ([["src", "a.svelte"], ["build", "src", "a.svelte.head.html"]] : List (List Text))) ∧
    (elsewhere.dir.toText = "/build" ∧
      elsewhere.files.map (fun f => (f.1.toText, decide (Inside elsewhere.dir f.1))) =
        [(("/src/a.svelte.body.html" : Text), false)]) := by
  decide +kernel

end Componentry.Program
