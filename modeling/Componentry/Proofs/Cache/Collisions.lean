import Componentry.Proofs.Cache.Key
import Componentry.Proofs.Json.Canonical

/-!
# Keys with one text

Two keys are written alike exactly if they are equal up to halves that make a pair. So keys whose
texts have no such halves, in particular those of well-formed texts, are told apart by everything
that can change what a document compiles to. A text may have such halves, though, and a key with the
character in their place is then taken for the same one.
-/

namespace Componentry

namespace Json

/-- Is the value a word, an integer or a string? -/
def isSimple : Json → Bool
  | .null => true
  | .bool _ => true
  | .int _ => true
  | .str _ => true
  | _ => false

variable {j : Json}

theorem sorted_of_isSimple (h : j.isSimple) : j.sorted = j := by
  cases j <;> first | rfl | cases h

theorem isExact_of_isSimple (h : j.isSimple) : j.isExact := by
  cases j <;> first | rfl | cases h

theorem allPaired_of_isSimple (h : j.isSimple) : j.allPaired = j.paired := by
  cases j <;> first | rfl | cases h

theorem isSimple_paired (h : j.isSimple) : j.paired.isSimple := by
  cases j <;> first | rfl | cases h

end Json

/-! ## Options -/

namespace Options

/-- Is every option a word, an integer or a string? -/
structure Simple (o : Options) : Prop where
  dev : o.dev.isSimple
  hydratable : o.hydratable.isSimple
  css : o.css.isSimple
  cssHashPrefix : o.cssHashPrefix.isSimple
  isPublishing : o.isPublishing.isSimple

/-- The options with the character for each two halves of a string that make one. -/
def paired (o : Options) : Options :=
  ⟨o.dev.paired, o.hydratable.paired, o.css.paired, o.cssHashPrefix.paired, o.isPublishing.paired⟩

/-- The options in the order of their names. -/
def inOrder (o : Options) : Json.Fields :=
  [("css", o.css), ("css_hash_prefix", o.cssHashPrefix), ("dev", o.dev),
    ("hydratable", o.hydratable), ("is_publishing", o.isPublishing)]

theorem Simple.paired {o : Options} (h : o.Simple) : o.paired.Simple where
  dev := Json.isSimple_paired h.dev
  hydratable := Json.isSimple_paired h.hydratable
  css := Json.isSimple_paired h.css
  cssHashPrefix := Json.isSimple_paired h.cssHashPrefix
  isPublishing := Json.isSimple_paired h.isPublishing

theorem Simple.sorted {o : Options} (h : o.Simple) :
    (Json.obj o.toFields).sorted = .obj o.inOrder := by
  have values : Json.sortedFields o.toFields = o.toFields := by
    simp only [toFields, Json.sortedFields, Json.sorted_of_isSimple h.dev,
      Json.sorted_of_isSimple h.hydratable, Json.sorted_of_isSimple h.css,
      Json.sorted_of_isSimple h.cssHashPrefix, Json.sorted_of_isSimple h.isPublishing]
  rw [Json.sorted, values]
  -- the places in `inOrder` of the five options
  have places : [2, 3, 0, 1, 4].Perm (List.range 5) := by decide
  have perm := places.map fun i => o.inOrder.getD i ([], .null)
  refine congrArg Json.obj ((Json.sortFields_eq_of_perm perm ?_).trans
    (Json.sortFields_of_pairwise ?_))
  · show List.Nodup (List.map Text.ofString ["dev", "hydratable", "css", "css_hash_prefix",
      "is_publishing"])
    decide
  · show List.Pairwise _ (List.map Text.ofString ["css", "css_hash_prefix", "dev", "hydratable",
      "is_publishing"])
    decide

theorem Simple.isExact {o : Options} (h : o.Simple) : Json.exactFields o.inOrder := by
  simp [inOrder, Json.exactFields, Json.isExact_of_isSimple h.dev,
    Json.isExact_of_isSimple h.hydratable, Json.isExact_of_isSimple h.css,
    Json.isExact_of_isSimple h.cssHashPrefix, Json.isExact_of_isSimple h.isPublishing]

theorem Simple.allPaired {o : Options} (h : o.Simple) :
    Json.allPairedFields o.inOrder = o.paired.inOrder := by
  simp only [inOrder, Json.allPairedFields, Json.allPaired_of_isSimple h.dev,
    Json.allPaired_of_isSimple h.hydratable, Json.allPaired_of_isSimple h.css,
    Json.allPaired_of_isSimple h.cssHashPrefix, Json.allPaired_of_isSimple h.isPublishing]
  rfl

theorem inOrder_inj {o o' : Options} (h : o.inOrder = o'.inOrder) : o = o' := by
  simp only [inOrder, List.cons.injEq, Prod.mk.injEq, true_and, and_true] at h
  obtain ⟨css, cssHashPrefix, dev, hydratable, isPublishing⟩ := h
  cases o
  cases o'
  simp_all

end Options

/-! ## Keys -/

/-- The package with the character for each two halves of its name that make one. -/
def Package.paired : Package → Package
  | .named name => .named name.paired
  | p => p

theorem Package.toJson_inj {p p' : Package} (h : p.toJson = p'.toJson) : p = p' := by
  cases p <;> cases p' <;> simp_all [toJson]

theorem Package.allPaired_toJson (p : Package) : p.toJson.allPaired = p.paired.toJson := by
  cases p <;> rfl

theorem archJson_inj {a a' : Option Text} (h : archJson a = archJson a') : a = a' := by
  cases a <;> cases a' <;> simp_all [archJson]

theorem allPaired_archJson (a : Option Text) :
    (archJson a).allPaired = archJson (a.map Text.paired) := by
  cases a <;> rfl

theorem Json.ofText?_inj {s s' : Option Text} (h : Json.ofText? s = Json.ofText? s') : s = s' := by
  cases s <;> cases s' <;> simp_all [Json.ofText?]

theorem Json.allPaired_ofText? (s : Option Text) :
    (Json.ofText? s).allPaired = Json.ofText? (s.map Text.paired) := by
  cases s <;> rfl

namespace CacheKey

/-- The key with the character for each two halves in it that make one. -/
def paired (k : CacheKey) : CacheKey where
  options := k.options.paired
  path := k.path.paired
  sourceHash := k.sourceHash.paired
  arch := k.arch.map Text.paired
  package := k.package.paired
  hot := k.hot
  production := k.production
  compilerVersion := k.compilerVersion.paired
  runtimePackage := k.runtimePackage.map Text.paired
  preprocess := k.preprocess

/-- A key in which no two halves meet that make a character. -/
def Whole (k : CacheKey) : Prop := k.paired = k

variable {k k' : CacheKey}

/-- The versions are in order. -/
theorem sorted_versions (version : Text) (preprocess : Nat) :
    (Json.obj [("compiler", .str version), ("preprocess", .int preprocess)]).sorted =
      .obj [("compiler", .str version), ("preprocess", .int preprocess)] := by
  refine congrArg Json.obj (Json.sortFields_of_pairwise ?_)
  show List.Pairwise _ (List.map Text.ofString ["compiler", "preprocess"])
  decide

theorem isExact_sorted_toJson (simple : k.options.Simple) : k.toJson.sorted.isExact := by
  have arch : (archJson k.arch).isExact := by cases k.arch <;> rfl
  have package : k.package.toJson.isExact := by cases k.package <;> rfl
  have runtime : (Json.ofText? k.runtimePackage).isExact := by cases k.runtimePackage <;> rfl
  rw [sorted_toJson, inOrder, simple.sorted, sorted_versions]
  simp [Json.isExact, Json.exactFields, simple.isExact, arch, package, runtime]

theorem allPaired_sorted_toJson (simple : k.options.Simple) :
    k.toJson.sorted.allPaired = k.paired.toJson.sorted := by
  rw [sorted_toJson, sorted_toJson, inOrder, inOrder, simple.sorted, sorted_versions,
    sorted_versions]
  show _ = Json.obj [_, _, (_, (Json.obj k.options.paired.toFields).sorted), _, _, _, _, _, _]
  rw [simple.paired.sorted]
  simp only [Json.allPaired, Json.allPairedFields, simple.allPaired, allPaired_archJson,
    Package.allPaired_toJson, Json.allPaired_ofText?]
  rfl

theorem sorted_toJson_inj (simple : k.options.Simple) (simple' : k'.options.Simple)
    (h : k.toJson.sorted = k'.toJson.sorted) : k = k' := by
  rw [sorted_toJson, sorted_toJson, inOrder, inOrder, simple.sorted, simple'.sorted,
    sorted_versions, sorted_versions] at h
  simp only [Json.obj.injEq, List.cons.injEq, Prod.mk.injEq, Json.bool.injEq, Json.str.injEq,
    Json.int.injEq, Int.natCast_inj, true_and, and_true] at h
  obtain ⟨arch, hot, options, package, path, production, runtime, source, version, preprocess⟩ := h
  have arch := archJson_inj arch
  have options := Options.inOrder_inj options
  have package := Package.toJson_inj package
  have runtime := Json.ofText?_inj runtime
  cases k
  cases k'
  simp_all

/-- **Keys are written alike** exactly if they are equal up to pairs of halves. -/
theorem text_eq_iff (simple : k.options.Simple) (simple' : k'.options.Simple) :
    k.text = k'.text ↔ k.paired = k'.paired := by
  rw [text, text, Json.canonical_eq_iff (isExact_sorted_toJson simple)
    (isExact_sorted_toJson simple'), allPaired_sorted_toJson simple, allPaired_sorted_toJson simple']
  refine ⟨sorted_toJson_inj simple.paired simple'.paired, fun h => by rw [h]⟩

theorem options_of_derive? {document : Document} {options : Options} {hot production : Bool}
    {version : Text} {runtime : Option Text}
    (h : derive? document options hot version production runtime = some k) : k.options = options := by
  rw [derive?] at h
  split at h
  · cases h
  · rw [← Option.some.inj h]

/-- **What the texts of keys tell apart.** Of any two documents that may be kept, in any two projects
whose options are words, integers and strings, the keys have one text exactly if they are equal up to
halves that make a pair. In particular, if no such halves meet in them, keys with one text agree in
everything. -/
theorem derived_texts_eq_iff {document document' : Document} {options options' : Options}
    {hot hot' production production' : Bool} {version version' : Text}
    {runtime runtime' : Option Text}
    (h : derive? document options hot version production runtime = some k)
    (h' : derive? document' options' hot' version' production' runtime' = some k')
    (simple : options.Simple) (simple' : options'.Simple) :
    (k.text = k'.text ↔ k.paired = k'.paired) ∧
      (k.Whole → k'.Whole → k.text = k'.text → k = k') := by
  rw [← options_of_derive? h] at simple
  rw [← options_of_derive? h'] at simple'
  have same := text_eq_iff simple simple'
  refine ⟨same, fun whole whole' texts => ?_⟩
  rw [← whole, same.mp texts, whole']

/-- The options with a prefix for the names of classes. -/
def prefixOptions (name : Text) : Options := { cssHashPrefix := .str name }

/-- The key of a document in a project with such options. -/
def prefixKey? (name : Text) : Option CacheKey :=
  derive? { path := "A.svelte", content := "<p>x</p>", sourceHash := "0" } (prefixOptions name) false
    "3" false none

/-- Options with a character and with the two halves that make it give different keys of one text.
-/
theorem texts_of_halves : ∃ k k', prefixKey? [.half 61, .half 1536] = some k ∧
    prefixKey? [.char (.ofNat 0x1F600)] = some k' ∧ k.text = k'.text ∧ k ≠ k' := by
  have simple (name : Text) : (prefixOptions name).Simple := ⟨rfl, rfl, rfl, rfl, rfl⟩
  have paired : Text.paired [.half 61, .half 1536] = Text.paired [.char (.ofNat 0x1F600)] := by
    decide
  have first : prefixKey? [.half 61, .half 1536] = some _ := rfl
  have second : prefixKey? [.char (.ofNat 0x1F600)] = some _ := rfl
  refine ⟨_, _, first, second, (derived_texts_eq_iff first second (simple _) (simple _)).1.mpr ?_, ?_⟩
  · simp only [CacheKey.paired, prefixOptions, Options.paired, Json.paired, paired]
  · intro same
    have prefixes := congrArg (fun k => k.options.cssHashPrefix) same
    exact absurd (Json.str.inj prefixes) (by decide)

end CacheKey

end Componentry
