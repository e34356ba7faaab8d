import Componentry.Cache.Key
import Componentry.Proofs.Json.Sorted

/-!
# What a key tells

The text of a key is written so that it tells the document apart: of two keys of one project that
have the same text, the documents have the same path, the same digest of their text and the same
kind of architecture, and both or neither can be replaced while running. Texts are told apart as far
as they can be written, which is up to halves that make a pair.
-/

namespace Componentry

namespace Json

/-! ## Plain values -/

/-- Is the value a word, a string or the empty list? -/
def isPlain : Json → Bool
  | .null => true
  | .bool _ => true
  | .str _ => true
  | .arr items => items.isEmpty
  | _ => false

/-- The value with the character for each two halves of a string that make one. -/
def paired : Json → Json
  | .str s => .str s.paired
  | j => j

/-- The first character of a plain value. -/
def opening : Json → CodePoint
  | .null => .char 'n'
  | .bool true => .char 't'
  | .bool false => .char 'f'
  | .str _ => .char '"'
  | _ => .char '['

variable {l : Layout} {a b : Json} {k x y : Text}

theorem sorted_of_isPlain (h : a.isPlain) : a.sorted = a := by
  cases a with
  | arr items => simp_all [isPlain, sorted, sortedItems]
  | obj fields => cases h
  | _ => rfl

theorem head?_written (h : a.isPlain) : (written l a ++ x).head? = some a.opening := by
  cases a with
  | null => rfl
  | bool b => cases b <;> rfl
  | str s => rfl
  | arr items => rfl
  | _ => cases h

theorem isPlain_cases (h : a.isPlain) :
    a = .null ∨ a = .bool true ∨ a = .bool false ∨ a = .arr [] ∨ ∃ s, a = .str s := by
  cases a with
  | null => exact .inl rfl
  | bool v => cases v <;> simp
  | str s => simp
  | arr items => simpa [isPlain] using h
  | _ => cases h

/-- Plain values that start alike are equal, unless they are strings. -/
theorem eq_of_opening_eq (ha : a.isPlain) (hb : b.isPlain) (h : a.opening = b.opening) :
    a = b ∨ ∃ s t, a = .str s ∧ b = .str t := by
  rcases isPlain_cases ha with rfl | rfl | rfl | rfl | ⟨s, rfl⟩ <;>
    rcases isPlain_cases hb with rfl | rfl | rfl | rfl | ⟨t, rfl⟩ <;> simp [opening] at h ⊢

/-- A plain value can be told from its text, and so can what follows it. -/
theorem written_append_inj (ha : a.isPlain) (hb : b.isPlain)
    (h : written l a ++ x = written l b ++ y) : a.paired = b.paired ∧ x = y := by
  have first : a.opening = b.opening := by
    have heads := congrArg List.head? h
    rw [head?_written ha, head?_written hb] at heads
    exact Option.some.inj heads
  rcases eq_of_opening_eq ha hb first with rfl | ⟨s, t, rfl, rfl⟩
  · exact ⟨rfl, List.append_cancel_left h⟩
  · obtain ⟨same, rest⟩ := writtenString_append_inj h
    exact ⟨congrArg Json.str same, rest⟩

/-- The first of several fields can be told from their text if its value is plain. -/
theorem writtenFields_cons_inj {f g : Text × Json} {fields others : Fields} (ha : a.isPlain)
    (hb : b.isPlain) (h : writtenFields l ((k, a) :: f :: fields) ++ x =
      writtenFields l ((k, b) :: g :: others) ++ y) :
    a.paired = b.paired ∧
      writtenFields l (f :: fields) ++ x = writtenFields l (g :: others) ++ y := by
  simp only [writtenFields_cons_cons, List.append_assoc] at h
  obtain ⟨same, rest⟩ :=
    written_append_inj ha hb (List.append_cancel_left (List.append_cancel_left h))
  exact ⟨same, List.append_cancel_left rest⟩

/-- Fields that start with the same one go on alike. -/
theorem writtenFields_tail_eq {f g : Text × Json} {fields others : Fields}
    (h : writtenFields l ((k, a) :: f :: fields) ++ x =
      writtenFields l ((k, a) :: g :: others) ++ y) :
    writtenFields l (f :: fields) ++ x = writtenFields l (g :: others) ++ y := by
  simp only [writtenFields_cons_cons, List.append_assoc] at h
  exact List.append_cancel_left (List.append_cancel_left (List.append_cancel_left
    (List.append_cancel_left h)))

end Json

/-! ## Texts of keys -/

namespace CacheKey

/-- The fields of a key in the order of their names. -/
def inOrder (k : CacheKey) : Json.Fields :=
  [("arch", archJson k.arch), ("hmr_available", .bool k.hot),
    ("options", (Json.obj k.options.toFields).sorted), ("package_name", k.package.toJson),
    ("path", .str k.path), ("production", .bool k.production),
    ("runtime_package", .ofText? k.runtimePackage), ("source_hash", .str k.sourceHash),
    ("versions", (Json.obj [("compiler", .str k.compilerVersion),
      ("preprocess", .int k.preprocess)]).sorted)]

theorem isPlain_archJson (arch : Option Text) : (archJson arch).isPlain := by
  cases arch <;> rfl

theorem isPlain_package (p : Package) : p.toJson.isPlain := by
  cases p <;> rfl

theorem isPlain_ofText? (s : Option Text) : (Json.ofText? s).isPlain := by
  cases s <;> rfl

theorem sorted_toJson (k : CacheKey) : k.toJson.sorted = .obj k.inOrder := by
  have fields : k.toJson.sorted = .obj (Json.sortFields
      [("options", (Json.obj k.options.toFields).sorted), ("path", .str k.path),
        ("source_hash", .str k.sourceHash), ("arch", (archJson k.arch).sorted),
        ("package_name", k.package.toJson.sorted), ("hmr_available", .bool k.hot),
        ("production", .bool k.production), ("runtime_package", (Json.ofText? k.runtimePackage).sorted),
        ("versions", (Json.obj [("compiler", .str k.compilerVersion),
          ("preprocess", .int k.preprocess)]).sorted)]) := rfl
  rw [fields, Json.sorted_of_isPlain (isPlain_archJson _), Json.sorted_of_isPlain (isPlain_package _),
    Json.sorted_of_isPlain (isPlain_ofText? _)]
  -- the places in `inOrder` of the nine fields
  have places : [2, 4, 7, 0, 3, 1, 5, 6, 8].Perm (List.range 9) := by decide
  have perm := places.map fun i => k.inOrder.getD i ([], .null)
  refine congrArg Json.obj ((Json.sortFields_eq_of_perm perm ?_).trans
    (Json.sortFields_of_pairwise ?_))
  · show List.Nodup (List.map Text.ofString ["options", "path", "source_hash", "arch",
      "package_name", "hmr_available", "production", "runtime_package", "versions"])
    decide
  · show List.Pairwise _ (List.map Text.ofString ["arch", "hmr_available", "options",
      "package_name", "path", "production", "runtime_package", "source_hash", "versions"])
    decide

theorem text_eq (k : CacheKey) : k.text =
    .char '\x7b' :: (Json.writtenFields .compact k.inOrder ++ Text.ofString "\x7d") := by
  rw [text, Json.canonical, sorted_toJson, Json.written]

/-- Do the keys belong to one project? -/
structure SameProject (k k' : CacheKey) : Prop where
  options : k.options = k'.options
  production : k.production = k'.production
  runtimePackage : k.runtimePackage = k'.runtimePackage

/-- **The text of a key tells its document apart.** -/
theorem text_inj {k k' : CacheKey} (project : SameProject k k') (h : k.text = k'.text) :
    (archJson k.arch).paired = (archJson k'.arch).paired ∧ k.hot = k'.hot ∧
      k.path.paired = k'.path.paired ∧ k.sourceHash.paired = k'.sourceHash.paired := by
  rw [text_eq, text_eq, inOrder, inOrder, project.options, project.production,
    project.runtimePackage] at h
  have h := (List.cons.inj h).2
  obtain ⟨arch, h⟩ := Json.writtenFields_cons_inj (isPlain_archJson _) (isPlain_archJson _) h
  obtain ⟨hot, h⟩ := Json.writtenFields_cons_inj rfl rfl h
  have h := Json.writtenFields_tail_eq h
  obtain ⟨-, h⟩ := Json.writtenFields_cons_inj (isPlain_package _) (isPlain_package _) h
  obtain ⟨path, h⟩ := Json.writtenFields_cons_inj rfl rfl h
  have h := Json.writtenFields_tail_eq (Json.writtenFields_tail_eq h)
  obtain ⟨source, -⟩ := Json.writtenFields_cons_inj rfl rfl h
  exact ⟨arch, Json.bool.inj hot, Json.str.inj path, Json.str.inj source⟩

end CacheKey

/-! ## Architectures -/

theorem CodePoint.toNat_pair {a b : CodePoint} (ha : a.isHigh) (hb : b.isLow) :
    0x10000 ≤ (a.pair b).toNat := by
  rw [isHigh_iff] at ha
  rw [isLow_iff] at hb
  rw [pair, toNat_ofNat (by omega)]
  omega

/-- How a text starts can be seen whether or not its halves are paired. -/
theorem Text.startsWith_paired {p : Text} (hp : p.Ascii) (s : Text) :
    Text.startsWith p s.paired = Text.startsWith p s := by
  induction p generalizing s with
  | nil => rfl
  | cons c p ih =>
    have ascii := CodePoint.isAscii_iff.mp (hp c (List.mem_cons_self ..))
    match s with
    | [] => rfl
    | [a] => rfl
    | a :: b :: s =>
      rw [Text.paired]
      split
      next high =>
        -- neither the pair nor its first half is an ASCII character
        rw [Bool.and_eq_true] at high
        have above := CodePoint.toNat_pair high.1 high.2
        have half := CodePoint.isHigh_iff.mp high.1
        have first : c ≠ a.pair b := by
          intro same
          rw [← same] at above
          omega
        have second : c ≠ a := by
          intro same
          rw [← same] at half
          omega
        rw [Text.startsWith, Text.startsWith, Text.after?, if_neg first, Text.after?,
          if_neg second]
      next =>
        have rest := ih (fun d hd => hp d (List.mem_cons_of_mem _ hd)) (b :: s)
        simp only [Text.startsWith, Text.after?] at rest ⊢
        split
        · exact rest
        · rfl

/-- Documents whose architectures are written alike are both for a server, or neither is. -/
theorem Document.isServer_eq {d d' : Document}
    (h : (archJson d.arch).paired = (archJson d'.arch).paired) : d.isServer = d'.isServer := by
  rw [isServer, isServer]
  cases harch : d.arch with
  | none =>
    cases harch' : d'.arch with
    | none => rfl
    | some arch => simp [harch, harch', archJson, Json.paired] at h
  | some arch =>
    cases harch' : d'.arch with
    | none => simp [harch, harch', archJson, Json.paired] at h
    | some arch' =>
      have same : arch.paired = arch'.paired := by
        simpa [harch, harch', archJson, Json.paired] using h
      have ascii : Text.Ascii "os." := by decide
      show Except.ok _ = Except.ok _
      rw [← Text.startsWith_paired ascii arch, same, Text.startsWith_paired ascii]

end Componentry
