import Componentry.Proofs.Compiler.Ownership
import Componentry.Proofs.Files.Components
import Componentry.Proofs.Program.Delivery

/-!
# Names of outputs

The files of a document are named after it: each has the document's last name with an ending behind
it, and lies where the document's path leads. No ending has a letter that stands in the extension of
components, so the name of a file of a component tells its ending, and the name of the component.
-/

namespace Componentry

/-! ## Endings -/

/-- The byte of `v`, a letter in the extension of components. -/
def letter : UInt8 := 0x76

/-- Can this stand behind the name of a component and be told from it? -/
structure IsEnding (e : Text) : Prop where
  single : .char '/' ∉ e
  solid : ∃ c ∈ e, c ≠ .char '.'
  whole : ∀ c ∈ e, c.isHalf = false
  foreign : letter ∉ nameBytes e

instance (e : Text) : Decidable (IsEnding e) :=
  decidable_of_iff (.char '/' ∉ e ∧ (∃ c ∈ e, c ≠ .char '.') ∧ (∀ c ∈ e, c.isHalf = false) ∧
      letter ∉ nameBytes e)
    ⟨fun ⟨single, solid, whole, foreign⟩ => ⟨single, solid, whole, foreign⟩,
      fun h => ⟨h.single, h.solid, h.whole, h.foreign⟩⟩

theorem IsEnding.isName {e : Text} (h : IsEnding e) {base : Text} (single : .char '/' ∉ base) :
    Path.IsName (base ++ e) :=
  .append single h.single h.solid

theorem stylesheetName_eq_append (base : Text) (k : Nat) :
    stylesheetName base k = base ++ stylesheetName "" k := by
  cases k with
  | zero => rfl
  | succ k => rw [stylesheetName_succ, stylesheetName_succ]; rfl

/-- What stands behind the name in the name of a stylesheet. -/
theorem forall_mem_stylesheetName {P : CodePoint → Prop} (fixed : ∀ c ∈ (".css" : Text), P c)
    (digit : ∀ c : CodePoint, c.isDigit = true → P c) (k : Nat) :
    ∀ c ∈ stylesheetName "" k, P c := by
  cases k with
  | zero => exact fixed
  | succ k =>
    rw [stylesheetName_succ]
    intro c hc
    rcases List.mem_append.mp hc with none_ | hc
    · cases none_
    rcases List.mem_append.mp hc with dot | hc
    · exact fixed c (List.mem_append_left _ dot)
    rcases List.mem_append.mp hc with number | css
    · exact digit c (Text.digits_ofNat _ c number)
    · exact fixed c css

/-- A character that is in no fixed part of a stylesheet's name and no digit is not in it. -/
theorem not_mem_stylesheetName {c : CodePoint} (fixed : c ∉ (".css" : Text))
    (digit : c.isDigit = false) (k : Nat) : c ∉ stylesheetName "" k := by
  intro mem
  refine forall_mem_stylesheetName (P := (· ≠ c)) ?_ ?_ k c mem rfl
  · rintro d hd rfl
    exact fixed hd
  · rintro d hd rfl
    exact absurd hd (by simp [digit])

/-- A digit is another byte than the letter. -/
theorem letter_not_mem_of_isDigit {c : CodePoint} (h : c.isDigit = true) : letter ∉ nameBytes [c] := by
  cases c with
  | half n => cases h
  | char c =>
    have bound : c.toNat ≤ 57 := by
      have digit : c.isDigit = true := h
      simp only [Char.isDigit, Bool.and_eq_true, decide_eq_true_eq] at digit
      exact UInt32.le_iff_toNat_le.mp digit.2
    have bytes : nameBytes [.char c] = [c.toNat.toUInt8] := by
      have encoded : String.utf8EncodeChar c = [c.toNat.toUInt8] :=
        if_pos (Nat.le_trans bound (by decide))
      exact (nameBytes_chars [c]).trans (by rw [List.flatMap_singleton, encoded])
    rw [bytes, List.mem_singleton]
    intro same
    have value := congrArg UInt8.toNat same
    simp [letter] at value
    omega

theorem isEnding_stylesheetName (k : Nat) : IsEnding (stylesheetName "" k) where
  single := not_mem_stylesheetName (by decide) (by decide) k
  foreign := by
    intro mem
    obtain ⟨c, hc, own⟩ := List.mem_flatMap.mp mem
    refine forall_mem_stylesheetName (by decide) (fun c => letter_not_mem_of_isDigit) k c hc ?_
    exact List.mem_flatMap.mpr ⟨c, List.mem_singleton_self c, own⟩
  solid := by
    refine ⟨.char 'c', ?_, by decide⟩
    cases k with
    | zero => decide
    | succ k =>
      rw [stylesheetName_succ]
      simp only [List.mem_append]
      exact .inr (.inr (.inr (by decide)))
  whole := by
    refine forall_mem_stylesheetName (by decide) (fun c hc => ?_) k
    cases c with
    | char c => rfl
    | half n => cases hc

namespace Program

/-- What stands behind the name of a page in the name of one of its sections. -/
def sectionEnding (name : Text) : Text := "." ++ name ++ ".html"

/-- What stands behind the name of a document in those of its module and the map of it. -/
def codeEndings (m : Module) : List Text :=
  if m.sourceMap.truthy then [".js", ".js.map"] else [".js"]

theorem mem_codeEndings {m : Module} {e : Text} (h : e ∈ codeEndings m) :
    e = ".js" ∨ e = ".js.map" := by
  rw [codeEndings] at h
  split at h
  · simpa using h
  · exact .inl (List.mem_singleton.mp h)

theorem nodup_codeEndings (m : Module) : (codeEndings m).Nodup := by
  rw [codeEndings]
  split <;> decide

/-- The endings of a document's files, in order. -/
def endingsOf (path : Text) (r : Register) : List Text :=
  r.modules.flatMap codeEndings ++
    r.stylesheets.map (fun s => s.path.drop (basename path).length) ++
    r.html.map (fun part => sectionEnding part.name)

end Program

/-- What is registered for a document is sections, or a module with stylesheets. -/
theorem Register.IsFor.cases {path : Text} {r : Register} (h : r.IsFor path) :
    (r.modules = [] ∧ r.stylesheets = [] ∧ ∀ part ∈ r.html, part.name = "head" ∨ part.name = "body") ∨
      ∃ m, r.modules = [m] ∧ m.path = path ∧ SheetsFor path r.stylesheets ∧ r.html = [] := by
  cases h with
  | silent silent => exact .inl ⟨silent.modules, silent.stylesheets, by simp [silent.html]⟩
  | @added r result silent isFor =>
    cases result with
    | page parts =>
      refine .inl ⟨silent.modules, silent.stylesheets, ?_⟩
      intro part hpart
      exact isFor part (by simpa [Register.add, silent.html] using hpart)
    | code m =>
      obtain ⟨own, sheets⟩ := isFor
      refine .inr ⟨m, ?_, own, ?_, silent.html⟩
      · simp [Register.add, silent.modules]
      · simpa [Register.add, silent.stylesheets] using sheets

/-- What stands behind the document's name in the name of a stylesheet. -/
theorem SheetsFor.exists_ending {path : Text} {sheets : List Stylesheet} (h : SheetsFor path sheets)
    {s : Stylesheet} (mem : s ∈ sheets) :
    ∃ e, s.path = basename path ++ e ∧ IsEnding e ∧ .char 'j' ∉ e ∧ .char 'l' ∉ e := by
  rcases h.named s mem with own | ⟨k, name⟩
  · exact ⟨".component.css", own, by decide, by decide, by decide⟩
  · exact ⟨stylesheetName "" k, name.trans (stylesheetName_eq_append _ k), isEnding_stylesheetName k,
      not_mem_stylesheetName (by decide) (by decide) k,
      not_mem_stylesheetName (by decide) (by decide) k⟩

namespace Program

variable {path e : Text} {r : Register}

/-- An ending is that of a module, or of something beside one, or that of a section. -/
theorem mem_endingsOf (isFor : r.IsFor path) (mem : e ∈ endingsOf path r) :
    IsEnding e ∧ ((r.modules ≠ [] ∧ .char 'l' ∉ e) ∨ ∃ part ∈ r.html, e = sectionEnding part.name) := by
  rw [endingsOf] at mem
  rcases isFor.cases with ⟨modules, sheets, parts⟩ | ⟨m, modules, -, sheets, html⟩
  · simp only [modules, sheets, List.flatMap_nil, List.map_nil, List.nil_append, List.mem_map] at mem
    obtain ⟨part, hpart, rfl⟩ := mem
    refine ⟨?_, .inr ⟨part, hpart, rfl⟩⟩
    rcases parts part hpart with name | name
    · exact name ▸ (by decide : IsEnding (sectionEnding "head"))
    · exact name ▸ (by decide : IsEnding (sectionEnding "body"))
  · rw [modules, html, List.flatMap_singleton, List.map_nil, List.append_nil] at mem
    have some_ : r.modules ≠ [] := by simp [modules]
    rcases List.mem_append.mp mem with code | sheet
    · rcases mem_codeEndings code with rfl | rfl
      · exact ⟨by decide, .inl ⟨some_, by decide⟩⟩
      · exact ⟨by decide, .inl ⟨some_, by decide⟩⟩
    · obtain ⟨s, hs, rfl⟩ := List.mem_map.mp sheet
      obtain ⟨e, name, ending, -, other⟩ := sheets.exists_ending hs
      rw [name, List.drop_left]
      exact ⟨ending, .inl ⟨some_, other⟩⟩

theorem sectionEnding_injective : Function.Injective sectionEnding := by
  intro a b same
  have front : ("." : Text) ++ a = "." ++ b := List.append_cancel_right same
  exact List.append_cancel_left front

/-- **The endings of a document differ** where its sections do. -/
theorem nodup_endingsOf (isFor : r.IsFor path) :
    (endingsOf path r).Nodup ↔ (r.html.map HtmlPart.name).Nodup := by
  rw [endingsOf]
  rcases isFor.cases with ⟨modules, sheets, -⟩ | ⟨m, modules, -, sheets, html⟩
  · rw [modules, sheets]
    have parts : r.html.map (fun part => sectionEnding part.name) =
        (r.html.map HtmlPart.name).map sectionEnding := by simp
    simp only [List.flatMap_nil, List.map_nil, List.nil_append, parts]
    exact List.nodup_map_iff sectionEnding_injective
  · rw [modules, html, List.flatMap_singleton, List.map_nil, List.append_nil]
    refine iff_of_true ?_ List.nodup_nil
    have named : ∀ s ∈ r.stylesheets, basename path ++ s.path.drop (basename path).length = s.path := by
      intro s hs
      obtain ⟨e, name, -⟩ := sheets.exists_ending hs
      rw [name, List.drop_left]
    refine List.nodup_append.mpr ⟨nodup_codeEndings m, ?_, ?_⟩
    · have paths : (r.stylesheets.map fun s => s.path.drop (basename path).length).map
          (basename path ++ ·) = r.stylesheets.map Stylesheet.path := by
        rw [List.map_map]
        exact List.map_congr_left named
      exact List.Nodup.of_map _ (paths ▸ sheets.distinct)
    · intro a ha b hb same
      obtain ⟨s, hs, rfl⟩ := List.mem_map.mp hb
      obtain ⟨e, name, -, noJ, -⟩ := sheets.exists_ending hs
      rw [name, List.drop_left] at same
      have letter : .char 'j' ∈ a := by
        rcases mem_codeEndings ha with rfl | rfl <;> decide
      exact noJ (same ▸ letter)

/-! ## Where files go -/

/-- Is a path parted into what comes up to its last slash, and its last name? -/
structure Parted (path front base : Text) : Prop where
  whole : path = front ++ base
  front : Path.EndsDir front
  single : .char '/' ∉ base
  name : basename path = base

theorem exists_parted (plain : .char '\\' ∉ path) : ∃ front base, Parted path front base := by
  obtain ⟨front, base, rfl, hfront, hbase⟩ := exists_basename path
  refine ⟨front, base, rfl, fun c hc => ?_, fun mem => hbase _ mem (.inl rfl),
    basename_append hfront hbase⟩
  rcases hfront c hc with slash | rfl
  · exact slash
  · exact absurd (List.mem_append_left base (List.mem_of_getLast? hc)) plain

variable {front base : Text}

/-- A file beside the document's module, whose name goes on from the document's. -/
theorem Parted.address_child (h : Parted path front base) (dir : Path) (ending : IsEnding e) :
    (dir.child (path ++ e)).address = (dir.child front).address ++ [nameBytes (base ++ e)] := by
  rw [h.whole, List.append_assoc]
  exact Path.address_child_append h.front (ending.isName h.single)

/-- The map of a module is beside it. -/
theorem Parted.address_map (h : Parted path front base) (dir : Path) :
    ((dir.child (path ++ ".js")).extended ".map").address =
      (dir.child front).address ++ [nameBytes (base ++ ".js.map")] := by
  have names : (dir.child (path ++ ".js")).names = (dir.child front).names ++ [base ++ ".js"] := by
    rw [h.whole, List.append_assoc]
    exact Path.child_append h.front (IsEnding.isName (by decide) h.single)
  have ending : IsEnding ".js.map" := by decide
  refine Path.address_of_names ?_ (ending.isName h.single).up
  rw [Path.extended_of_names names, List.append_assoc]
  rfl

/-- Where the outputs of a document are that has a name. -/
theorem Parted.parent (h : Parted path front base) (dir : Path) (named : HasName path) :
    (dir.join (Path.ofText path).parent).address = (dir.child front).address := by
  rcases named with rfl | named
  · obtain rfl : ("." : Text) = base := h.name
    obtain rfl : front = [] := List.append_left_eq_self.mp h.whole.symm
    rfl
  · rw [h.name] at named
    rw [h.whole, Path.ofText_append h.front named, Path.child, Path.parent]
    simp

/-- A stylesheet is where its document's path leads. -/
theorem address_sheetFile (dir : Path) (path : Text) {s : Stylesheet} (named : Path.IsName s.path) :
    (sheetFile dir path s).1.address =
      (dir.join (Path.ofText path).parent).address ++ [nameBytes s.path] := by
  have here (p : Path) : (p.child []).address = p.address := by
    have names : (p.child []).names = p.names ++ [] := rfl
    rw [Path.address, names, List.append_nil, Path.address]
  have beside (p : Path) : (p.child ([] ++ s.path)).address =
      (p.child []).address ++ [nameBytes s.path] :=
    Path.address_child_append (by simp [Path.EndsDir]) named
  have address := beside (dir.join (Path.ofText path).parent)
  rwa [here] at address

theorem path_partFile (dir : Path) (path : Text) (part : HtmlPart) :
    (partFile dir path part).1 = dir.child (path ++ sectionEnding part.name) := by
  rw [sectionEnding, ← List.append_assoc, ← List.append_assoc]
  rfl

/-- Has a file this ending behind the document's name, and is it in the document's place? -/
def Placed (dir : Path) (path : Text) (f : Path × Json) (e : Text) : Prop :=
  ∃ place, f.1.address = place ++ [nameBytes (basename path ++ e)] ∧
    (HasName path → place = (dir.join (Path.ofText path).parent).address)

/-- **The files of a document have its name**, with their endings. -/
theorem forall₂_placed (isFor : r.IsFor path) (plain : .char '\\' ∉ path) (dir : Path) :
    List.Forall₂ (Placed dir path) (filesOf dir path r) (endingsOf path r) := by
  obtain ⟨front, base, h⟩ := exists_parted plain
  have beside {f : Path × Json} {e : Text}
      (address : f.1.address = (dir.child front).address ++ [nameBytes (base ++ e)]) :
      Placed dir path f e :=
    ⟨_, h.name ▸ address, fun named => (h.parent dir named).symm⟩
  have along {α : Type} {outputs : List α} {file : α → Path × Json} {ending : α → Text}
      (each : ∀ a ∈ outputs, Placed dir path (file a) (ending a)) :
      List.Forall₂ (Placed dir path) (outputs.map file) (outputs.map ending) := by
    rw [List.forall₂_map_left_iff, List.forall₂_map_right_iff]
    exact List.forall₂_same.mpr each
  rw [filesOf, endingsOf]
  rcases isFor.cases with ⟨modules, sheets, parts⟩ | ⟨m, modules, own, sheets, html⟩
  · simp only [modules, sheets, List.flatMap_nil, List.map_nil, List.nil_append]
    refine along fun part hpart => beside ?_
    have ending : IsEnding (sectionEnding part.name) := by
      rcases parts part hpart with name | name <;> rw [name] <;> decide
    rw [path_partFile]
    exact h.address_child dir ending
  · rw [modules, html, List.flatMap_singleton, List.flatMap_singleton, List.map_nil, List.map_nil,
      List.append_nil, List.append_nil]
    refine List.rel_append ?_ (along fun s hs => ?_)
    · have code : Placed dir path (dir.child (m.path ++ ".js"), m.data) ".js" :=
        beside (own ▸ h.address_child dir (by decide))
      rw [moduleFiles, codeEndings]
      split
      · have map := h.address_map dir
        rw [← own] at map
        exact .cons code (.cons (beside map) .nil)
      · exact .cons code .nil
    · obtain ⟨e, name, ending, -⟩ := sheets.exists_ending hs
      have single : .char '/' ∉ basename path := h.name ▸ h.single
      have address := address_sheetFile dir path (name ▸ ending.isName single)
      rw [name] at address
      rw [name, List.drop_left]
      exact ⟨_, address, fun _ => rfl⟩

/-! ## Telling names apart -/

/-- Texts without halves are known by their bytes. -/
theorem eq_of_nameBytes_eq {a b : Text} (ha : ∀ c ∈ a, c.isHalf = false)
    (hb : ∀ c ∈ b, c.isHalf = false) (same : nameBytes a = nameBytes b) : a = b := by
  have bytes {s : Text} (whole : ∀ c ∈ s, c.isHalf = false) : nameBytes s = Text.bytes s := by
    obtain ⟨cs, rfl⟩ := exists_chars whole
    rw [nameBytes_chars, bytes_chars]
  rw [bytes ha, bytes hb] at same
  have read := decodeUtf8_bytes ha
  rw [same, decodeUtf8_bytes hb] at read
  exact (Except.ok.inj read).symm

/-- A list is parted in one way at the last place of a member. -/
theorem eq_of_append_cons_eq {α : Type} {x : α} {a a' b b' : List α} (hb : x ∉ b) (hb' : x ∉ b')
    (same : a ++ x :: b = a' ++ x :: b') : a = a' ∧ b = b' := by
  have only {a a' b b' : List α} (hb : x ∉ b) (more : List α) (longer : a' = a ++ more)
      (rest : x :: b = more ++ x :: b') : a = a' ∧ b = b' := by
    cases more with
    | nil => exact ⟨by simpa using longer.symm, List.tail_eq_of_cons_eq rest⟩
    | cons y more =>
      obtain ⟨-, rfl⟩ := List.cons.inj rest
      exact absurd (by simp) hb
  rcases List.append_eq_append_iff.mp same with ⟨more, longer, rest⟩ | ⟨more, longer, rest⟩
  · exact only hb more longer rest
  · obtain ⟨front, back⟩ := only hb' more longer rest
    exact ⟨front.symm, back.symm⟩

theorem nameBytes_component (stem e : Text) : nameBytes (stem ++ componentExtension ++ e) =
    nameBytes (stem ++ ".s") ++ letter :: nameBytes ("elte" ++ e) := by
  have parts : stem ++ componentExtension ++ e = (stem ++ ".s") ++ ("v" ++ ("elte" ++ e)) := by
    simp only [List.append_assoc]
    rfl
  rw [parts, nameBytes_append, nameBytes_append "v"]
  rfl

theorem letter_not_mem_append {e : Text} (h : IsEnding e) {a : Text} (other : letter ∉ nameBytes a) :
    letter ∉ nameBytes (a ++ e) := by
  rw [nameBytes_append]
  exact fun mem => (List.mem_append.mp mem).elim other h.foreign

theorem hasName_of_isComponentPath (h : IsComponentPath path) (plain : .char '\\' ∉ path) :
    HasName path := by
  obtain ⟨front, base, parted⟩ := exists_parted plain
  refine h.imp_right fun ⟨stem, name⟩ => ?_
  have single : .char '/' ∉ stem ++ componentExtension := name ▸ parted.name ▸ parted.single
  rw [name]
  exact .append (fun mem => single (List.mem_append_left _ mem)) (by decide) ⟨'v', by decide⟩

/-- Do the modules of documents at two paths go to one file? -/
def Meet (dir : Path) (path path' : Text) : Prop :=
  (dir.child (path ++ ".js")).address = (dir.child (path' ++ ".js")).address

variable {dir : Path} {path' e' : Text} {f f' : Path × Json}

/-- Documents meet in the same place, by the same name. -/
theorem meet_iff {front' base' : Text} (h : Parted path front base)
    (h' : Parted path' front' base') :
    Meet dir path path' ↔
      (dir.child front).address = (dir.child front').address ∧ nameBytes base = nameBytes base' := by
  rw [Meet, h.address_child dir (by decide), h'.address_child dir (by decide)]
  constructor
  · intro same
    obtain ⟨place, names⟩ := List.append_inj' same rfl
    have name := List.head_eq_of_cons_eq names
    rw [nameBytes_append, nameBytes_append] at name
    exact ⟨place, List.append_cancel_right name⟩
  · rintro ⟨place, name⟩
    rw [place, nameBytes_append, name, ← nameBytes_append]

/-- Where documents meet, their files with one ending do. -/
theorem Meet.address_child (h : Meet dir path path') (plain : .char '\\' ∉ path)
    (plain' : .char '\\' ∉ path') (ending : IsEnding e) :
    (dir.child (path ++ e)).address = (dir.child (path' ++ e)).address := by
  obtain ⟨front, base, parted⟩ := exists_parted plain
  obtain ⟨front', base', parted'⟩ := exists_parted plain'
  obtain ⟨place, name⟩ := (meet_iff parted parted').mp h
  rw [parted.address_child dir ending, parted'.address_child dir ending, place, nameBytes_append,
    name, ← nameBytes_append]

/-- Documents with names meet only where their paths do. -/
theorem Meet.address_eq (h : Meet dir path path') (plain : .char '\\' ∉ path)
    (plain' : .char '\\' ∉ path') (named : Path.IsName (basename path))
    (named' : Path.IsName (basename path')) : (dir.child path).address = (dir.child path').address := by
  obtain ⟨front, base, parted⟩ := exists_parted plain
  obtain ⟨front', base', parted'⟩ := exists_parted plain'
  obtain ⟨place, name⟩ := (meet_iff parted parted').mp h
  rw [parted.name] at named
  rw [parted'.name] at named'
  rw [parted.whole, parted'.whole, Path.address_child_append parted.front named,
    Path.address_child_append parted'.front named', place, name]

/-- The name of a file of a component tells the name of the component, and the ending. -/
theorem nameBytes_eq_of_component (component : IsComponentPath path)
    (component' : IsComponentPath path') (ending : IsEnding e) (ending' : IsEnding e')
    (same : nameBytes (basename path ++ e) = nameBytes (basename path' ++ e')) :
    nameBytes (basename path) = nameBytes (basename path') ∧ e = e' := by
  have equal {a : List UInt8} (same : a ++ nameBytes e = a ++ nameBytes e') : e = e' :=
    eq_of_nameBytes_eq ending.whole ending'.whole (List.append_cancel_left same)
  have apart (stem : Text) {e e' : Text} (ending : IsEnding e) :
      nameBytes (basename "." ++ e) ≠ nameBytes (stem ++ componentExtension ++ e') := by
    intro name
    refine letter_not_mem_append ending (a := basename ".") (by decide) ?_
    rw [name, nameBytes_component]
    simp
  rcases component with rfl | ⟨stem, name⟩ <;> rcases component' with rfl | ⟨stem', name'⟩
  · rw [nameBytes_append, nameBytes_append] at same
    exact ⟨rfl, equal same⟩
  · rw [name'] at same
    exact absurd same (apart stem' ending)
  · rw [name] at same
    exact absurd same.symm (apart stem ending')
  · rw [name, name'] at same ⊢
    have parts := same
    rw [nameBytes_component, nameBytes_component] at parts
    obtain ⟨-, back⟩ := eq_of_append_cons_eq (letter_not_mem_append ending (by decide))
      (letter_not_mem_append ending' (by decide)) parts
    rw [nameBytes_append, nameBytes_append] at back
    obtain rfl := equal back
    rw [nameBytes_append, nameBytes_append _ e] at same
    exact ⟨List.append_cancel_right same, rfl⟩

/-- **A file of two components has one ending**, and the components meet. -/
theorem meet_of_placed (plain : .char '\\' ∉ path) (plain' : .char '\\' ∉ path')
    (component : IsComponentPath path) (component' : IsComponentPath path') (ending : IsEnding e)
    (ending' : IsEnding e') (placed : Placed dir path f e) (placed' : Placed dir path' f' e')
    (same : f.1.address = f'.1.address) : Meet dir path path' ∧ e = e' := by
  obtain ⟨front, base, h⟩ := exists_parted plain
  obtain ⟨front', base', h'⟩ := exists_parted plain'
  obtain ⟨place, address, own⟩ := placed
  obtain ⟨place', address', own'⟩ := placed'
  rw [address, address'] at same
  obtain ⟨places, names⟩ := List.append_inj' same rfl
  obtain ⟨bases, rfl⟩ := nameBytes_eq_of_component component component' ending ending'
    (List.head_eq_of_cons_eq names)
  have named := hasName_of_isComponentPath component plain
  have named' := hasName_of_isComponentPath component' plain'
  rw [own named, own' named', h.parent dir named, h'.parent dir named'] at places
  rw [h.name, h'.name] at bases
  exact ⟨(meet_iff h h').mpr ⟨places, bases⟩, rfl⟩

end Program

end Componentry
