import Componentry.Proofs.Json.Fields
import Componentry.Proofs.SourceMap.Order
import Componentry.Proofs.SourceMap.Segments

/-!
# Reading what was written

A draft whose lines are numbered from one is read back as what it holds: its mappings in order with
repeated neighbours left out, its sources and names by their first use, and the texts of its
sources. From this follows what reading gives after any sequence of changes to a draft.
-/

namespace Componentry.SourceMap

/-! ## First uses -/

section FirstUses

variable {α : Type} [DecidableEq α]

theorem mem_firstUses {x : α} {xs : List α} : x ∈ firstUses xs ↔ x ∈ xs := by
  induction xs with
  | nil => simp [firstUses]
  | cons y xs ih =>
    by_cases h : x = y <;> simp [firstUses, h, ih]

theorem firstUses_filter (p : α → Bool) (xs : List α) :
    firstUses (xs.filter p) = (firstUses xs).filter p := by
  induction xs with
  | nil => rfl
  | cons y xs ih =>
    by_cases h : p y
    · rw [List.filter_cons_of_pos h, firstUses, firstUses, List.filter_cons_of_pos h, ih,
        List.filter_comm]
    · have absent : ((firstUses xs).filter p).filter (fun z => decide (z ≠ y)) =
          (firstUses xs).filter p := by
        refine List.filter_eq_self.mpr fun x hx => decide_eq_true ?_
        rintro rfl
        exact h (List.of_mem_filter hx)
      rw [List.filter_cons_of_neg h, firstUses, List.filter_cons_of_neg h, ih, List.filter_comm,
        absent]

theorem firstUses_eq_eraseDups [BEq α] [LawfulBEq α] (xs : List α) :
    firstUses xs = xs.eraseDups := by
  induction h : xs.length using Nat.strongRecOn generalizing xs with
  | ind n ih =>
    cases xs with
    | nil => rfl
    | cons x xs =>
      have shorter : (xs.filter fun y => !y == x).length < n := by
        have := List.length_filter_le (fun y => !y == x) xs
        simp only [List.length_cons] at h
        omega
      rw [List.eraseDups_cons, ← ih _ shorter _ rfl, firstUses_filter, firstUses]
      congr 2
      funext y
      by_cases hy : y = x <;> simp [hy]

end FirstUses

namespace Draft

theorem listed {d : Draft} {m : Mapping} (h : m ∈ d.mappings.toList) :
    m.Listed d.sources d.names := by
  constructor
  · intro o ho
    refine mem_firstUses.mpr (List.mem_filterMap.mpr ⟨m, h, ?_⟩)
    rw [Option.mem_def.mp ho]
    rfl
  · intro n hn
    exact mem_firstUses.mpr (List.mem_filterMap.mpr ⟨m, h, hn⟩)

/-! ## The mappings -/

theorem destutter'_eq_cons_tail {α : Type} {R : α → α → Prop} [DecidableRel R] (a : α)
    (xs : List α) : xs.destutter' R a = a :: (xs.destutter' R a).tail := by
  induction xs generalizing a with
  | nil => rfl
  | cons b xs ih =>
    by_cases h : R a b
    · rw [List.destutter'_cons_pos _ h, List.tail_cons]
    · rw [List.destutter'_cons_neg _ h]
      exact ih a

/-- The text of sorted mappings behind a cursor is read as those mappings, each that equals its
neighbour left out. The cursor is at its last mapping, and no mapping goes back to a line before. -/
theorem continues_written {sources names : List Text} {last : Mapping} {c : Cursor}
    {ms : List Mapping} (hlast : c.last = some last) (hline : last.generated.line = c.line)
    (sorted : (last :: ms).Pairwise fun a b => a.generated.line ≤ b.generated.line)
    (hlisted : ∀ m ∈ ms, m.Listed sources names) :
    Continues sources names c (written sources names c ms)
      ((ms.destutter' (· ≠ ·) last).tail.map Mapping.readable) := by
  induction ms generalizing c last with
  | nil => exact Continues.nil c
  | cons m ms ih =>
    have hm : m.Listed sources names := hlisted m (List.mem_cons_self ..)
    have hms : ∀ m ∈ ms, m.Listed sources names := fun m h => hlisted m (List.mem_cons_of_mem _ h)
    rw [written]
    by_cases same : m.generated.line = c.line
    · rw [if_neg (not_not.mpr same), hlast]
      by_cases equal : m = last
      · -- A repeated neighbour: nothing is written, and the cursor stays.
        subst equal
        simp only [if_true]
        rw [List.destutter'_cons_neg _ (by simp)]
        exact ih hlast hline sorted.of_cons hms
      · simp only [equal, if_false]
        have rest := ih (segment_last sources names c m) (by rw [segment_line, same]) sorted.of_cons hms
        rw [List.destutter'_cons_pos _ (Ne.symm equal), List.tail_cons, destutter'_eq_cons_tail,
          List.map_cons, List.append_assoc]
        exact rest.comma same hm
    · have later : c.line < m.generated.line := by
        have := List.rel_of_pairwise_cons sorted (List.mem_cons_self ..)
        omega
      have equal : last ≠ m := by
        rintro rfl
        exact same hline
      rw [if_pos same]
      have rest := ih (segment_last sources names { c with line := m.generated.line, column := 0 } m)
        (by rw [segment_line]) sorted.of_cons hms
      have whole := Continues.semicolons later rest hm
      rw [← List.append_assoc] at whole
      rw [List.destutter'_cons_pos _ equal, List.tail_cons, destutter'_eq_cons_tail,
        List.map_cons]
      exact whole

theorem readLines_written {sources names : List Text} {ms : List Mapping}
    (sorted : ms.Pairwise fun a b => a.generated.line ≤ b.generated.line)
    (valid : ∀ m ∈ ms, 1 ≤ m.generated.line) (hlisted : ∀ m ∈ ms, m.Listed sources names) :
    readLines sources names 1 {} (Text.splitOn ';' (written sources names {} ms)) =
      .ok ((ms.destutter (· ≠ ·)).map Mapping.readable) := by
  cases ms with
  | nil => rfl
  | cons m ms =>
    have hm : m.Listed sources names := hlisted m (List.mem_cons_self ..)
    have hms : ∀ m ∈ ms, m.Listed sources names := fun m h => hlisted m (List.mem_cons_of_mem _ h)
    rw [List.destutter_cons', destutter'_eq_cons_tail, List.map_cons, written]
    by_cases first : m.generated.line = 1
    · have rest := continues_written (segment_last sources names {} m) (by rw [segment_line, first]) sorted hms
      rw [if_neg (not_not.mpr first)]
      exact rest.readLines_segment rfl first hm
    · have rest := continues_written (segment_last sources names { line := m.generated.line, column := 0 } m)
        (by rw [segment_line]) sorted hms
      have later : 1 < m.generated.line := by
        have := valid m (List.mem_cons_self ..)
        omega
      have whole := Continues.semicolons (c := {}) later rest hm
      rw [← List.append_assoc] at whole
      rw [if_pos first]
      exact whole.read rfl

/-- A written mapping list is in the order that reading puts it in. -/
theorem pairwise_readable (d : Draft) :
    ((d.sortedMappings.destutter (· ≠ ·)).map Mapping.readable).Pairwise
      fun a b => atOrBefore a.generated b.generated := by
  rw [List.pairwise_map]
  refine (d.pairwise_sortedMappings.sublist (List.destutter_sublist _ _)).imp ?_
  intro a b h
  show atOrBefore a.generated b.generated
  exact atOrBefore_of_isLE h

theorem readMappings_mappingsText {d : Draft} (valid : ∀ m ∈ d.mappings.toList, 1 ≤ m.generated.line) :
    readMappings d.sources d.names d.mappingsText =
      .ok ((d.sortedMappings.destutter (· ≠ ·)).map Mapping.readable) := by
  have sorted : d.sortedMappings.Pairwise fun a b => a.generated.line ≤ b.generated.line := by
    refine d.pairwise_sortedMappings.imp ?_
    intro a b h
    have := atOrBefore_of_isLE h
    simp only [atOrBefore, Bool.or_eq_true, decide_eq_true_eq, Bool.and_eq_true, beq_iff_eq] at this
    omega
  have hvalid : ∀ m ∈ d.sortedMappings, 1 ≤ m.generated.line :=
    fun m hm => valid m (mem_sortedMappings.mp hm)
  have hlisted : ∀ m ∈ d.sortedMappings, m.Listed d.sources d.names :=
    fun m hm => listed (mem_sortedMappings.mp hm)
  rw [readMappings, mappingsText, readLines_written sorted hvalid hlisted]
  simp only [bind, Except.bind, pure, Except.pure]
  rw [List.mergeSort_of_pairwise d.pairwise_readable]

/-! ## The whole map -/

/-- What reading a draft gives. -/
def decoded (d : Draft) : Decoded where
  file := Json.ofText? d.file
  sources := d.sources
  names := d.names
  contents :=
    if d.contents.isEmpty then []
    else d.sources.map fun s => (Json.Fields.get? s d.contents).getD .null
  mappings := ((d.sortedMappings.destutter (· ≠ ·)).map Mapping.readable).toArray

theorem load_toJson (d : Draft) : load d.toJson = .ok d.toFields := by
  have nodup : d.toFields.keys.Nodup := by
    rw [toFields]
    cases d.file <;> by_cases h : d.contents.isEmpty <;> simp [h, Json.Fields.keys]
  have entries := Json.toFields_obj nodup
  have version : Json.Fields.get? "version" d.toFields = some (.int 3) := rfl
  have sections : Json.Fields.get? "sections" d.toFields = none := by
    rw [toFields]
    cases d.file <;> by_cases h : d.contents.isEmpty <;> simp [h, Json.Fields.get?]
  simp [load, loadEntries, entriesOf, toJson, converted, Json.toEntries, Except.mapError, entries,
    version, sections, Json.toInteger, bind, Except.bind, pure, Except.pure]

theorem elements_presentOr (items : List Json) :
    ((Json.arr items).presentOr (.arr [])).elements = .ok items := by
  cases items <;> rfl

/-- **A draft is read back**: its lines being numbered from one, reading the map that it makes gives
the mappings, sources, names and texts that it holds. -/
theorem ofJson_toJson {d : Draft} (valid : ∀ m ∈ d.mappings.toList, 1 ≤ m.generated.line) :
    Decoded.ofJson d.toJson = .ok d.decoded := by
  have sources : Json.Fields.get? "sources" d.toFields = some (.arr (d.sources.map .str)) := by
    simp [toFields, Json.Fields.get?]
  have names : Json.Fields.get? "names" d.toFields = some (.arr (d.names.map .str)) := by
    simp [toFields, Json.Fields.get?]
  have mappings : Json.Fields.get? "mappings" d.toFields = some (.str d.mappingsText) := by
    simp [toFields, Json.Fields.get?]
  have root : Json.Fields.get? "sourceRoot" d.toFields = none := by
    rw [toFields]
    cases d.file <;> by_cases h : d.contents.isEmpty <;> simp [h, Json.Fields.get?]
  have file : Json.Fields.get? "file" d.toFields = d.file.map .str := by
    rw [toFields]
    cases d.file <;> by_cases h : d.contents.isEmpty <;> simp [h, Json.Fields.get?]
  have contents : (((Json.Fields.get? "sourcesContent" d.toFields).getD .null).presentOr
      (.arr [])).elements = .ok d.decoded.contents := by
    rw [toFields, decoded]
    cases d.file <;> by_cases h : d.contents.isEmpty <;>
      simp [h, Json.Fields.get?, elements_presentOr] <;> rfl
  have text : ((Json.str d.mappingsText).presentOr (.str "")).shown = d.mappingsText := by
    cases d.mappingsText <;> rfl
  have own : (fun s : Json => joinRoot ((Json.null.presentOr (.str "")).shown) s.shown) ∘ Json.str =
      id := rfl
  have name : Json.shown ∘ Json.str = id := rfl
  have shownFile : (d.file.map Json.str).getD .null = Json.ofText? d.file := by
    cases d.file <;> rfl
  simp only [Decoded.ofJson, load_toJson, Decoded.ofFields, sources, names, mappings, root, file,
    contents, text, shownFile, elements_presentOr, converted, Except.mapError, bind, Except.bind,
    pure, Except.pure, Option.getD_some, Option.getD_none, List.map_map, own, name, List.map_id,
    readMappings_mappingsText valid]
  rfl

/-! ## Sequences of changes -/

/-- One change that is asked of a draft. -/
inductive Edit where
  | mapping (generated : Position) (place : Option Position) (source name : Option Text)
  | content (source : Text) (text : Json)

namespace Edit

/-- The mapping that a change adds. It adds one if its positions have lines from one and columns from
zero, and it gives a place in a source together with the source or neither of them. -/
def mapping? : Edit → Option Mapping
  | .mapping g none none name => if g.valid then some ⟨g, none, name⟩ else none
  | .mapping g (some p) (some s) name =>
    if g.valid ∧ p.valid then some ⟨g, some ⟨s, p⟩, name⟩ else none
  | _ => none

/-- The text that a change sets for a source. -/
def text? (source : Text) : Edit → Option Json
  | .content s text => if s = source then some text else none
  | .mapping .. => none

end Edit

/-- A change to a draft; a mapping that is refused leaves the draft as it is. -/
def edit (d : Draft) : Edit → Draft
  | .mapping generated place source name => (d.add generated place source name).toOption.getD d
  | .content source text => d.setContent source text

/-- The draft after changes, one after the other. -/
def edited (file : Option Text) (edits : List Edit) : Draft := edits.foldl edit { file }

/-- The text that changes set last for a source, `null` if they set none. -/
def lastText (source : Text) (edits : List Edit) : Json :=
  (edits.filterMap (Edit.text? source)).getLast?.getD .null

theorem mappings_edit (d : Draft) (e : Edit) :
    (d.edit e).mappings.toList = d.mappings.toList ++ e.mapping?.toList := by
  cases e with
  | mapping g place source name =>
    cases place <;> cases source <;> by_cases hg : g.valid <;>
      simp [edit, add, refusal?, originOf, Edit.mapping?, hg, Except.toOption]
    rename_i p s
    by_cases hp : p.valid <;> simp [hp]
  | content source text => cases text <;> simp [edit, setContent, Edit.mapping?]

theorem file_edit (d : Draft) (e : Edit) : (d.edit e).file = d.file := by
  cases e with
  | mapping g place source name =>
    rw [edit, add]
    cases refusal? g place source <;> rfl
  | content source text => cases text <;> rfl

theorem contents_edit (d : Draft) (e : Edit) (source : Text) :
    (Json.Fields.get? source (d.edit e).contents).getD .null =
      (e.text? source).getD ((Json.Fields.get? source d.contents).getD .null) := by
  cases e with
  | mapping g place source' name =>
    rw [edit, add]
    cases refusal? g place source' <;> rfl
  | content s text =>
    by_cases hs : s = source <;> cases text <;>
      simp [edit, setContent, Edit.text?, hs, Json.Fields.get?_set, Json.Fields.get?_filter_ne]

theorem mappings_foldl_edit (d : Draft) (edits : List Edit) :
    (edits.foldl edit d).mappings.toList = d.mappings.toList ++ edits.filterMap Edit.mapping? := by
  induction edits generalizing d with
  | nil => simp
  | cons e edits ih =>
    rw [List.foldl_cons, ih, mappings_edit, List.append_assoc, List.filterMap_cons]
    cases e.mapping? <;> rfl

theorem file_foldl_edit (d : Draft) (edits : List Edit) : (edits.foldl edit d).file = d.file := by
  induction edits generalizing d with
  | nil => rfl
  | cons e edits ih => rw [List.foldl_cons, ih, file_edit]

theorem contents_foldl_edit (d : Draft) (edits : List Edit) (source : Text) :
    (Json.Fields.get? source (edits.foldl edit d).contents).getD .null =
      (edits.filterMap (Edit.text? source)).getLast?.getD
        ((Json.Fields.get? source d.contents).getD .null) := by
  induction edits generalizing d with
  | nil => rfl
  | cons e edits ih =>
    rw [List.foldl_cons, ih, contents_edit, List.filterMap_cons]
    cases e.text? source with
    | none => rfl
    | some text => rw [List.getLast?_cons]; rfl

/-- Looking a listed source up finds the text that the draft has for it. -/
theorem contentFor_decoded {d : Draft} {source : Text} (h : source ∈ d.sources) :
    d.decoded.contentFor source = (Json.Fields.get? source d.contents).getD .null := by
  have found : d.sources.findIdx? (· == source) = some (d.sources.idxOf source) :=
    List.findIdx?_eq_some_of_exists ⟨source, h, beq_self_eq_true _⟩
  have bound := List.idxOf_lt_length_of_mem h
  simp only [Decoded.contentFor, decoded, found]
  by_cases empty : d.contents = []
  · simp [empty, Json.Fields.get?]
  · simp [empty, List.getElem?_eq_getElem bound]

theorem valid_of_mapping?_eq_some {e : Edit} {m : Mapping} (h : e.mapping? = some m) :
    1 ≤ m.generated.line := by
  have valid : m.generated.valid := by
    fun_cases Edit.mapping? e <;> simp_all [Edit.mapping?] <;> grind
  exact of_decide_eq_true (Bool.and_eq_true_iff.mp valid).1

/-- **Reading undoes writing.** After any changes, refused ones among them, reading the map that the
draft makes gives the mappings that were accepted, in order, each once where neighbours are equal and
without a name where there is no source; the sources and names by their first use; and for each
source the text that was set for it last. -/
theorem ofJson_toJson_edited (file : Option Text) (edits : List Edit) :
    ∃ d, Decoded.ofJson (edited file edits).toJson = .ok d ∧
      d.file = Json.ofText? file ∧
      d.mappings.toList =
        (((edits.filterMap Edit.mapping?).mergeSort fun a b => (compareMappings a b).isLE).destutter
          (· ≠ ·)).map Mapping.readable ∧
      d.sources =
        ((edits.filterMap Edit.mapping?).filterMap fun m => m.origin.map Origin.source).eraseDups ∧
      d.names = ((edits.filterMap Edit.mapping?).filterMap Mapping.name).eraseDups ∧
      ∀ source ∈ d.sources, d.contentFor source = lastText source edits := by
  have mappings : (edited file edits).mappings.toList = edits.filterMap Edit.mapping? :=
    mappings_foldl_edit { file } edits
  have valid : ∀ m ∈ (edited file edits).mappings.toList, 1 ≤ m.generated.line := by
    intro m hm
    rw [mappings] at hm
    obtain ⟨e, -, he⟩ := List.mem_filterMap.mp hm
    exact valid_of_mapping?_eq_some he
  refine ⟨_, ofJson_toJson valid, ?_, ?_, ?_, ?_, ?_⟩
  · exact congrArg Json.ofText? (file_foldl_edit { file } edits)
  · simp only [decoded, sortedMappings, mappings]
  · simp only [decoded, sources, firstUses_eq_eraseDups, mappings]
  · simp only [decoded, names, firstUses_eq_eraseDups, mappings]
  · intro source hs
    rw [contentFor_decoded hs]
    exact contents_foldl_edit { file } edits source

end Draft

end Componentry.SourceMap
