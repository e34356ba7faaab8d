import Componentry.Proofs.SourceMap.Number
import Componentry.Proofs.Text.Basic
import Componentry.SourceMap.Decoded
import Componentry.SourceMap.Draft
import Mathlib.Data.List.Destutter

/-!
# Written segments, read again

Writer and reader keep the same running numbers: what the writer is relative to after a segment is
what the reader has summed up. The invariant is `Continues`: a text read behind the segment at a
cursor gives certain mappings. It is kept when a segment is put before the text, after a comma or on
a later line, and so a whole list of sorted mappings is read back.
-/

namespace Componentry.SourceMap

/-- The mapping as a map can hold it: without a source it has no name. -/
def Mapping.readable (m : Mapping) : Mapping :=
  { m with name := m.origin.bind fun _ => m.name }

/-- The sums that a reader has at a cursor. -/
def Draft.Cursor.tally (c : Draft.Cursor) : Tally :=
  ⟨c.source, c.sourceLine, c.sourceColumn, c.name⟩

/-- Are the source and the name of a mapping among those listed? -/
def Mapping.Listed (sources names : List Text) (m : Mapping) : Prop :=
  (∀ o ∈ m.origin, o.source ∈ sources) ∧ ∀ n ∈ m.name, n ∈ names

variable {sources names : List Text}

open Draft

/-! ## One segment -/

theorem tallied_idxOf {xs : List Text} {x : Text} (h : x ∈ xs) :
    tallied xs (xs.idxOf x) = .ok x := by
  have bound := List.idxOf_lt_length_of_mem h
  simp [tallied, itemAt?, List.getElem?_eq_getElem bound]

/-- The numbers of a segment. -/
def segmentValues (sources names : List Text) (c : Cursor) (m : Mapping) : List Int :=
  let column := m.generated.column - c.column
  match m.origin, m.name with
  | none, _ => [column]
  | some o, none =>
    [column, sources.idxOf o.source - c.source, o.position.line - 1 - c.sourceLine,
      o.position.column - c.sourceColumn]
  | some o, some n =>
    [column, sources.idxOf o.source - c.source, o.position.line - 1 - c.sourceLine,
      o.position.column - c.sourceColumn, names.idxOf n - c.name]

theorem segment_text (c : Cursor) (m : Mapping) :
    (segment sources names c m).1 = (segmentValues sources names c m).flatMap Vlq.encode := by
  obtain ⟨g, origin, name⟩ := m
  cases origin <;> cases name <;> simp [Draft.segment, segmentValues]

theorem segment_ne_nil (c : Cursor) (m : Mapping) : (segment sources names c m).1 ≠ [] := by
  obtain ⟨g, origin, name⟩ := m
  cases origin <;> cases name <;> simp [Draft.segment, Vlq.encode_ne_nil]

theorem mem_alphabet_of_mem_segment {c : Cursor} {m : Mapping} {x : CodePoint}
    (h : x ∈ (segment sources names c m).1) : x ∈ Vlq.alphabet := by
  rw [segment_text, List.mem_flatMap] at h
  obtain ⟨n, -, hx⟩ := h
  exact Vlq.mem_alphabet_of_mem_encode hx

theorem comma_notMem_segment (c : Cursor) (m : Mapping) :
    (.char ',' : CodePoint) ∉ (segment sources names c m).1 :=
  fun h => Vlq.comma_notMem_alphabet (mem_alphabet_of_mem_segment h)

theorem semicolon_notMem_segment (c : Cursor) (m : Mapping) :
    (.char ';' : CodePoint) ∉ (segment sources names c m).1 :=
  fun h => Vlq.semicolon_notMem_alphabet (mem_alphabet_of_mem_segment h)

@[simp] theorem segment_line (sources names : List Text) (c : Cursor) (m : Mapping) :
    (segment sources names c m).2.line = c.line := by
  obtain ⟨g, origin, name⟩ := m
  cases origin <;> cases name <;> simp [Draft.segment]

@[simp] theorem segment_column (sources names : List Text) (c : Cursor) (m : Mapping) :
    (segment sources names c m).2.column = m.generated.column := by
  obtain ⟨g, origin, name⟩ := m
  cases origin <;> cases name <;> simp [Draft.segment]

@[simp] theorem segment_last (sources names : List Text) (c : Cursor) (m : Mapping) :
    (segment sources names c m).2.last = some m := by
  obtain ⟨g, origin, name⟩ := m
  cases origin <;> cases name <;> simp [Draft.segment]

/-- **One segment**: read where it was written, it gives its mapping and the sums of the cursor
behind it. -/
theorem readSegment_segment {c : Cursor} {m : Mapping} (line : m.generated.line = c.line)
    (listed : m.Listed sources names) :
    readSegment sources names c.line c.column c.tally (segment sources names c m).1 =
      .ok (m.readable, (segment sources names c m).2.tally) := by
  have values := Vlq.decodeSegment_flatMap_encode (segmentValues sources names c m)
  rw [← segment_text] at values
  obtain ⟨⟨l, k⟩, origin, name⟩ := m
  simp only at line
  subst line
  obtain ⟨hs, hn⟩ := listed
  -- The reader adds to its sums what the writer subtracted from the same numbers.
  have moved : ∀ a b : Int, a + (b - a) = b := fun a b => by omega
  rw [readSegment, values]
  cases origin with
  | none =>
    simp [segmentValues, Draft.segment, Mapping.readable, Cursor.tally, bind, Except.bind,
      pure, Except.pure, moved]
  | some o =>
    have source := tallied_idxOf (hs o rfl)
    cases name with
    | none =>
      simp [segmentValues, Draft.segment, Mapping.readable, Cursor.tally, bind, Except.bind,
        pure, Except.pure, moved, source]
    | some n =>
      have name := tallied_idxOf (hn n rfl)
      simp [segmentValues, Draft.segment, Mapping.readable, Cursor.tally, bind, Except.bind,
        pure, Except.pure, moved, source, name]

/-! ## Lines -/

theorem readLine_nil_cons (line column : Int) (t : Tally) (texts : List Text) :
    readLine sources names line column t ([] :: texts) =
      readLine sources names line column t texts := by
  simp [readLine]

theorem readLine_segment_cons {c : Cursor} {m : Mapping} {texts : List Text} {ms : List Mapping}
    {t : Tally} (line : m.generated.line = c.line) (listed : m.Listed sources names)
    (rest : readLine sources names c.line m.generated.column
      (segment sources names c m).2.tally texts = .ok (ms, t)) :
    readLine sources names c.line c.column c.tally ((segment sources names c m).1 :: texts) =
      .ok (m.readable :: ms, t) := by
  rw [readLine, if_neg (by simp [segment_ne_nil]), readSegment_segment line listed]
  simp [bind, Except.bind, pure, Except.pure, Mapping.readable, rest]

theorem readLines_replicate_nil (line : Int) (t : Tally) (n : Nat) (texts : List Text) :
    readLines sources names line t (List.replicate n [] ++ texts) =
      readLines sources names (line + n) t texts := by
  induction n generalizing line with
  | zero => simp
  | succ n ih =>
    have next : line + 1 + (n : Int) = line + (n + 1 : Nat) := by omega
    rw [List.replicate_succ, List.cons_append, readLines]
    simp only [Text.splitOn_nil, readLine_nil_cons, readLine, bind, Except.bind, pure, Except.pure,
      List.nil_append, ih, next]
    cases readLines sources names (line + (n + 1 : Nat)) t texts <;> rfl

/-! ## The invariant -/

/-- Read behind the segment at cursor `c`, `text` gives the mappings `ms`. -/
def Continues (sources names : List Text) (c : Cursor) (text : Text) (ms : List Mapping) : Prop :=
  ∃ (first : Text) (lines segments : List Text) (t : Tally) (now later : List Mapping),
    Text.splitOn ';' text = first :: lines ∧ Text.splitOn ',' first = [] :: segments ∧
    readLine sources names c.line c.column c.tally segments = .ok (now, t) ∧
    readLines sources names (c.line + 1) t lines = .ok later ∧ ms = now ++ later

theorem Continues.nil (c : Cursor) : Continues sources names c [] [] :=
  ⟨[], [], [], c.tally, [], [], rfl, rfl, rfl, rfl, rfl⟩

/-- At the start of a line nothing stands before the text. -/
theorem Continues.read {sources names : List Text} {c : Cursor} {text : Text}
    {ms : List Mapping} (h : Continues sources names c text ms) (start : c.column = 0) :
    readLines sources names c.line c.tally (Text.splitOn ';' text) = .ok ms := by
  obtain ⟨first, lines, segments, t, now, later, hlines, hsegments, hnow, hlater, rfl⟩ := h
  rw [hlines, SourceMap.readLines, hsegments, readLine_nil_cons, ← start, hnow]
  simp [bind, Except.bind, pure, Except.pure, hlater]

/-- A segment at the start of a line. -/
theorem Continues.readLines_segment {c : Cursor} {m : Mapping} {text : Text} {ms : List Mapping}
    (h : Continues sources names (segment sources names c m).2 text ms) (start : c.column = 0)
    (line : m.generated.line = c.line) (listed : m.Listed sources names) :
    readLines sources names c.line c.tally
      (Text.splitOn ';' ((segment sources names c m).1 ++ text)) = .ok (m.readable :: ms) := by
  obtain ⟨first, lines, segments, t, now, later, hlines, hsegments, hnow, hlater, rfl⟩ := h
  rw [segment_line, segment_column] at hnow
  rw [segment_line] at hlater
  rw [Text.splitOn_append (semicolon_notMem_segment c m) hlines, readLines,
    Text.splitOn_append (comma_notMem_segment c m) hsegments, List.append_nil, ← start,
    readLine_segment_cons line listed hnow]
  simp [bind, Except.bind, pure, Except.pure, hlater]

/-- A segment behind a comma. -/
theorem Continues.comma {c : Cursor} {m : Mapping} {text : Text} {ms : List Mapping}
    (h : Continues sources names (segment sources names c m).2 text ms)
    (line : m.generated.line = c.line) (listed : m.Listed sources names) :
    Continues sources names c (',' :: ((segment sources names c m).1 ++ text))
      (m.readable :: ms) := by
  obtain ⟨first, lines, segments, t, now, later, hlines, hsegments, hnow, hlater, rfl⟩ := h
  rw [segment_line, segment_column] at hnow
  rw [segment_line] at hlater
  have noSemicolon : (.char ';' : CodePoint) ∉ (.char ',' :: (segment sources names c m).1) := by
    simp [semicolon_notMem_segment]
  have noComma : (.char ',' : CodePoint) ∉ (segment sources names c m).1 :=
    comma_notMem_segment c m
  refine ⟨',' :: ((segment sources names c m).1 ++ first), lines,
    (segment sources names c m).1 :: segments, t, m.readable :: now, later, ?_, ?_,
    readLine_segment_cons line listed hnow, hlater, rfl⟩
  · simpa using Text.splitOn_append noSemicolon hlines
  · rw [Text.splitOn_cons_self, Text.splitOn_append noComma hsegments, List.append_nil]

/-- A segment on a later line. -/
theorem Continues.semicolons {c : Cursor} {m : Mapping} {text : Text} {ms : List Mapping}
    (later : c.line < m.generated.line)
    (h : Continues sources names
      (segment sources names { c with line := m.generated.line, column := 0 } m).2 text ms)
    (listed : m.Listed sources names) :
    Continues sources names c
      (List.replicate (m.generated.line - c.line).toNat (.char ';') ++
        ((segment sources names { c with line := m.generated.line, column := 0 } m).1 ++ text))
      (m.readable :: ms) := by
  have rest := h.readLines_segment rfl rfl listed
  obtain ⟨n, hn⟩ : ∃ n : Nat, (m.generated.line - c.line).toNat = n + 1 :=
    ⟨(m.generated.line - c.line).toNat - 1, by omega⟩
  refine ⟨[], List.replicate n [] ++ Text.splitOn ';'
      ((segment sources names { c with line := m.generated.line, column := 0 } m).1 ++ text),
    [], c.tally, [], m.readable :: ms, ?_, rfl, rfl, ?_, rfl⟩
  · rw [hn, Text.splitOn_replicate]
    rfl
  · rw [readLines_replicate_nil, show c.line + 1 + (n : Int) = m.generated.line by omega]
    exact rest

end Componentry.SourceMap
