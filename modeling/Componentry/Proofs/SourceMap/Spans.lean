import Componentry.Proofs.SourceMap.Token
import Componentry.Proofs.SourceMap.Tracking

/-!
# Spans of a splice

Any calls that copy spans of a text, from anywhere and in any order, replace spans by texts without a
map or leave spans out. Each character of what is rebuilt is traced back: a copied one to the last
token start up to it on its line of the span, a replaced one to where its span stands. Every call
puts its mappings at certain offsets of the text it adds, its marks, and a character is answered for
by the last mark up to it.
-/

namespace Componentry

/-! ## Lines and their tokens -/

/-- The offset at which the line of an offset starts. -/
def Text.lineStart (s : Text) (k : Nat) : Nat :=
  k - ((s.take k).reverse.takeWhile fun c => c != .char '\n').length

/-- What is on a line from an offset on. -/
def Text.lineFrom (s : Text) (k : Nat) : Text := (s.drop k).takeWhile fun c => c != .char '\n'

/-- The offset of the last token start on the line of `k`, up to `k`; the start of the line if there
is none. -/
def lastToken (s : Text) (k : Nat) : Nat :=
  let start := s.lineStart k
  start + ((tokenOffsets (s.lineFrom start)).filter fun i => i ≤ k - start).max?.getD 0

/-- The text before a line, the line, and the text behind it. -/
structure Text.IsLine (s before line after : Text) : Prop where
  whole : s = before ++ (line ++ after)
  absent : .char '\n' ∉ line
  start : before = [] ∨ ∃ front, before = front ++ [.char '\n']

/-- A character that ends no line is on a line. -/
theorem Text.exists_isLine {s : Text} {k : Nat} {c : CodePoint} (hc : s[k]? = some c)
    (other : c ≠ .char '\n') :
    ∃ before after i, s.IsLine before (s.lineFrom (s.lineStart k)) after ∧
      s.lineStart k = before.length ∧ k = before.length + i ∧
      i < (s.lineFrom (s.lineStart k)).length := by
  let p : CodePoint → Bool := fun c => c != .char '\n'
  let front := (s.take k).reverse.dropWhile p
  let part := (s.take k).reverse.takeWhile p
  have bound : k < s.length := (List.getElem?_eq_some_iff.mp hc).1
  have cut : s.take k = front.reverse ++ part.reverse := by
    rw [← List.reverse_append, List.takeWhile_append_dropWhile, List.reverse_reverse]
  have lengths : front.length + part.length = k := by
    have := congrArg List.length cut
    simp only [List.length_take, List.length_append, List.length_reverse] at this
    omega
  have start : s.lineStart k = front.reverse.length := by
    rw [lineStart, List.length_reverse]
    exact Nat.sub_eq_of_eq_add lengths.symm
  have split : s = front.reverse ++ (part.reverse ++ s.drop k) := by
    rw [← List.append_assoc, ← cut, List.take_append_drop]
  have rest : s.drop (s.lineStart k) = part.reverse ++ s.drop k := by
    rw [start]
    nth_rewrite 1 [split]
    rw [List.drop_left]
  have plain : ∀ x ∈ part.reverse, p x := fun x hx =>
    List.all_eq_true.mp List.all_takeWhile x (List.mem_reverse.mp hx)
  -- The line has the characters up to `k` and the one at `k`.
  have line : s.lineFrom (s.lineStart k) = part.reverse ++ (s.drop k).takeWhile p := by
    rw [lineFrom, rest, List.takeWhile_append_of_pos plain]
  have here : (s.drop k).takeWhile p = c :: (s.drop (k + 1)).takeWhile p := by
    rw [List.drop_eq_getElem_cons bound, (List.getElem?_eq_some_iff.mp hc).2, List.takeWhile_cons,
      if_pos (by simpa [p] using other)]
  refine ⟨front.reverse, (s.drop (s.lineStart k)).dropWhile p, part.length, ⟨?_, ?_, ?_⟩, start, ?_, ?_⟩
  · rw [lineFrom, List.takeWhile_append_dropWhile, rest]
    exact split
  · intro mem
    have := List.all_eq_true.mp List.all_takeWhile _ mem
    simp at this
  · have stops := List.head?_dropWhile_not p (s.take k).reverse
    cases hfront : (s.take k).reverse.dropWhile p with
    | nil => exact .inl (by simp [front, hfront])
    | cons x xs =>
      rw [hfront] at stops
      refine .inr ⟨xs.reverse, ?_⟩
      simp only [List.head?_cons, p] at stops
      simp only [front, hfront, List.reverse_cons]
      simpa using stops
  · rw [List.length_reverse, lengths]
  · rw [line, here]
    simp

/-- A part of a text that stands in another text. -/
theorem Text.slice_append (before after : Text) {s : Text} {i j : Nat} (le : i ≤ j)
    (bound : j ≤ s.length) :
    Text.slice (before ++ (s ++ after)) (before.length + i) (before.length + j) =
      Text.slice s i j := by
  rw [Text.slice, List.drop_length_add_append, Nat.add_sub_add_left,
    List.drop_append_of_le_length (by omega), List.take_append_of_le_length (by simp; omega)]
  rfl

/-- A part of a part of a text. -/
theorem Text.slice_slice {s : Text} {a b i j : Nat} (bound : j ≤ (Text.slice s a b).length) :
    Text.slice (Text.slice s a b) i j = Text.slice s (a + i) (a + j) := by
  have within : j ≤ b - a := Nat.le_trans bound (List.length_take_le ..)
  rw [Text.slice, Text.slice, Text.slice, List.drop_take, List.take_take, List.drop_drop,
    Nat.add_sub_add_left, Nat.min_eq_left (by omega)]

/-- No line ends within a line. -/
theorem Text.IsLine.notMem_slice {s before line after : Text} (h : s.IsLine before line after)
    {i j : Nat} (le : i ≤ j) (bound : j ≤ line.length) :
    .char '\n' ∉ Text.slice s (before.length + i) (before.length + j) := by
  rw [h.whole, Text.slice_append before after le bound]
  exact fun mem => h.absent (List.mem_of_mem_drop (List.mem_of_mem_take mem))

namespace SourceMap

variable {s before line after : Text} {i : Nat}

/-- What is mapped on a line when the text is copied. -/
theorem anchored_isLine (h : s.IsLine before line after) (bound : i < line.length) :
    Anchored s (before.length + i) ↔ i = 0 ∨ i ∈ tokenOffsets line := by
  have own : Anchored line i ↔ i = 0 ∨ i ∈ tokenOffsets line := by
    rw [anchored_iff_of_notMem h.absent, and_iff_right (List.ne_nil_of_length_pos (by omega))]
  rw [← own, ← anchored_append (t := after) bound, h.whole]
  obtain rfl | ⟨front, rfl⟩ := h.start
  · simp
  · rw [List.append_assoc, List.length_append]
    exact anchored_append_cons

/-- What is mapped on a line when the text replaces something. -/
theorem startsLine_isLine (h : s.IsLine before line after) (bound : i < line.length) :
    StartsLine s (before.length + i) ↔ i = 0 := by
  have here : ∀ {j}, j < line.length → s[before.length + j]? = (line)[j]? := by
    intro j hj
    rw [h.whole, List.getElem?_append_right (by omega), Nat.add_sub_cancel_left,
      List.getElem?_append_left hj]
  constructor
  · rintro ⟨-, previous⟩
    cases i with
    | zero => rfl
    | succ j =>
      rw [← Nat.add_assoc, List.getElem?_cons_succ, here (by omega)] at previous
      exact absurd (List.mem_of_getElem? previous) h.absent
  · rintro rfl
    refine ⟨⟨(line)[0], by rw [here bound, List.getElem?_eq_getElem bound], ?_⟩, ?_⟩
    · exact fun h' => h.absent (h' ▸ List.getElem_mem bound)
    · rw [h.whole]
      obtain rfl | ⟨front, rfl⟩ := h.start <;> simp

/-! ## The last mark -/

/-- Among the offsets that satisfy `Marked`, `j` is the last up to `k`, and it is on the line of `k`. -/
structure LastMark (Marked : Nat → Prop) (s : Text) (j k : Nat) : Prop where
  marked : Marked j
  le : j ≤ k
  sameLine : .char '\n' ∉ Text.slice s j k
  last : ∀ i, j < i → i ≤ k → ¬ Marked i

variable {k : Nat} {c : CodePoint}

/-- In copied text the last token start answers for a character. -/
theorem lastMark_lastToken (hc : s[k]? = some c) (other : c ≠ .char '\n') :
    LastMark (Anchored s) s (lastToken s k) k := by
  obtain ⟨before, after, i, h, start, rfl, bound⟩ := Text.exists_isLine hc other
  rw [lastToken]
  simp only [start, Nat.add_sub_cancel_left] at h bound ⊢
  generalize s.lineFrom before.length = line at h bound ⊢
  generalize hr : ((tokenOffsets line).filter fun a => a ≤ i).max?.getD 0 = r
  have greatest : (r = 0 ∨ r ∈ tokenOffsets line) ∧ r ≤ i ∧
      ∀ a ∈ tokenOffsets line, a ≤ i → a ≤ r := by
    cases hmax : ((tokenOffsets line).filter fun a => a ≤ i).max? with
    | none =>
      rw [hmax, Option.getD_none] at hr
      rw [List.max?_eq_none_iff, List.filter_eq_nil_iff] at hmax
      subst hr
      exact ⟨.inl rfl, Nat.zero_le _, fun a ha le => absurd (by simpa using le) (hmax a ha)⟩
    | some r' =>
      rw [hmax, Option.getD_some] at hr
      subst hr
      obtain ⟨mem, upper⟩ := List.max?_eq_some_iff.mp hmax
      obtain ⟨token, le⟩ := List.mem_filter.mp mem
      exact ⟨.inr token, by simpa using le,
        fun a ha le => upper a (List.mem_filter.mpr ⟨ha, by simpa using le⟩)⟩
  obtain ⟨token, le, upper⟩ := greatest
  refine ⟨(anchored_isLine h (by omega)).mpr token, by omega, h.notMem_slice (by omega) (by omega), ?_⟩
  intro a lt upTo marked
  obtain ⟨x, rfl⟩ := Nat.exists_eq_add_of_le (show before.length ≤ a by omega)
  rcases (anchored_isLine h (by omega)).mp marked with rfl | token'
  · omega
  · have := upper x token' (by omega)
    omega

/-- In replaced text the start of its line answers for a character. -/
theorem lastMark_lineStart (hc : s[k]? = some c) (other : c ≠ .char '\n') :
    LastMark (StartsLine s) s (s.lineStart k) k := by
  obtain ⟨before, after, i, h, start, rfl, bound⟩ := Text.exists_isLine hc other
  have none_ : .char '\n' ∉ Text.slice s (before.length + 0) (before.length + i) :=
    h.notMem_slice (Nat.zero_le _) (Nat.le_of_lt bound)
  have first : StartsLine s (before.length + 0) := (startsLine_isLine h (by omega)).mpr rfl
  rw [start]
  refine ⟨first, Nat.le_add_right .., none_, ?_⟩
  intro a lt upTo marked
  obtain ⟨x, rfl⟩ := Nat.exists_eq_add_of_le (Nat.le_of_lt lt)
  have := (startsLine_isLine h (by omega)).mp marked
  omega

/-! ## Places of a text -/

/-- Places are on one line if no line ends between them. -/
theorem line_place_of_notMem {s : Text} {i j : Nat} (le : i ≤ j)
    (absent : .char '\n' ∉ Text.slice s i j) : (s.place j).line = (s.place i).line := by
  have cut : s.take j = s.take i ++ Text.slice s i j := by
    rw [← List.take_append_drop i (s.take j), List.take_take, Nat.min_eq_left le, List.drop_take,
      Text.slice]
  rw [Text.place, cut, Position.advance_append, advance_of_notMem absent]
  rfl

theorem atOrBefore_place_iff {s : Text} {i j : Nat} (hi : i ≤ s.length) (hj : j ≤ s.length) :
    atOrBefore (s.place i) (s.place j) ↔ i ≤ j := by
  constructor
  · intro h
    by_contra lt
    have before := Text.place_before (Nat.lt_of_not_le lt) hi
    rw [atOrBefore_iff] at h
    rw [Position.Before] at before
    omega
  · intro le
    rcases Nat.eq_or_lt_of_le le with rfl | lt
    · simp [atOrBefore]
    · have before := Text.place_before lt hj
      rw [atOrBefore_iff]
      rw [Position.Before] at before
      omega

/-! ## Calls -/

namespace Splice

/-- A call that adds text without a map of its own to a splice, or leaves some out. -/
inductive Span where
  /-- What stands from one offset to another is copied. -/
  | copied (start stop : Nat)
  /-- A text stands in for what is at an offset. -/
  | replaced (text : Text) (offset : Nat)
  | dropped

namespace Span

/-- The text that is added. -/
def text (original : Text) : Span → Text
  | copied start stop => Text.slice original start stop
  | replaced text _ => text
  | dropped => []

/-- Is the place that is replaced one of the text? -/
def Fits (original : Text) : Span → Prop
  | replaced _ offset => offset ≤ original.length
  | _ => True

/-- Makes the call. -/
def apply (original : Text) (s : Splice) : Span → Splice × Option Error
  | copied start stop => s.copy (Text.slice original start stop) start
  | replaced text offset => s.replace text offset none
  | dropped => (s.drop, none)

/-- The offsets of the added text that are mapped. -/
def Marked (original : Text) : Span → Nat → Prop
  | copied start stop => Anchored (Text.slice original start stop)
  | replaced text _ => StartsLine text
  | dropped => fun _ => False

/-- Where a mapping leads. -/
def target (original : Text) : Span → Nat → Position
  | copied start _, k => original.place (start + k)
  | replaced _ offset, _ => original.place offset
  | dropped, _ => original.place 0

/-- The mapping of an offset of the text that is added behind `before`. -/
def mapping (original source before : Text) (span : Span) (k : Nat) : Mapping :=
  ⟨(before ++ span.text original).place (before.length + k),
    some ⟨source, span.target original k⟩, none⟩

theorem Marked.lt_length {original : Text} {span : Span} {k : Nat} (h : span.Marked original k) :
    k < (span.text original).length := by
  cases span with
  | copied start stop => exact Anchored.lt_length h
  | replaced text offset => exact StartsLine.lt_length h
  | dropped => exact h.elim

end Span

/-- The texts that are added, one after the other. -/
def rebuilt (original : Text) (spans : List Span) : Text := spans.flatMap (Span.text original)

@[simp] theorem rebuilt_nil (original : Text) : rebuilt original [] = [] := rfl

@[simp] theorem rebuilt_cons (original : Text) (span : Span) (spans : List Span) :
    rebuilt original (span :: spans) = span.text original ++ rebuilt original spans := rfl

@[simp] theorem rebuilt_append (original : Text) (front back : List Span) :
    rebuilt original (front ++ back) = rebuilt original front ++ rebuilt original back :=
  List.flatMap_append

/-- Makes calls up to the first that is refused. -/
def applyAll (original : Text) : List Span → Splice → Splice × Option Error
  | [], s => (s, none)
  | span :: rest, s =>
    match span.apply original s with
    | (s, none) => applyAll original rest s
    | failed => failed

variable {original before : Text} {s : Splice}

/-- **One call** is not refused, and adds a mapping for each mark. -/
theorem Span.exists_apply (index : s.index = .ofText original)
    (here : s.here = before.place before.length) {span : Span} (fits : span.Fits original) :
    ∃ s' ms, span.apply original s = (s', none) ∧ s.Adds ms (span.text original) s' ∧
      ∀ m, m ∈ ms ↔
        ∃ k, span.Marked original k ∧ m = span.mapping original s.source before k := by
  have generated : ∀ k, s.here.advance ((span.text original).take k) =
      (before ++ span.text original).place (before.length + k) := by
    intro k
    rw [here, Text.place_length_add]
  have accepted : ∀ k, Draft.refusalOf? (span.mapping original s.source before k) = none := by
    intro k
    refine Draft.refusalOf?_eq_none.mpr ⟨Text.valid_place .., ?_⟩
    cases span <;> exact Text.valid_place ..
  cases span with
  | copied start stop =>
    let ms := s.copyMappings s.here start (Text.splitOn '\n' (Text.slice original start stop))
    have marks : ∀ m, m ∈ ms ↔ ∃ k, Marked original (copied start stop) k ∧
        m = (copied start stop).mapping original s.source before k := by
      intro m
      rw [mem_copyMappings]
      refine exists_congr fun k => and_congr_right fun hk => ?_
      have bound : start + k ≤ original.length := by
        have := hk.lt_length
        simp only [Text.slice, List.length_take, List.length_drop] at this
        omega
      rw [Splice.copied, index, ← Int.natCast_add, LineIndex.position_ofText bound, mapping,
        ← generated]
      rfl
    refine ⟨s.put ms _, ms, place_eq ?_ _, put_adds s s.changed ms _, marks⟩
    intro m hm
    obtain ⟨k, -, rfl⟩ := (marks m).mp hm
    exact accepted k
  | replaced text offset =>
    let ms := { s with changed := true }.replaceMappings s.here (original.place offset)
      (Text.splitOn '\n' text)
    have marks : ∀ m, m ∈ ms ↔ ∃ k, Marked original (replaced text offset) k ∧
        m = (replaced text offset).mapping original s.source before k := by
      intro m
      rw [mem_replaceMappings]
      refine exists_congr fun k => and_congr_right fun _ => ?_
      rw [mapping, ← generated]
      rfl
    have position : s.index.position offset = original.place offset := by
      rw [index]
      exact LineIndex.position_ofText fits
    refine ⟨({ s with changed := true } : Splice).put ms text, ms, ?_, put_adds s true ms text, marks⟩
    simp only [apply, Splice.replace, position]
    refine place_eq ?_ _
    intro m hm
    obtain ⟨k, -, rfl⟩ := (marks m).mp hm
    exact accepted k
  | dropped => exact ⟨s.drop, [], rfl, Adds.refl s true, by simp [Marked]⟩

/-- **Any calls** are not refused, and add the mappings of each. -/
theorem exists_applyAll {spans : List Span} (index : s.index = .ofText original)
    (here : s.here = before.place before.length) (fits : ∀ span ∈ spans, span.Fits original) :
    ∃ s' ms, applyAll original spans s = (s', none) ∧
      s.Adds ms (rebuilt original spans) s' ∧
      ∀ m, m ∈ ms ↔ ∃ front span back k, spans = front ++ span :: back ∧
        span.Marked original k ∧ m = span.mapping original s.source
          (before ++ rebuilt original front) k := by
  induction spans generalizing s before with
  | nil => exact ⟨s, [], rfl, Adds.refl s s.changed, by simp⟩
  | cons span rest ih =>
    obtain ⟨s₁, ms₁, applied, adds₁, marks₁⟩ :=
      Span.exists_apply index here (fits span (List.mem_cons_self ..))
    obtain ⟨s₂, ms₂, finished, adds₂, marks₂⟩ := ih (adds₁.index.trans index)
      (adds₁.here_eq_place here) fun span hs => fits span (List.mem_cons_of_mem _ hs)
    refine ⟨s₂, ms₁ ++ ms₂, by rw [applyAll, applied]; exact finished, adds₁.trans adds₂, ?_⟩
    intro m
    rw [List.mem_append, marks₁, marks₂, adds₁.name]
    constructor
    · rintro (⟨k, marked, rfl⟩ | ⟨front, span', back, k, rfl, marked, rfl⟩)
      · exact ⟨[], span, rest, k, rfl, marked, by simp⟩
      · exact ⟨span :: front, span', back, k, rfl, marked, by simp⟩
    · rintro ⟨front, span', back, k, split, marked, rfl⟩
      rcases List.cons_eq_append_iff.mp split with ⟨rfl, same⟩ | ⟨front', rfl, rfl⟩
      · obtain ⟨rfl, rfl⟩ := List.cons.inj same
        exact .inl ⟨k, marked, by simp⟩
      · exact .inr ⟨front', span', back, k, rfl, marked, by simp⟩

/-! ## Looking characters up -/

/-- An offset of texts put together is an offset of one of them only. -/
theorem eq_of_rebuilt_offset {front back front' back' : List Span} {span span' : Span} {i i' : Nat}
    (split : front ++ span :: back = front' ++ span' :: back')
    (hi : i < (span.text original).length) (hi' : i' < (span'.text original).length)
    (same : (rebuilt original front).length + i = (rebuilt original front').length + i') :
    front = front' ∧ span = span' ∧ i = i' := by
  rcases List.append_eq_append_iff.mp split with ⟨more, hmore, rest⟩ | ⟨more, hmore, rest⟩
  · cases more with
    | nil =>
      rw [List.append_nil] at hmore
      subst hmore
      exact ⟨rfl, (List.cons.inj rest).1, by omega⟩
    | cons x more =>
      -- The second offset would be behind the first text.
      obtain ⟨rfl, -⟩ := List.cons.inj rest
      rw [hmore, rebuilt_append, rebuilt_cons, List.length_append, List.length_append] at same
      omega
  · cases more with
    | nil =>
      rw [List.append_nil] at hmore
      subst hmore
      exact ⟨rfl, (List.cons.inj rest).1.symm, by omega⟩
    | cons x more =>
      obtain ⟨rfl, -⟩ := List.cons.inj rest
      rw [hmore, rebuilt_append, rebuilt_cons, List.length_append, List.length_append] at same
      omega

/-- A character is answered for by the last mark up to it on its line of the span. -/
theorem locate_of_lastMark {d : Draft} {source : Text} {spans front back : List Span} {span : Span}
    {j k : Nat}
    (mappings : ∀ m, m ∈ d.mappings.toList ↔ ∃ front span back k, spans = front ++ span :: back ∧
      span.Marked original k ∧
        m = span.mapping original source (rebuilt original front) k)
    (split : spans = front ++ span :: back)
    (mark : LastMark (span.Marked original) (span.text original) j k)
    (bound : k < (span.text original).length) :
    d.decoded.locate ((rebuilt original spans).place
      ((rebuilt original front).length + k)) =
        .ok (some (⟨source, span.target original j⟩, none)) := by
  -- The mappings are places of the whole text, and stand in it as their offsets do.
  have inWhole : ∀ {front : List Span} {span : Span} {back : List Span} {k : Nat},
      spans = front ++ span :: back → k < (span.text original).length →
      (rebuilt original front).length + k < (rebuilt original spans).length ∧
      (span.mapping original source (rebuilt original front) k).generated =
        (rebuilt original spans).place
          ((rebuilt original front).length + k) := by
    rintro front span back k rfl hk
    have whole : rebuilt original (front ++ span :: back) =
        rebuilt original front ++ span.text original ++ rebuilt original back := by simp
    rw [whole]
    refine ⟨by simp only [List.length_append]; omega, ?_⟩
    rw [Text.place_append (by simp only [List.length_append]; omega)]
    rfl
  have le := mark.le
  obtain ⟨hk, at_⟩ := inWhole split bound
  obtain ⟨hj, atMark⟩ := inWhole split (Nat.lt_of_le_of_lt le bound)
  have sameLine : .char '\n' ∉ Text.slice (rebuilt original spans)
      ((rebuilt original front).length + j)
      ((rebuilt original front).length + k) := by
    rw [split, rebuilt_append, rebuilt_cons,
      Text.slice_append _ _ le (Nat.le_of_lt bound)]
    exact mark.sameLine
  refine Draft.locate_decoded_of_last ((mappings _).mpr ⟨front, span, back, j, split, mark.marked, rfl⟩)
    (Text.valid_place ..) ?_ ?_ ?_
  · rw [atMark]
    exact (line_place_of_notMem (Nat.add_le_add_left le _) sameLine).symm
  · rw [atMark, atOrBefore_place_iff (Nat.le_of_lt hj) (Nat.le_of_lt hk)]
    omega
  · intro m' hm' from_ upTo
    obtain ⟨front', span', back', i, split', marked, rfl⟩ := (mappings m').mp hm'
    obtain ⟨hi, atOther⟩ := inWhole split' marked.lt_length
    rw [atMark, atOther, atOrBefore_place_iff (Nat.le_of_lt hj) (Nat.le_of_lt hi)] at from_
    rw [atOther, atOrBefore_place_iff (Nat.le_of_lt hi) (Nat.le_of_lt hk)] at upTo
    -- Between the mark and the character there is only this span, and no other mark of it.
    obtain ⟨x, hx⟩ := Nat.exists_eq_add_of_le
      (show (rebuilt original front).length ≤
        (rebuilt original front').length + i by omega)
    obtain ⟨rfl, rfl, rfl⟩ := eq_of_rebuilt_offset (split.symm.trans split')
      (show x < (span.text original).length by omega) marked.lt_length hx.symm
    rcases Nat.eq_or_lt_of_le (show j ≤ x by omega) with rfl | lt
    · rfl
    · exact absurd marked (mark.last x lt (by omega))

/-- **Every character is traced back.** Any calls that copy spans of a text, replace spans by texts
without a map or leave spans out are accepted, and rebuild the texts one after the other. If the
splice counts as changed, its map can be read. It leads a copied character to its own line, to the
last token start up to it there, or where the span's part of the line starts if there is none; and a
replaced character to the place where its span stands. -/
theorem locate_applied {original source : Text} {spans : List Span}
    (fits : ∀ span ∈ spans, span.Fits original) :
    ∃ s, applyAll original spans (.start original source) = (s, none) ∧
      s.code = .ok (rebuilt original spans) ∧
      (s.changed → ∃ map d, s.map? = some map ∧ Decoded.ofJson map = .ok d ∧
        (∀ front start stop back, spans = front ++ .copied start stop :: back →
          ∀ k c, (Text.slice original start stop)[k]? = some c → c ≠ .char '\n' →
            let place := original.place (start + lastToken (Text.slice original start stop) k)
            d.locate ((rebuilt original spans).place
              ((rebuilt original front).length + k)) =
                .ok (some (⟨source, place⟩, none)) ∧
            place.line = (original.place (start + k)).line) ∧
        ∀ front text offset back, spans = front ++ .replaced text offset :: back →
          ∀ k c, text[k]? = some c → c ≠ .char '\n' →
            d.locate ((rebuilt original spans).place
              ((rebuilt original front).length + k)) =
                .ok (some (⟨source, original.place offset⟩, none))) := by
  obtain ⟨s, ms, applied, adds, marks⟩ :=
    @exists_applyAll original [] (.start original source) spans rfl rfl fits
  have mappings : ∀ m, m ∈ s.draft.mappings.toList ↔ ∃ front span back k,
      spans = front ++ span :: back ∧ span.Marked original k ∧
        m = span.mapping original source (rebuilt original front) k := by
    rw [adds.mappings]
    exact marks
  refine ⟨s, applied, adds.code_eq rfl, fun changed => ?_⟩
  have lines : ∀ m ∈ s.draft.mappings.toList, 1 ≤ m.generated.line := by
    intro m hm
    obtain ⟨front, span, back, k, -, -, rfl⟩ := (mappings m).mp hm
    exact of_decide_eq_true (Bool.and_eq_true_iff.mp (Text.valid_place ..)).1
  refine ⟨_, _, by rw [map?, if_pos changed], Draft.ofJson_toJson lines, ?_, ?_⟩
  · intro front start stop back split k c hc other
    have mark := lastMark_lastToken hc other
    have bound := (List.getElem?_eq_some_iff.mp hc).1
    refine ⟨locate_of_lastMark mappings split mark bound, ?_⟩
    have sameLine := mark.sameLine
    rw [Text.slice_slice (Nat.le_of_lt bound)] at sameLine
    exact (line_place_of_notMem (Nat.add_le_add_left mark.le _) sameLine).symm
  · intro front text offset back split k c hc other
    exact locate_of_lastMark mappings split (lastMark_lineStart hc other)
      (List.getElem?_eq_some_iff.mp hc).1

/-- Spans that are copied out of order, and a text of two lines in place of another span. -/
def swappedSpans : List Span := [.copied 3 8, .dropped, .copied 0 2, .replaced "x\ny" 3]

/-- The second character of `ab` is found where its token starts, though it comes to stand behind a
word, and the second line of the replacement where its span stands. -/
theorem locate_swappedSpans : ∃ s map d,
    applyAll "ab cd\nef" swappedSpans (.start "ab cd\nef" "a") = (s, none) ∧
      s.code = .ok "cd\nefabx\ny" ∧ s.map? = some map ∧ Decoded.ofJson map = .ok d ∧
      d.locate ⟨2, 3⟩ = .ok (some (⟨"a", ⟨1, 0⟩⟩, none)) ∧
      d.locate ⟨3, 0⟩ = .ok (some (⟨"a", ⟨1, 3⟩⟩, none)) := by
  have fits : ∀ span ∈ swappedSpans, span.Fits "ab cd\nef" := by
    simp [swappedSpans, Span.Fits, Text.ofString]
  obtain ⟨s, applied, code, found⟩ := @locate_applied "ab cd\nef" "a" swappedSpans fits
  have changed : (applyAll "ab cd\nef" swappedSpans (.start "ab cd\nef" "a")).1.changed := rfl
  rw [applied] at changed
  obtain ⟨map, d, hmap, read, copied, replaced⟩ := found changed
  refine ⟨s, map, d, applied, code, hmap, read, ?_, ?_⟩
  · exact (copied [.copied 3 8, .dropped] 0 2 [.replaced "x\ny" 3] rfl 1 (.char 'b') rfl
      (by decide)).1
  · exact replaced [.copied 3 8, .dropped, .copied 0 2] "x\ny" 3 [] rfl 2 (.char 'y') rfl (by decide)

end Splice

end SourceMap

end Componentry
