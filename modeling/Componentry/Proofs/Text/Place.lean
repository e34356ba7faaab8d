import Componentry.Proofs.Text.Basic
import Componentry.Text.LineIndex

/-!
# Places in a text

The place of an offset is where reading the text up to it leads: a line feed goes to the start of
the next line, any other character one column on. Places are in the order of their offsets, and the
index of a text's lines gives the place of each of its offsets.
-/

namespace Componentry

/-! ## Binary search -/

theorem partitionPoint_eq {p : Nat → Bool} {n fuel lo hi : Nat} (holds : ∀ i < n, p i)
    (fails : ∀ i, n ≤ i → i < hi → ¬ p i) (hlo : lo ≤ n) (hhi : n ≤ hi) (enough : hi - lo ≤ fuel) :
    partitionPoint p fuel lo hi = n := by
  induction fuel generalizing lo hi with
  | zero =>
    rw [partitionPoint]
    omega
  | succ fuel ih =>
    rw [partitionPoint]
    by_cases h : lo < hi
    · rw [if_pos h]
      have lower : lo ≤ (lo + hi) / 2 := by omega
      have upper : (lo + hi) / 2 < hi := by omega
      by_cases before : (lo + hi) / 2 < n
      · simp only [holds _ before, if_true]
        exact ih fails before hhi (by omega)
      · simp only [fails _ (Nat.le_of_not_lt before) upper]
        exact ih (fun i hn hi => fails i hn (by omega)) hlo (by omega) (by omega)
    · rw [if_neg h]
      omega

/-- The items that satisfy `p`, all of them at the front, are counted. -/
theorem countLeading_append {α : Type} {p : α → Bool} {front back : List α}
    (holds : ∀ x ∈ front, p x) (fails : ∀ x ∈ back, ¬ p x) :
    countLeading p (front ++ back).toArray = front.length := by
  refine partitionPoint_eq ?_ ?_ (Nat.zero_le _) (by simp) (by simp)
  · intro i hi
    simp [List.getElem?_append_left hi, List.getElem?_eq_getElem hi, holds]
  · intro i hn hi
    have bound : i - front.length < back.length := by
      simp only [List.size_toArray, List.length_append] at hi
      omega
    simp [List.getElem?_append_right hn, List.getElem?_eq_getElem bound, fails]

/-! ## The place after a text -/

namespace Position

/-- The place after one character. -/
def step (p : Position) (c : CodePoint) : Position :=
  if c = '\n' then ⟨p.line + 1, 0⟩ else ⟨p.line, p.column + 1⟩

/-- The place after a text that starts at `p`. -/
def advance (p : Position) (s : Text) : Position := s.foldl step p

/-- Does `a` come before `b`? -/
def Before (a b : Position) : Prop := a.line < b.line ∨ a.line = b.line ∧ a.column < b.column

@[simp] theorem advance_nil (p : Position) : p.advance [] = p := rfl

@[simp] theorem advance_cons (p : Position) (c : CodePoint) (s : Text) :
    p.advance (c :: s) = (p.step c).advance s := rfl

theorem advance_append (p : Position) (s t : Text) :
    p.advance (s ++ t) = (p.advance s).advance t := List.foldl_append

theorem Before.trans {a b c : Position} (h : a.Before b) (h' : b.Before c) : a.Before c := by
  simp only [Before] at *
  omega

theorem Before.ne {a b : Position} (h : a.Before b) : a ≠ b := by
  rintro rfl
  simp only [Before] at h
  omega

theorem Before.of_not_before {a b c : Position} (h : a.Before b) (h' : ¬ c.Before b) : a.Before c := by
  simp only [Before] at *
  omega

theorem before_step (p : Position) (c : CodePoint) : p.Before (p.step c) := by
  rw [step]
  split
  · exact .inl (Int.lt_succ _)
  · exact .inr ⟨rfl, Int.lt_succ _⟩

theorem before_advance_of_ne_nil {p : Position} {s : Text} (h : s ≠ []) : p.Before (p.advance s) := by
  induction s generalizing p with
  | nil => exact absurd rfl h
  | cons c s ih =>
    by_cases empty : s = []
    · subst empty
      exact p.before_step c
    · exact (p.before_step c).trans (ih empty)

theorem valid_step {p : Position} (h : p.valid) (c : CodePoint) : (p.step c).valid := by
  simp only [valid, Bool.and_eq_true, decide_eq_true_eq] at *
  by_cases hc : c = '\n' <;> simp only [step, hc, if_true, if_false] <;> omega

theorem valid_advance {p : Position} (h : p.valid) (s : Text) : (p.advance s).valid := by
  induction s generalizing p with
  | nil => exact h
  | cons c s ih => exact ih (valid_step h c)

/-! ### Texts inside texts -/

theorem Before.shift {p q : Position} (h : p.Before q) (base : Position) :
    (base.shift p).Before (base.shift q) := by
  simp only [Before, Position.shift] at *
  split <;> split <;> dsimp only <;> omega

theorem shift_step {p : Position} (h : p.valid) (base : Position) (c : CodePoint) :
    base.shift (p.step c) = (base.shift p).step c := by
  simp only [valid, Bool.and_eq_true, decide_eq_true_eq] at h
  by_cases hc : c = '\n'
  · have later : p.line + 1 ≠ 1 := by omega
    by_cases hl : p.line = 1 <;> simp [step, shift, hc, hl, later] <;> omega
  · by_cases hl : p.line = 1
    · simp [step, shift, hc, hl]
      omega
    · simp [step, shift, hc, hl]

theorem shift_advance {p : Position} (h : p.valid) (base : Position) (s : Text) :
    base.shift (p.advance s) = (base.shift p).advance s := by
  induction s generalizing p with
  | nil => rfl
  | cons c s ih => rw [advance_cons, ih (valid_step h c), shift_step h, advance_cons]

/-- The place after a text counted from its own start, moved to where the text starts. -/
theorem shift_advance_start (base : Position) (s : Text) :
    base.shift (advance ⟨1, 0⟩ s) = base.advance s := by
  rw [shift_advance rfl]
  simp [shift]

/-- A place of a text is not before the text. -/
theorem not_shift_before {base p : Position} (h : p.valid) : ¬ (base.shift p).Before base := by
  simp only [valid, Bool.and_eq_true, decide_eq_true_eq] at h
  simp only [Before, shift]
  split <;> dsimp only <;> omega

theorem valid_shift {base p : Position} (hbase : base.valid) (h : p.valid) : (base.shift p).valid := by
  simp only [valid, Bool.and_eq_true, decide_eq_true_eq] at *
  simp only [shift]
  split <;> simp only <;> omega

end Position

/-! ## The place of an offset -/

namespace Text

/-- The line and column of an offset. -/
def place (s : Text) (i : Nat) : Position := Position.advance ⟨1, 0⟩ (s.take i)

theorem valid_place (s : Text) (i : Nat) : (place s i).valid := Position.valid_advance rfl _

theorem place_append {s : Text} {i : Nat} (h : i ≤ s.length) (t : Text) :
    place (s ++ t) i = place s i := by
  rw [place, List.take_append_of_le_length h, place]

theorem place_length_add (s t : Text) (i : Nat) :
    place (s ++ t) (s.length + i) = (place s s.length).advance (t.take i) := by
  rw [place, List.take_length_add_append, Position.advance_append, place, List.take_length]

/-- A place of a text, moved to where the text starts behind another. -/
theorem shift_place (s t : Text) (i : Nat) :
    (place s s.length).shift (place t i) = place (s ++ t) (s.length + i) := by
  rw [place_length_add, place.eq_1 t, Position.shift_advance_start]

theorem shift_place_drop {s : Text} {i : Nat} (h : i ≤ s.length) (j : Nat) :
    (place s i).shift (place (s.drop i) j) = place s (i + j) := by
  have length : (s.take i).length = i := List.length_take_of_le h
  have front : place s i = place (s.take i) (s.take i).length := by
    rw [place, place, List.take_length]
  rw [front, shift_place, List.take_append_drop, length]

/-- Places are in the order of their offsets. -/
theorem place_before {s : Text} {i j : Nat} (h : i < j) (hj : j ≤ s.length) :
    (place s i).Before (place s j) := by
  have split : s.take j = s.take i ++ (s.drop i).take (j - i) := by
    rw [← List.take_append_drop i (s.take j), List.take_take, Nat.min_eq_left (Nat.le_of_lt h),
      List.drop_take]
  rw [place, place, split, Position.advance_append]
  refine Position.before_advance_of_ne_nil fun empty => ?_
  have := congrArg List.length empty
  simp only [List.length_take, List.length_drop, List.length_nil] at this
  omega

theorem place_inj {s : Text} {i j : Nat} (hi : i ≤ s.length) (hj : j ≤ s.length)
    (h : place s i = place s j) : i = j := by
  rcases Nat.lt_trichotomy i j with lt | rfl | gt
  · exact absurd h (place_before lt hj).ne
  · rfl
  · exact absurd h.symm (place_before gt hi).ne

end Text

/-! ## Lines -/

namespace LineIndex

theorem lineEnds_append (offset : Nat) (s t : Text) :
    lineEnds offset (s ++ t) = lineEnds offset s ++ lineEnds (offset + s.length) t := by
  induction s generalizing offset with
  | nil => simp [lineEnds]
  | cons c s ih =>
    have next : offset + 1 + s.length = offset + (s.length + 1) := by omega
    by_cases h : c = '\n' <;> simp [lineEnds, h, ih, next]

theorem mem_lineEnds {offset e : Nat} {s : Text} (h : e ∈ lineEnds offset s) :
    offset < e ∧ e ≤ offset + s.length := by
  induction s generalizing offset with
  | nil => simp [lineEnds] at h
  | cons c s ih =>
    have later : e ∈ lineEnds (offset + 1) s → offset < e ∧ e ≤ offset + (c :: s).length := by
      intro h
      have := ih h
      rw [List.length_cons]
      omega
    rw [lineEnds] at h
    split at h
    · rcases List.mem_cons.mp h with rfl | h
      · rw [List.length_cons]
        omega
      · exact later h
    · exact later h

/-- The place after a text by its line ends: so many lines on, and so far behind the last of them. -/
theorem advance_eq (p : Position) (offset : Nat) (s : Text) :
    p.advance s = ⟨p.line + (lineEnds offset s).length,
      offset + s.length - (((lineEnds offset s).getLast?.map Int.ofNat).getD (offset - p.column))⟩ := by
  induction s generalizing p offset with
  | nil =>
    have column : (offset : Int) - (offset - p.column) = p.column := by omega
    simp [lineEnds, column]
  | cons c s ih =>
    rw [Position.advance_cons, ih _ (offset + 1)]
    by_cases h : c = '\n'
    · cases hs : (lineEnds (offset + 1) s).getLast? <;>
        simp [Position.step, lineEnds, h, List.getLast?_cons, hs] <;> omega
    · cases hs : (lineEnds (offset + 1) s).getLast? <;>
        simp [Position.step, lineEnds, h, hs] <;> omega

/-- The index of a text's lines gives the place of an offset of the text. -/
theorem position_ofText {s : Text} {i : Nat} (h : i ≤ s.length) :
    (ofText s).position i = s.place i := by
  have whole : lineEnds 0 s = lineEnds 0 (s.take i) ++ lineEnds i (s.drop i) := by
    have := lineEnds_append 0 (s.take i) (s.drop i)
    rwa [List.take_append_drop, List.length_take, Nat.min_eq_left h, Nat.zero_add] at this
  have count : countLeading (fun (start : Nat) => decide ((start : Int) ≤ i)) (ofText s).starts =
      (lineEnds 0 (s.take i)).length + 1 := by
    rw [ofText, whole, ← List.cons_append, countLeading_append]
    · rfl
    · intro e he
      rcases List.mem_cons.mp he with rfl | he
      · simp
      · have := (mem_lineEnds he).2
        simp only [List.length_take, Nat.zero_add] at this
        simp only [decide_eq_true_eq]
        omega
    · intro e he
      have := (mem_lineEnds he).1
      simp only [decide_eq_true_eq]
      omega
  have start : (ofText s).starts.getD (lineEnds 0 (s.take i)).length 0 =
      (lineEnds 0 (s.take i)).getLast?.getD 0 := by
    rw [ofText, whole]
    rcases List.eq_nil_or_concat (lineEnds 0 (s.take i)) with ends | ⟨front, last, ends⟩
    · simp [ends]
    · simp [ends]
  rw [position, count, Text.place, advance_eq _ 0]
  simp only [Nat.add_sub_cancel, Nat.add_one_ne_zero, if_false, start]
  cases (lineEnds 0 (s.take i)).getLast? <;>
    simp only [Option.map_some, Option.map_none, Option.getD_some, Option.getD_none,
      List.length_take, Nat.min_eq_left h, Position.mk.injEq, Int.ofNat_eq_natCast] <;> omega

end LineIndex

/-- The place after a text by its lines. -/
theorem Position.advance_eq_splitOn (p : Position) (s : Text) :
    p.advance s =
      let lines := Text.splitOn '\n' s
      ⟨p.line + (lines.length - 1 : Nat),
        if lines.length ≤ 1 then p.column + (lines.getLast?.getD []).length
        else (lines.getLast?.getD []).length⟩ := by
  induction s generalizing p with
  | nil => simp
  | cons c s ih =>
    obtain ⟨first, rest, hs⟩ := Text.exists_splitOn_eq_cons '\n' s
    rw [advance_cons, ih]
    by_cases h : c = '\n'
    · subst h
      cases rest with
      | nil =>
        simp [step, hs, List.getLast?_cons]
      | cons line more =>
        simp [step, hs, List.getLast?_cons]
        omega
    · cases rest with
      | nil =>
        simp [step, Text.splitOn, h, hs, List.getLast?_cons]
        omega
      | cons line more =>
        simp [step, Text.splitOn, h, hs, List.getLast?_cons]

end Componentry
