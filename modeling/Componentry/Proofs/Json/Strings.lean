import Componentry.Json.Printer
import Componentry.Json.Reader
import Componentry.Proofs.Text.Order
import Mathlib.Tactic.SplitIfs

/-!
# Strings read back

A written string reads back as the string, with one reservation: two halves that make a pair are
written like the character they make, so that they read back as that character. A text in which no
such halves meet reads back as it is.
-/

namespace Componentry

/-! ## Halves that make a pair -/

/-- May the code point be the first of a pair of halves? -/
def CodePoint.isHigh (c : CodePoint) : Bool := 0xD800 ≤ c.toNat && c.toNat < 0xDC00

/-- May the code point be the second of a pair of halves? -/
def CodePoint.isLow (c : CodePoint) : Bool := 0xDC00 ≤ c.toNat && c.toNat < 0xE000

/-- The character that two halves make. -/
def CodePoint.pair (a b : CodePoint) : CodePoint :=
  .ofNat (0x10000 + (a.toNat - 0xD800) * 0x400 + (b.toNat - 0xDC00))

/-- The text with the character for each two halves that make one. -/
def Text.paired : Text → Text
  | [] => []
  | [c] => [c]
  | a :: b :: s =>
    if a.isHigh && b.isLow then a.pair b :: paired s else a :: paired (b :: s)

/-- A text in which no two halves meet that make a character. -/
def Text.Whole (s : Text) : Prop := s.paired = s

instance (s : Text) : Decidable s.Whole := inferInstanceAs (Decidable (s.paired = s))

theorem CodePoint.isHigh_iff {c : CodePoint} :
    c.isHigh ↔ 0xD800 ≤ c.toNat ∧ c.toNat < 0xDC00 := by
  simp [isHigh]

theorem CodePoint.isLow_iff {c : CodePoint} : c.isLow ↔ 0xDC00 ≤ c.toNat ∧ c.toNat < 0xE000 := by
  simp [isLow]

theorem CodePoint.isHalf_of_isHigh {c : CodePoint} (h : c.isHigh) : c.isHalf := by
  cases c with
  | half n => rfl
  | char c =>
    have range := isHigh_iff.mp h
    have valid := c.valid
    simp only [toNat, Char.toNat, UInt32.isValidChar, Nat.isValidChar] at range valid
    omega

/-- A text without halves is whole. -/
theorem Text.whole_of_not_isHalf {s : Text} (h : ∀ c ∈ s, ¬ c.isHalf) : s.Whole := by
  fun_induction Text.paired s with
  | case1 => rfl
  | case2 c => rfl
  | case3 a b s high ih =>
    rw [Bool.and_eq_true] at high
    exact absurd (CodePoint.isHalf_of_isHigh high.1) (h a (List.mem_cons_self ..))
  | case4 a b s low ih =>
    have rest : Text.paired (b :: s) = b :: s := ih fun c hc => h c (List.mem_cons_of_mem _ hc)
    rw [Whole, Text.paired, if_neg low, rest]

/-! ## Hexadecimal digits -/

namespace Json

theorem hexDigit?_hexDigit {n : Nat} (h : n < 16) : hexDigit? (Text.hexDigit n) = some n := by
  have all : ∀ k < 16, hexDigit? (Text.hexDigit k) = some k := by decide
  exact all n h

/-- The escape of a unit, digit by digit. -/
theorem unitEscape_eq (n : Nat) :
    unitEscape n = .char '\\' :: .char 'u' :: [Text.hexDigit (n / 4096 % 16),
      Text.hexDigit (n / 256 % 16), Text.hexDigit (n / 16 % 16), Text.hexDigit (n % 16)] := by
  simp [unitEscape, Text.hexFixed, Nat.div_div_eq_div_mul]

theorem hexUnit?_hexDigit {n : Nat} (h : n < 0x10000) :
    hexUnit? (Text.hexDigit (n / 4096 % 16)) (Text.hexDigit (n / 256 % 16))
      (Text.hexDigit (n / 16 % 16)) (Text.hexDigit (n % 16)) = some n := by
  have digit (k : Nat) : hexDigit? (Text.hexDigit (k % 16)) = some (k % 16) :=
    hexDigit?_hexDigit (Nat.mod_lt k (by decide))
  simp only [hexUnit?, digit, Option.bind_eq_bind, Option.bind_some, Option.pure_def,
    Option.some.injEq]
  omega

/-! ## Pieces -/

/-- The pieces that a code point is written as. -/
def piecesOf (c : CodePoint) : List Piece :=
  if 0x10000 ≤ c.toNat then
    [.unit (0xD800 + (c.toNat - 0x10000) / 0x400), .unit (0xDC00 + (c.toNat - 0x10000) % 0x400)]
  else if c = '\n' ∨ c = '\r' ∨ c = '\t' ∨ c = '\x0c' ∨ c = '\x08' ∨ (' ' ≤ c ∧ c ≤ '~') then
    [.plain c]
  else [.unit c.toNat]

/-- Puts pieces before those that were read. -/
def withPieces (front : List Piece) (r : Except Fault (List Piece × Text)) :
    Except Fault (List Piece × Text) :=
  r.map fun p => (front ++ p.1, p.2)

theorem withPieces_append (a b : List Piece) (r : Except Fault (List Piece × Text)) :
    withPieces a (withPieces b r) = withPieces (a ++ b) r := by
  cases r <;> simp [withPieces, Except.map]

theorem readPieces_plain {start s : Text} {c : CodePoint} (quote : c ≠ '"') (slash : c ≠ '\\')
    (control : 0x20 ≤ c.toNat) :
    readPieces start (c :: s) = withPieces [.plain c] (readPieces start s) := by
  rw [readPieces, if_neg (by omega)]
  · cases readPieces start s <;> rfl
  · exact quote
  · exact fun h _ => slash h
  · exact fun _ h _ => slash h
  · exact fun _ _ h _ => slash h

theorem readPieces_simple {start s : Text} {e c : CodePoint} (h : simpleEscape? e = some c) :
    readPieces start (.char '\\' :: e :: s) = withPieces [.plain c] (readPieces start s) := by
  have noUnit : e ≠ .char 'u' := by
    rintro rfl
    simp [simpleEscape?] at h
  rw [readPieces]
  · simp only [h]
    cases readPieces start s <;> rfl
  · exact noUnit

theorem readPieces_unit {start s : Text} {n : Nat} (h : n < 0x10000) (hs : s ≠ []) :
    readPieces start (unitEscape n ++ s) = withPieces [.unit n] (readPieces start s) := by
  rw [unitEscape_eq]
  simp only [List.cons_append, List.nil_append, readPieces]
  rw [if_neg (by simpa using hs), hexUnit?_hexDigit h]
  cases readPieces start s <;> rfl

/-- The code points that have an escape of their own, each with the letter of its escape. -/
def shortEscapes : List (CodePoint × CodePoint) :=
  [('"', '"'), ('\\', '\\'), ('\n', 'n'), ('\r', 'r'), ('\t', 't'), ('\x0c', 'f'), ('\x08', 'b')]

theorem writtenChar_of_short {c e : CodePoint} (h : (c, e) ∈ shortEscapes) :
    writtenChar c = [.char '\\', e] := by
  have table : ∀ p ∈ shortEscapes, writtenChar p.1 = [.char '\\', p.2] := by decide
  exact table (c, e) h

theorem ne_of_not_short {c : CodePoint} (h : ¬ ∃ e, (c, e) ∈ shortEscapes) :
    c ≠ '"' ∧ c ≠ '\\' ∧ c ≠ '\n' ∧ c ≠ '\r' ∧ c ≠ '\t' ∧ c ≠ '\x0c' ∧ c ≠ '\x08' := by
  simpa only [shortEscapes, List.mem_cons, List.not_mem_nil, or_false, Prod.mk.injEq, exists_or,
    exists_and_left, exists_eq, and_true, not_or] using h

/-- A code point without an escape of its own is written as it is, or by the escapes of its units. -/
theorem writtenChar_of_not_short {c : CodePoint} (h : ¬ ∃ e, (c, e) ∈ shortEscapes) :
    writtenChar c =
      if .char ' ' ≤ c ∧ c ≤ .char '~' then [c]
      else if c.toNat < 0x10000 then unitEscape c.toNat
      else unitEscape (0xD800 + (c.toNat - 0x10000) / 0x400) ++
        unitEscape (0xDC00 + (c.toNat - 0x10000) % 0x400) := by
  obtain ⟨quote, slash, feed, return_, tab, form, back⟩ := ne_of_not_short h
  rw [writtenChar, if_neg quote, if_neg slash, if_neg feed, if_neg return_, if_neg tab, if_neg form,
    if_neg back]

/-- One written code point is read as its pieces. -/
theorem readPieces_writtenChar {start s : Text} (c : CodePoint) (hs : s ≠ []) :
    readPieces start (writtenChar c ++ s) = withPieces (piecesOf c) (readPieces start s) := by
  by_cases short : ∃ e, (c, e) ∈ shortEscapes
  · obtain ⟨e, mem⟩ := short
    have table : ∀ p ∈ shortEscapes, simpleEscape? p.2 = some p.1 ∧ piecesOf p.1 = [.plain p.1] := by
      simp only [shortEscapes, List.forall_mem_cons]
      refine ⟨?_, ?_, ?_, ?_, ?_, ?_, ?_, by simp⟩
      all_goals exact ⟨rfl, rfl⟩
    obtain ⟨escape, pieces⟩ := table (c, e) mem
    rw [writtenChar_of_short mem, pieces]
    exact readPieces_simple escape
  obtain ⟨quote, slash, feed, return_, tab, form, back⟩ := ne_of_not_short short
  rw [writtenChar_of_not_short short]
  by_cases printable : .char ' ' ≤ c ∧ c ≤ .char '~'
  · have range : 0x20 ≤ c.toNat ∧ c.toNat ≤ 0x7e := printable
    rw [if_pos printable, piecesOf, if_neg (by omega), if_pos (by simp [printable])]
    exact readPieces_plain quote slash range.1
  rw [if_neg printable]
  by_cases unit : c.toNat < 0x10000
  · rw [if_pos unit, piecesOf, if_neg (by omega), if_neg (by simp only [feed, return_, tab, form,
      back, printable, or_self, not_false_eq_true])]
    exact readPieces_unit unit hs
  · have bound := c.toNat_lt
    have rest : unitEscape (0xDC00 + (c.toNat - 0x10000) % 0x400) ++ s ≠ [] := by
      simp [unitEscape]
    rw [if_neg unit, piecesOf, if_pos (by omega), List.append_assoc, readPieces_unit (by omega) rest,
      readPieces_unit (by omega) hs, withPieces_append]
    rfl

/-- The pieces of a written body are those of its code points. -/
theorem readPieces_written (start s rest : Text) :
    readPieces start (s.flatMap writtenChar ++ .char '"' :: rest) =
      .ok (s.flatMap piecesOf, rest) := by
  induction s with
  | nil => simp [readPieces]
  | cons c s ih =>
    rw [List.flatMap_cons, List.append_assoc, readPieces_writtenChar c (by simp), ih]
    simp [withPieces, Except.map]

/-! ## Joining the pieces -/

/-- A unit that is not the first half of a pair stands for itself. -/
theorem joinPieces_unit {n : Nat} {ps : List Piece}
    (h : ∀ m rest, ps = .unit m :: rest → ¬ (0xD800 ≤ n ∧ n < 0xDC00 ∧ 0xDC00 ≤ m ∧ m < 0xE000)) :
    joinPieces (.unit n :: ps) = .ofNat n :: joinPieces ps := by
  match ps with
  | [] => rfl
  | .plain c :: rest => rfl
  | .unit m :: rest => rw [joinPieces, if_neg (h m rest rfl)]

/-- The pieces of a code point join to it, unless it makes a pair with what follows. -/
theorem joinPieces_piecesOf {c : CodePoint} {ps : List Piece}
    (h : ∀ m rest, ps = .unit m :: rest → ¬ (c.isHigh ∧ 0xDC00 ≤ m ∧ m < 0xE000)) :
    joinPieces (piecesOf c ++ ps) = c :: joinPieces ps := by
  rw [piecesOf]
  split_ifs with astral plain
  · have bound := c.toNat_lt
    have number : 0x10000 + (0xD800 + (c.toNat - 0x10000) / 0x400 - 0xD800) * 0x400 +
        (0xDC00 + (c.toNat - 0x10000) % 0x400 - 0xDC00) = c.toNat := by omega
    simp only [List.cons_append, List.nil_append, joinPieces]
    rw [if_pos (by omega), number, CodePoint.ofNat_toNat]
  · rfl
  · rw [List.singleton_append, joinPieces_unit, CodePoint.ofNat_toNat]
    intro m rest hps
    rintro ⟨lower, upper, low⟩
    exact h m rest hps ⟨CodePoint.isHigh_iff.mpr ⟨lower, upper⟩, low⟩

/-- What starts the pieces of a code point: the code point itself, or a unit that is the second half
of a pair only if the code point is. -/
theorem isLow_of_piecesOf {c : CodePoint} {m : Nat} {ps rest : List Piece}
    (h : piecesOf c ++ ps = .unit m :: rest) (low : 0xDC00 ≤ m ∧ m < 0xE000) : c.isLow := by
  rw [piecesOf] at h
  rw [CodePoint.isLow_iff]
  split_ifs at h with astral plain
  · have bound := c.toNat_lt
    simp only [List.cons_append, List.cons.injEq, Piece.unit.injEq] at h
    omega
  · simp at h
  · simp only [List.cons_append, List.cons.injEq, Piece.unit.injEq] at h
    omega

theorem joinPieces_flatMap (s : Text) : joinPieces (s.flatMap piecesOf) = s.paired := by
  fun_induction Text.paired s with
  | case1 => rfl
  | case2 c =>
    rw [List.flatMap_singleton, ← List.append_nil (piecesOf c), joinPieces_piecesOf (by simp)]
    rfl
  | case3 a b s halves ih =>
    rw [Bool.and_eq_true] at halves
    have ha := CodePoint.isHigh_iff.mp halves.1
    have hb := CodePoint.isLow_iff.mp halves.2
    have unitOf {c : CodePoint} (hc : 0xD800 ≤ c.toNat ∧ c.toNat < 0xE000) :
        piecesOf c = [.unit c.toNat] := by
      have plain {k : Nat} (hk : k < 0xD800) (x : Char) (hx : x.toNat = k) : c ≠ .char x := by
        rintro rfl
        rw [CodePoint.toNat] at hc
        omega
      have printable : ¬ ((.char ' ' : CodePoint) ≤ c ∧ c ≤ (.char '~' : CodePoint)) := by
        rintro ⟨-, upper⟩
        have : c.toNat ≤ 0x7e := upper
        omega
      rw [piecesOf, if_neg (by omega), if_neg]
      rintro (h | h | h | h | h | h)
      · exact plain (by decide) '\n' rfl h
      · exact plain (by decide) '\r' rfl h
      · exact plain (by decide) '\t' rfl h
      · exact plain (by decide) '\x0c' rfl h
      · exact plain (by decide) '\x08' rfl h
      · exact printable h
    rw [List.flatMap_cons, List.flatMap_cons, unitOf (by omega), unitOf (by omega)]
    simp only [List.cons_append, List.nil_append, joinPieces]
    rw [if_pos (by omega), ih]
    rfl
  | case4 a b s apart ih =>
    rw [List.flatMap_cons, joinPieces_piecesOf, ih]
    intro m rest hps low
    rw [List.flatMap_cons] at hps
    exact apart (by rw [low.1, isLow_of_piecesOf hps low.2]; rfl)

/-! ## Strings -/

/-- A written string reads back, its halves paired. -/
theorem readString_written (s rest : Text) :
    readString (s.flatMap writtenChar ++ .char '"' :: rest) = .ok (s.paired, rest) := by
  simp only [readString, readPieces_written, bind, Except.bind, pure, Except.pure,
    joinPieces_flatMap]

/-- Written strings are told apart, and so is what follows them. -/
theorem writtenString_append_inj {s t a b : Text}
    (h : writtenString s ++ a = writtenString t ++ b) : s.paired = t.paired ∧ a = b := by
  have body : s.flatMap writtenChar ++ .char '"' :: a = t.flatMap writtenChar ++ .char '"' :: b := by
    simpa [writtenString, Text.ofString] using h
  have read := readString_written s a
  rw [body, readString_written] at read
  simpa [eq_comm] using read

end Json

end Componentry
