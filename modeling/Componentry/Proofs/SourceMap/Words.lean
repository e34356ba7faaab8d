import Componentry.Proofs.SourceMap.Number

/-!
# Words that are numbers

A word can be read as a run of numbers exactly if it is made of digits and its last digit is not
marked as continued. A number can be spelled in many ways, since zeros may follow its last digit and
zero may have a sign. Reading and writing a word gives it back unless it is spelled in one of these
ways.
-/

namespace Componentry.SourceMap.Vlq

/-! ## Digits -/

theorem digit?_eq_some {c : CodePoint} {d : Nat} (h : digit? c = some d) :
    d < 64 ∧ digitChar d = c := by
  obtain ⟨bound, here, -⟩ := List.findIdx?_eq_some_iff_getElem.mp h
  refine ⟨bound, ?_⟩
  rw [digitChar, List.getD_eq_getElem?_getD, List.getElem?_eq_getElem bound]
  exact eq_of_beq here

theorem digit?_eq_none_iff {c : CodePoint} : digit? c = none ↔ c ∉ alphabet := by
  rw [digit?, List.findIdx?_eq_none_iff]
  constructor
  · intro absent mem
    have := absent c mem
    simp at this
  · intro absent x hx
    rw [beq_eq_false_iff_ne]
    rintro rfl
    exact absent hx

/-- Is the digit marked as continued? -/
def Continued (c : CodePoint) : Prop := ∃ d, digit? c = some d ∧ 32 ≤ d

/-! ## Words that can be read -/

/-- A word can be read behind the digits of an open number exactly if it ends that number, and every
other number that it starts. -/
theorem exists_decodeFrom_iff {weight low : Nat} {w : Text} :
    (∃ ns, decodeFrom weight low w = .ok ns) ↔
      (∀ c ∈ w, c ∈ alphabet) ∧ (w = [] → weight = 1) ∧ ∀ c ∈ w.getLast?, ¬ Continued c := by
  induction w generalizing weight low with
  | nil => by_cases h : weight = 1 <;> simp [decodeFrom, h]
  | cons c s ih =>
    rw [decodeFrom]
    cases hd : digit? c with
    | none =>
      have absent := digit?_eq_none_iff.mp hd
      simp [absent]
    | some d =>
      have mem : c ∈ alphabet := (digit?_eq_some hd).2 ▸ digitChar_mem d
      have continued : Continued c ↔ 32 ≤ d := by simp [Continued, hd]
      by_cases small : d < 32
      · have closed : ¬ Continued c := by
          rw [continued]
          omega
        have read : (∃ ns, (do
            let rest ← decodeFrom 1 0 s
            return unfold (low + weight * d) :: rest) = Except.ok ns) ↔
              ∃ ns, decodeFrom 1 0 s = .ok ns := by
          cases decodeFrom 1 0 s <;> simp [bind, Except.bind, pure, Except.pure]
        simp only [small, if_true]
        rw [read, ih]
        cases s <;> simp [mem, closed]
      · have opened : Continued c := continued.mpr (by omega)
        simp only [small, if_false]
        rw [ih]
        cases s with
        | nil =>
          have never : weight * 32 ≠ 1 := by omega
          simp [mem, opened, never]
        | cons x s => simp [mem]

/-- Reading a run of numbers in one pass is reading one number after the other. -/
theorem decodeFrom_eq (weight low : Nat) {w : Text} (some_ : w ≠ []) :
    decodeFrom weight low w = (do
      let (n, rest) ← decodeNat w
      let ns ← decodeFrom 1 0 rest
      return unfold (low + weight * n) :: ns) := by
  induction w generalizing weight low with
  | nil => exact absurd rfl some_
  | cons c s ih =>
    rw [decodeFrom, decodeNat]
    cases digit? c with
    | none => rfl
    | some d =>
      by_cases small : d < 32
      · simp only [small, if_true]
        rfl
      · simp only [small, if_false]
        cases s with
        | nil =>
          rw [decodeFrom, if_neg (show weight * 32 ≠ 1 by omega)]
          rfl
        | cons x s =>
          rw [ih _ _ (List.cons_ne_nil x s)]
          cases decodeNat (x :: s) with
          | error e => rfl
          | ok read =>
            have value : low + weight * (d - 32) + weight * 32 * read.1 =
                low + weight * (d - 32 + 32 * read.1) := by
              rw [Nat.mul_add, Nat.mul_assoc, Nat.add_assoc]
            simp only [bind, Except.bind, pure, Except.pure, value]

/-! ## Words that are one number -/

/-- **One number** is a digit that is not continued, or a continued one and the number behind it. -/
theorem decodeNat_cases {w rest : Text} {n : Nat} (h : decodeNat w = .ok (n, rest)) :
    ∃ c s d, w = c :: s ∧ digit? c = some d ∧
      (d < 32 ∧ n = d ∧ rest = s ∨
        ∃ m, 32 ≤ d ∧ decodeNat s = .ok (m, rest) ∧ n = d - 32 + 32 * m) := by
  cases w with
  | nil => cases h
  | cons c s =>
    rw [decodeNat] at h
    cases hd : digit? c with
    | none => simp [hd] at h
    | some d =>
      refine ⟨c, s, d, rfl, hd, ?_⟩
      simp only [hd] at h
      split at h
      · rename_i small
        obtain ⟨rfl, rfl⟩ := Prod.mk.inj (Except.ok.inj h)
        exact .inl ⟨small, rfl, rfl⟩
      · rename_i large
        cases later : decodeNat s with
        | error e => simp [later, bind, Except.bind] at h
        | ok read =>
          obtain ⟨m, behind⟩ := read
          simp only [later, bind, Except.bind, pure, Except.pure, Except.ok.injEq,
            Prod.mk.injEq] at h
          obtain ⟨rfl, rfl⟩ := h
          exact .inr ⟨m, Nat.le_of_not_lt large, rfl, rfl⟩

theorem length_lt_of_decodeNat {w rest : Text} {n : Nat} (h : decodeNat w = .ok (n, rest)) :
    rest.length < w.length := by
  induction w generalizing n with
  | nil => cases h
  | cons x t ih =>
    obtain ⟨c, s, d, whole, -, ⟨-, -, rfl⟩ | ⟨m, -, later, -⟩⟩ := decodeNat_cases h
    · rw [whole]
      exact Nat.lt_succ_self _
    · obtain ⟨rfl, rfl⟩ := List.cons.inj whole
      exact Nat.lt_succ_of_lt (ih later)

/-- The number that a word is, read from its start. -/
theorem decodeAt_zero_eq_ok_iff {w : Text} {n : Int} :
    decodeAt w 0 = .ok (n, w.length) ↔ ∃ m, decodeNat w = .ok (m, []) ∧ n = unfold m := by
  simp only [decodeAt, decode, Int.lt_irrefl, false_and, if_false, Int.toNat_zero, List.drop_zero,
    Int.zero_add]
  cases read : decodeNat w with
  | error e => simp [bind, Except.bind]
  | ok found =>
    obtain ⟨m, rest⟩ := found
    have shorter := length_lt_of_decodeNat read
    have whole : w.length - rest.length = w.length ↔ rest = [] := by
      rw [← List.length_eq_zero_iff]
      omega
    simp only [bind, Except.bind, pure, Except.pure, Except.ok.injEq, Prod.mk.injEq, Int.ofNat_inj,
      whole]
    constructor
    · rintro ⟨rfl, rfl⟩
      exact ⟨m, ⟨rfl, rfl⟩, rfl⟩
    · rintro ⟨_, ⟨rfl, rfl⟩, rfl⟩
      exact ⟨rfl, rfl⟩

theorem decodeSegment_eq_singleton_iff {w : Text} {n : Int} :
    decodeSegment w = .ok [n] ↔ ∃ m, decodeNat w = .ok (m, []) ∧ n = unfold m := by
  by_cases empty : w = []
  · subst empty
    simp [decodeSegment, decodeFrom, decodeNat]
  · rw [decodeSegment, decodeFrom_eq 1 0 empty]
    cases read : decodeNat w with
    | error e => simp [bind, Except.bind]
    | ok found =>
      obtain ⟨m, rest⟩ := found
      cases rest with
      | nil => simp [decodeFrom, bind, Except.bind, pure, Except.pure, eq_comm]
      | cons c rest =>
        have more := decodeFrom_eq 1 0 (List.cons_ne_nil c rest)
        simp only [bind, Except.bind, pure, Except.pure] at more ⊢
        rw [more]
        cases decodeNat (c :: rest) with
        | error e => simp
        | ok next =>
          simp only
          cases decodeFrom 1 0 next.2 <;> simp

/-! ## Spellings of a number -/

/-- Does a number of more than one digit end with a zero? -/
def HasSpareZero (w : Text) : Prop := 1 < w.length ∧ w.getLast? = some (digitChar 0)

instance (w : Text) : Decidable (HasSpareZero w) :=
  inferInstanceAs (Decidable (1 < w.length ∧ w.getLast? = some (digitChar 0)))

/-- Fuel beyond the number makes no difference. -/
theorem digits_congr {fuel fuel' n : Nat} (h : n ≤ fuel) (h' : n ≤ fuel') :
    digits fuel n = digits fuel' n := by
  induction fuel generalizing fuel' n with
  | zero =>
    obtain rfl : n = 0 := by omega
    cases fuel' <;> rfl
  | succ fuel ih =>
    cases fuel' with
    | zero =>
      obtain rfl : n = 0 := by omega
      rfl
    | succ fuel' =>
      have rest : 32 ≤ n → digits fuel (n / 32) = digits fuel' (n / 32) := by
        intro large
        exact ih (by omega) (by omega)
      rw [digits, digits]
      split
      · rfl
      · rw [rest (by omega)]

theorem digits_eq (n : Nat) :
    digits n n = if n < 32 then [n] else (n % 32 + 32) :: digits (n / 32) (n / 32) := by
  cases n with
  | zero => rfl
  | succ n =>
    have rest : digits n ((n + 1) / 32) = digits ((n + 1) / 32) ((n + 1) / 32) :=
      digits_congr (by omega) (Nat.le_refl _)
    rw [digits, rest]

theorem getLast?_of_decodeNat_zero {w : Text} (h : decodeNat w = .ok (0, [])) :
    w.getLast? = some (digitChar 0) := by
  induction w with
  | nil => cases h
  | cons x t ih =>
    obtain ⟨c, s, d, whole, digit, ⟨-, rfl, rfl⟩ | ⟨m, large, later, zero⟩⟩ := decodeNat_cases h
    · rw [whole, (digit?_eq_some digit).2]
      rfl
    · obtain ⟨rfl, rfl⟩ := List.cons.inj whole
      obtain rfl : m = 0 := by omega
      rw [List.getLast?_cons, ih later]
      rfl

/-- **A number is spelled by its digits** exactly if no zero follows them. -/
theorem map_digits_eq_iff {w : Text} {n : Nat} (h : decodeNat w = .ok (n, [])) :
    (digits n n).map digitChar = w ↔ ¬ HasSpareZero w := by
  induction w generalizing n with
  | nil => cases h
  | cons x t ih =>
    obtain ⟨c, s, d, whole, digit, ⟨small, rfl, rfl⟩ | ⟨m, large, later, value⟩⟩ := decodeNat_cases h
    · rw [whole, digits_eq, if_pos small]
      simp [HasSpareZero, (digit?_eq_some digit).2]
    · obtain ⟨rfl, rfl⟩ := List.cons.inj whole
      obtain ⟨bound, char⟩ := digit?_eq_some digit
      have longer : 0 < t.length := Nat.lt_of_le_of_lt (Nat.zero_le _) (length_lt_of_decodeNat later)
      have last : (x :: t).getLast? = t.getLast? := by
        obtain ⟨y, t, rfl⟩ := List.exists_cons_of_ne_nil (List.length_pos_iff.mp longer)
        rfl
      by_cases zero : m = 0
      · -- What is behind the first digit is zero.
        subst zero
        have spare : HasSpareZero (x :: t) :=
          ⟨Nat.succ_lt_succ longer, last.trans (getLast?_of_decodeNat_zero later)⟩
        have short : ((digits n n).map digitChar).length = 1 := by
          rw [digits_eq, if_pos (by omega)]
          rfl
        refine iff_of_false (fun same => ?_) (fun none_ => none_ spare)
        rw [same, List.length_cons] at short
        omega
      · have first : digitChar (n % 32 + 32) = x := by
          rw [← char]
          congr 1
          omega
        have rest : n / 32 = m := by omega
        have spare : HasSpareZero (x :: t) ↔ HasSpareZero t := by
          rw [HasSpareZero, HasSpareZero, last, List.length_cons]
          refine and_congr_left fun zeroLast => ⟨fun _ => ?_, fun _ => by omega⟩
          -- If the zero stood alone behind the first digit, it would be the rest of the number.
          rcases Nat.eq_or_lt_of_le longer with one | many
          · obtain ⟨y, rfl⟩ := List.length_eq_one_iff.mp one.symm
            obtain rfl := Option.some.inj zeroLast
            have read : decodeNat [digitChar 0] = .ok (0, []) := by rfl
            rw [read] at later
            exact absurd (Prod.mk.inj (Except.ok.inj later)).1.symm zero
          · exact many
        rw [spare, ← ih later, digits_eq, if_neg (by omega), List.map_cons, first, rest,
          List.cons.injEq, and_iff_right rfl]

theorem fold_unfold (n : Nat) : fold (unfold n) = if n = 1 then 0 else n := by
  unfold fold unfold
  split <;> split <;> split <;> omega

/-- **The numbers of a segment.** The numbers that were written are read back. A word can be read
exactly if it is made of digits and its last digit, if it has one, is not marked as continued. A word
that is one number, by either way of reading it, is what is written for this number exactly if no
zero follows its digits and it is not the digit of a negative zero. -/
theorem decodeSegment_encode_iff :
    (∀ ns : List Int, decodeSegment (ns.flatMap encode) = .ok ns) ∧
    (∀ w : Text, (∃ ns, decodeSegment w = .ok ns) ↔
      (∀ c ∈ w, c ∈ alphabet) ∧ (w = [] ∨ ∃ c, w.getLast? = some c ∧ ¬ Continued c)) ∧
    ∀ (w : Text) (n : Int), (decodeSegment w = .ok [n] ↔ decodeAt w 0 = .ok (n, w.length)) ∧
      (decodeAt w 0 = .ok (n, w.length) → (encode n = w ↔ ¬ HasSpareZero w ∧ w ≠ "B")) := by
  refine ⟨decodeSegment_flatMap_encode, fun w => ?_, fun w n => ⟨?_, fun whole => ?_⟩⟩
  · rw [decodeSegment, exists_decodeFrom_iff]
    cases last : w.getLast? with
    | none => simp [List.getLast?_eq_none_iff.mp last]
    | some c =>
      have some_ : w ≠ [] := by
        rintro rfl
        cases last
      simp [some_]
  · rw [decodeSegment_eq_singleton_iff, decodeAt_zero_eq_ok_iff]
  · obtain ⟨m, read, rfl⟩ := decodeAt_zero_eq_ok_iff.mp whole
    have negativeZero : w = "B" → m = 1 := by
      rintro rfl
      have one : decodeNat "B" = .ok (1, []) := by rfl
      rw [one] at read
      exact (Prod.mk.inj (Except.ok.inj read)).1.symm
    have spelled := map_digits_eq_iff read
    rw [encode, fold_unfold]
    split
    · rename_i one
      subst one
      -- The number is written as zero, and the word is none of zero.
      refine iff_of_false (fun same => ?_) (fun right => right.2 (spelled.mpr right.1).symm)
      rw [← same] at read
      cases read
    · rename_i other
      rw [spelled, and_iff_left fun isB => other (negativeZero isB)]

/-- Two digits can be sixteen, and they can be a zero with another zero behind it. -/
theorem encode_two_digits :
    decodeAt "gB" 0 = .ok (16, 2) ∧ encode 16 = "gB" ∧
      decodeAt "gA" 0 = .ok (0, 2) ∧ encode 0 ≠ "gA" := by
  have sixteen : decodeAt "gB" 0 = .ok (16, 2) := by rfl
  have zero : decodeAt "gA" 0 = .ok (0, 2) := by rfl
  obtain ⟨-, -, spelled⟩ := decodeSegment_encode_iff
  refine ⟨sixteen, ?_, zero, ?_⟩
  · exact ((spelled "gB" 16).2 sixteen).mpr (by decide +kernel)
  · intro same
    exact absurd (by decide +kernel) (((spelled "gA" 0).2 zero).mp same).1

end Componentry.SourceMap.Vlq
