import Componentry.Json.Reader
import Componentry.Proofs.Text.Run
import Mathlib.Tactic.Ring

/-!
# Digits

The decimal digits of a number beside the number that digits stand for.
-/

namespace Componentry

/-- A text of ASCII digits. -/
def Text.Digits (s : Text) : Prop := ∀ c ∈ s, c.isDigit = true

theorem Text.Digits.append {a b : Text} (ha : a.Digits) (hb : b.Digits) : (a ++ b).Digits := by
  intro c hc
  rcases List.mem_append.mp hc with hc | hc
  · exact ha c hc
  · exact hb c hc

theorem Text.digits_zeros (n : Nat) : (Text.zeros n).Digits := by
  intro c hc
  rw [List.eq_of_mem_replicate hc]
  rfl

/-- A text that does not go on with a digit. -/
def Text.EndsDigits (s : Text) : Prop := ∀ c ∈ s.head?, c.isDigit = false

theorem Text.takeWhile_digits {ds s : Text} (digits : ds.Digits) (ends : s.EndsDigits) :
    (ds ++ s).takeWhile CodePoint.isDigit = ds :=
  Text.takeWhile_append_of_ends digits ends

theorem Text.dropWhile_digits {ds s : Text} (digits : ds.Digits) (ends : s.EndsDigits) :
    (ds ++ s).dropWhile CodePoint.isDigit = s :=
  Text.dropWhile_append_of_ends digits ends

namespace Json

theorem digitsValue_foldl (s : Text) (n : Nat) :
    s.foldl (fun n c => n * 10 + (c.toNat - 48)) n = n * 10 ^ s.length + digitsValue s := by
  induction s generalizing n with
  | nil => simp [digitsValue]
  | cons c s ih =>
    rw [digitsValue, List.foldl_cons, ih, List.foldl_cons, ih]
    simp only [List.length_cons, Nat.pow_succ]
    ring

theorem digitsValue_append (a b : Text) :
    digitsValue (a ++ b) = digitsValue a * 10 ^ b.length + digitsValue b := by
  rw [digitsValue, List.foldl_append, digitsValue_foldl]
  rfl

@[simp] theorem digitsValue_zero : digitsValue [.char '0'] = 0 := rfl

@[simp] theorem digitsValue_zeros (n : Nat) : digitsValue (Text.zeros n) = 0 := by
  induction n with
  | zero => rfl
  | succ n ih =>
    rw [Text.zeros, List.replicate_succ', digitsValue_append]
    simp only [Text.zeros] at ih
    rw [ih, digitsValue_zero, Nat.zero_mul]

theorem digitsValue_ofString (cs : List Char) :
    digitsValue (cs.map CodePoint.char) = Nat.ofDigitChars 10 cs 0 := by
  rw [digitsValue, List.foldl_map, Nat.ofDigitChars]
  congr 1
  funext n c
  rw [Nat.mul_comm]
  rfl

end Json

/-! ## The digits of a number -/

namespace Text

theorem ofNat_eq (n : Nat) : Text.ofNat n = (Nat.toDigits 10 n).map CodePoint.char := by
  rw [Text.ofNat, Text.ofString]
  show ((String.ofList (Nat.toDigits 10 n)).toList).map _ = _
  rw [String.toList_ofList]

theorem digits_ofNat (n : Nat) : (Text.ofNat n).Digits := by
  intro c hc
  rw [ofNat_eq, List.mem_map] at hc
  obtain ⟨x, hx, rfl⟩ := hc
  exact Nat.isDigit_of_mem_toDigits (by decide) (by decide) hx

theorem ofNat_ne_nil (n : Nat) : Text.ofNat n ≠ [] := by simp [ofNat_eq]

@[simp] theorem length_ofNat (n : Nat) : (Text.ofNat n).length = Binary64.digitCount n := by
  rw [ofNat_eq, List.length_map]
  rfl

@[simp] theorem digitsValue_ofNat (n : Nat) : Json.digitsValue (Text.ofNat n) = n := by
  rw [ofNat_eq, Json.digitsValue_ofString, Nat.ofDigitChars_toDigits (by decide) (by decide)]

/-- Only zero is written with a zero in front. -/
theorem head?_ofNat {n : Nat} (h : 0 < n) : (Text.ofNat n).head? ≠ some (.char '0') := by
  induction n using Nat.strongRecOn with
  | ind n ih =>
    rw [ofNat_eq]
    rcases Nat.lt_or_ge n 10 with small | large
    · have all : ∀ k < 10, 0 < k →
          ((Nat.toDigits 10 k).map CodePoint.char).head? ≠ some (.char '0') := by decide
      exact all n small h
    · have step := ih (n / 10) (by omega) (by omega)
      rw [ofNat_eq] at step
      rw [Nat.toDigits_of_base_le (by decide) large, List.map_append, List.head?_append]
      cases front : ((Nat.toDigits 10 (n / 10)).map CodePoint.char).head? with
      | none => simp at front
      | some c =>
        rw [front] at step
        simpa using step

end Text

end Componentry
