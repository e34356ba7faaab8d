import Componentry.Text.Basic

/-!
# The order of texts

Texts are ordered by the first code point in which they differ. The order is total, and only equal
texts stand at one place in it.
-/

namespace Componentry

open Std

/-! ## Numbers of code points -/

namespace CodePoint

theorem toNat_lt (c : CodePoint) : c.toNat < 0x110000 := by
  cases c with
  | char c =>
    have valid := c.valid
    simp only [toNat, Char.toNat, UInt32.isValidChar, Nat.isValidChar] at valid ⊢
    omega
  | half n =>
    simp only [toNat, firstHalf]
    omega

@[simp] theorem ofNat_toNat (c : CodePoint) : ofNat c.toNat = c := by
  cases c with
  | char c =>
    have valid := c.valid
    simp only [UInt32.isValidChar, Nat.isValidChar] at valid
    have noHalf : ¬ (c.toNat - firstHalf < 2048 ∧ firstHalf ≤ c.toNat) := by
      simp only [Char.toNat, firstHalf]
      omega
    rw [toNat, ofNat, dif_neg noHalf, Char.ofNat_toNat]
  | half n =>
    have isHalf : firstHalf + n.val - firstHalf < 2048 ∧ firstHalf ≤ firstHalf + n.val := by omega
    rw [toNat, ofNat, dif_pos isHalf]
    simp

theorem toNat_ofNat {n : Nat} (h : n < 0x110000) : (ofNat n).toNat = n := by
  rw [ofNat]
  split
  next half =>
    rw [toNat]
    simp only [firstHalf] at half ⊢
    omega
  next noHalf =>
    have valid : n.isValidChar := by
      simp only [firstHalf] at noHalf
      simp only [Nat.isValidChar]
      omega
    rw [toNat, Char.ofNat, dif_pos valid]
    rfl

theorem toNat_inj {a b : CodePoint} (h : a.toNat = b.toNat) : a = b := by
  rw [← ofNat_toNat a, h, ofNat_toNat]

end CodePoint

/-! ## The order -/

instance : TransOrd CodePoint := inferInstanceAs (TransCmp (compareOn CodePoint.toNat))

instance : LawfulEqOrd CodePoint where
  eq_of_compare h := CodePoint.toNat_inj (Nat.compare_eq_eq.mp h)

namespace Text

theorem not_before_iff {a b : Text} : (!Text.before b a) = true ↔ (compare a b).isLE := by
  have swap : compare b a = (compare a b).swap := OrientedCmp.eq_swap
  rw [Text.before, swap]
  cases compare a b <;> decide

/-- Of two texts one does not come after the other. -/
theorem not_before_total (a b : Text) : (!Text.before b a || !Text.before a b) = true := by
  have swap : compare b a = (compare a b).swap := OrientedCmp.eq_swap
  rw [Text.before, Text.before, swap]
  cases compare a b <;> rfl

theorem not_before_trans {a b c : Text} (hab : (!Text.before b a) = true)
    (hbc : (!Text.before c b) = true) : (!Text.before c a) = true :=
  not_before_iff.mpr (TransCmp.isLE_trans (not_before_iff.mp hab) (not_before_iff.mp hbc))

theorem eq_of_not_before {a b : Text} (hab : (!Text.before b a) = true)
    (hba : (!Text.before a b) = true) : a = b := by
  have swap : compare b a = (compare a b).swap := OrientedCmp.eq_swap
  rw [not_before_iff] at hab hba
  rw [swap] at hba
  refine Std.compare_eq_iff_eq.mp ?_
  cases h : compare a b <;> simp_all

end Text

end Componentry
