import Componentry.SourceMap.Vlq

/-!
# Numbers of variable length, written and read

Reading a run of written numbers gives the numbers back, whatever follows them. No digit is a
separator of segments or of lines.
-/

namespace Componentry.SourceMap.Vlq

theorem digit?_digitChar {d : Nat} (h : d < 64) : digit? (digitChar d) = some d := by
  have table : ∀ d : Fin 64, digit? (digitChar d) = some d.val := by decide +kernel
  exact table ⟨d, h⟩

theorem digitChar_mem (d : Nat) : digitChar d ∈ alphabet := by
  by_cases h : d < alphabet.length
  · rw [digitChar, List.getD_eq_getElem?_getD, List.getElem?_eq_getElem h]
    exact List.getElem_mem h
  · rw [digitChar, List.getD_eq_getElem?_getD, List.getElem?_eq_none (by omega)]
    decide +kernel

theorem comma_notMem_alphabet : (.char ',' : CodePoint) ∉ alphabet := by decide +kernel

theorem semicolon_notMem_alphabet : (.char ';' : CodePoint) ∉ alphabet := by decide +kernel

@[simp] theorem unfold_fold (n : Int) : unfold (fold n) = n := by
  unfold fold unfold
  split <;> split <;> omega

/-! ## One number -/

/-- Reading the digits of `n` behind digits of value `low` adds `n` at its weight, and goes on with a
new number. The fuel of the digits only has to reach `n`. -/
theorem decodeFrom_digits (fuel n weight low : Nat) (rest : Text) (h : n ≤ fuel) :
    decodeFrom weight low ((digits fuel n).map digitChar ++ rest) =
      (decodeFrom 1 0 rest).map (unfold (low + weight * n) :: ·) := by
  induction fuel generalizing n weight low with
  | zero =>
    have : n = 0 := by omega
    subst this
    simp [digits, decodeFrom, digit?_digitChar]
    rfl
  | succ fuel ih =>
    rw [digits]
    split
    · rename_i small
      simp [decodeFrom, digit?_digitChar (show n < 64 by omega), small]
      rfl
    · rename_i large
      have value : low + weight * (n % 32) + weight * 32 * (n / 32) = low + weight * n := by
        rw [Nat.mul_assoc, Nat.add_assoc, ← Nat.mul_add, Nat.mod_add_div]
      have digit := digit?_digitChar (show n % 32 + 32 < 64 by omega)
      rw [List.map_cons, List.cons_append, decodeFrom, digit]
      simp only [show ¬ n % 32 + 32 < 32 by omega, if_false, Nat.add_sub_cancel]
      rw [ih (n / 32) _ _ (by omega), value]

theorem decodeSegment_encode (n : Int) (rest : Text) :
    decodeSegment (encode n ++ rest) = (decodeSegment rest).map (n :: ·) := by
  rw [decodeSegment, encode, decodeFrom_digits _ _ _ _ _ (Nat.le_refl _)]
  simp [decodeSegment]

/-! ## Runs of numbers -/

/-- **The numbers of a segment** come back in order. -/
theorem decodeSegment_flatMap_encode (ns : List Int) :
    decodeSegment (ns.flatMap encode) = .ok ns := by
  induction ns with
  | nil => rfl
  | cons n ns ih =>
    rw [List.flatMap_cons, decodeSegment_encode, ih]
    rfl

theorem encode_ne_nil (n : Int) : encode n ≠ [] := by
  have nonempty : ∀ fuel m, digits fuel m ≠ [] := by
    intro fuel m
    cases fuel with
    | zero => simp [digits]
    | succ fuel => rw [digits]; split <;> simp
  simp [encode, nonempty]

theorem mem_alphabet_of_mem_encode {c : CodePoint} {n : Int} (h : c ∈ encode n) :
    c ∈ alphabet := by
  obtain ⟨d, -, rfl⟩ := List.mem_map.mp h
  exact digitChar_mem d

end Componentry.SourceMap.Vlq
