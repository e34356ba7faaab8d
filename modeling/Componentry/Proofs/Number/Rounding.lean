import Componentry.Number.Shortest
import Mathlib.Algebra.Order.Field.Power
import Mathlib.Data.Rat.Cast.Order
import Mathlib.Tactic.FieldSimp
import Mathlib.Tactic.Linarith
import Mathlib.Tactic.NormNum
import Mathlib.Tactic.Positivity
import Mathlib.Tactic.Ring

/-!
# Rounding

A fraction is rounded by its value alone: the exponent that is chosen for it is the only one at which
its mantissa has 53 bits, and rounding a quotient does not see by what both of its parts were
multiplied. So a decimal is read by its value, however it is written, and a number in its canonical
form is read back from every decimal that equals it.
-/

namespace Componentry.Binary64

/-! ## Scaling -/

theorem scaled_pos {num den : Nat} (hd : 0 < den) (e : Int) : 0 < (scaled num den e).2 := by
  rw [scaled]
  split
  · exact hd
  · exact Nat.mul_pos hd (Nat.pow_pos (by decide))

/-- Scaling divides by the power of two. -/
theorem scaled_ratio (num den : Nat) (e : Int) :
    ((scaled num den e).1 : ℚ) / (scaled num den e).2 = num / den / 2 ^ e := by
  rw [scaled]
  split
  · next negative =>
    obtain ⟨k, rfl⟩ : ∃ k : Nat, e = -(k : Int) := ⟨e.natAbs, by omega⟩
    simp [zpow_neg, Int.natAbs_neg]
    ring
  · next negative =>
    obtain ⟨k, rfl⟩ : ∃ k : Nat, e = (k : Int) := ⟨e.natAbs, by omega⟩
    simp [div_div]

/-! ## The exponent -/

/-- The exponent `e` gives the value `v` a mantissa of 53 bits. -/
def FitsAt (v : ℚ) (e : Int) : Prop := (2 : ℚ) ^ (e + 52) ≤ v ∧ v < (2 : ℚ) ^ (e + 53)

theorem FitsAt.le {v : ℚ} {e f : Int} (he : FitsAt v e) (hf : FitsAt v f) : e ≤ f := by
  have between : (2 : ℚ) ^ (e + 52) < (2 : ℚ) ^ (f + 53) := lt_of_le_of_lt he.1 hf.2
  have := (zpow_lt_zpow_iff_right₀ (by norm_num : (1 : ℚ) < 2)).mp between
  omega

theorem FitsAt.unique {v : ℚ} {e f : Int} (he : FitsAt v e) (hf : FitsAt v f) : e = f :=
  Int.le_antisymm (he.le hf) (hf.le he)

/-- A natural number lies between the powers of two around its logarithm. -/
theorem log2_bounds {n : Nat} (h : 0 < n) :
    (2 : ℚ) ^ (n.log2 : Int) ≤ n ∧ (n : ℚ) < 2 ^ ((n.log2 : Int) + 1) := by
  have lower := Nat.log2_self_le (Nat.pos_iff_ne_zero.mp h)
  have upper := Nat.lt_log2_self (n := n)
  constructor
  · rw [zpow_natCast]
    exact_mod_cast lower
  · have : (2 : ℚ) ^ ((n.log2 : Int) + 1) = ((2 ^ (n.log2 + 1) : Nat) : ℚ) := by
      rw [← Nat.cast_succ, zpow_natCast]
      push_cast
      rfl
    rw [this]
    exact_mod_cast upper

/-- The guess from the logarithms is the exponent or one too large. -/
theorem guess_bounds {num den : Nat} (hn : 0 < num) (hd : 0 < den) :
    (2 : ℚ) ^ ((num.log2 : Int) - den.log2 - 1) < num / den ∧
      (num / den : ℚ) < 2 ^ ((num.log2 : Int) - den.log2 + 1) := by
  obtain ⟨nlow, nhigh⟩ := log2_bounds hn
  obtain ⟨dlow, dhigh⟩ := log2_bounds hd
  have two : (2 : ℚ) ≠ 0 := by norm_num
  have dpos : (0 : ℚ) < den := by exact_mod_cast hd
  have power (k : Int) : (0 : ℚ) < 2 ^ k := by positivity
  constructor
  · rw [lt_div_iff₀ dpos]
    calc (2 : ℚ) ^ ((num.log2 : Int) - den.log2 - 1) * den
        < 2 ^ ((num.log2 : Int) - den.log2 - 1) * 2 ^ ((den.log2 : Int) + 1) :=
          mul_lt_mul_of_pos_left dhigh (power _)
      _ = 2 ^ (num.log2 : Int) := by rw [← zpow_add₀ two]; congr 1; omega
      _ ≤ num := nlow
  · rw [div_lt_iff₀ dpos]
    calc (num : ℚ) < 2 ^ ((num.log2 : Int) + 1) := nhigh
      _ = 2 ^ ((num.log2 : Int) - den.log2 + 1) * 2 ^ (den.log2 : Int) := by
          rw [← zpow_add₀ two]; congr 1; omega
      _ ≤ 2 ^ ((num.log2 : Int) - den.log2 + 1) * den :=
          mul_le_mul_of_nonneg_left dlow (power _).le

/-- The exponent that is chosen, before the least one is taken into account. -/
def exponentOf (num den : Nat) : Int :=
  let guess : Int := (num.log2 : Int) - den.log2 - 52
  if (scaled num den guess).1 / (scaled num den guess).2 < Nat.pow 2 52 then guess - 1 else guess

theorem exponentFor_eq (num den : Nat) : exponentFor num den = max minExponent (exponentOf num den) :=
  rfl

theorem fitsAt_exponentOf {num den : Nat} (hn : 0 < num) (hd : 0 < den) :
    FitsAt (num / den) (exponentOf num den) := by
  obtain ⟨low, high⟩ := guess_bounds hn hd
  rw [exponentOf]
  set guess : Int := (num.log2 : Int) - den.log2 - 52 with hguess
  have two : (2 : ℚ) ≠ 0 := by norm_num
  have pos : (0 : ℚ) < (scaled num den guess).2 := by exact_mod_cast scaled_pos hd guess
  -- The test on the scaled quotient compares the value with `2 ^ (guess + 52)`.
  have test : (scaled num den guess).1 / (scaled num den guess).2 < Nat.pow 2 52 ↔
      (num / den : ℚ) < 2 ^ (guess + 52) := by
    rw [Nat.div_lt_iff_lt_mul (scaled_pos hd guess), zpow_add₀ two,
      ← div_lt_iff₀' (by positivity), ← scaled_ratio, div_lt_iff₀ pos]
    norm_cast
  split
  · next below =>
    refine ⟨?_, ?_⟩
    · rw [show guess - 1 + 52 = (num.log2 : Int) - den.log2 - 1 by omega]
      exact low.le
    · have := test.mp below
      rwa [show guess - 1 + 53 = guess + 52 by omega]
  · next above =>
    refine ⟨le_of_not_gt fun h => above (test.mpr h), ?_⟩
    rwa [show guess + 53 = (num.log2 : Int) - den.log2 + 1 by omega]

/-- Equal fractions have one exponent. -/
theorem exponentFor_congr {num den num' den' : Nat} (hn : 0 < num) (hd : 0 < den) (hn' : 0 < num')
    (hd' : 0 < den') (same : (num / den : ℚ) = num' / den') :
    exponentFor num den = exponentFor num' den' := by
  have fits := fitsAt_exponentOf hn hd
  rw [same] at fits
  rw [exponentFor_eq, exponentFor_eq, fits.unique (fitsAt_exponentOf hn' hd')]

/-! ## Rounding a quotient -/

theorem roundDiv_mul (n d : Nat) {c : Nat} (hc : 0 < c) : roundDiv (n * c) (d * c) = roundDiv n d := by
  have twice : 2 * (n % d * c) = 2 * (n % d) * c := by rw [Nat.mul_assoc]
  have above : d * c < 2 * (n % d) * c ↔ d < 2 * (n % d) := Nat.mul_lt_mul_right hc
  have half : 2 * (n % d) * c = d * c ↔ 2 * (n % d) = d := Nat.mul_left_inj (by omega)
  simp only [roundDiv, Nat.mul_div_mul_right _ _ hc, Nat.mul_mod_mul_right, twice, above, half]

/-- Equal fractions are rounded alike. -/
theorem roundDiv_congr {n d n' d' : Nat} (hd : 0 < d) (hd' : 0 < d')
    (same : (n / d : ℚ) = n' / d') : roundDiv n d = roundDiv n' d' := by
  have cross : n * d' = n' * d := by
    have hdq : (d : ℚ) ≠ 0 := by positivity
    have hdq' : (d' : ℚ) ≠ 0 := by positivity
    rw [div_eq_div_iff hdq hdq'] at same
    exact_mod_cast same
  rw [← roundDiv_mul n d hd', ← roundDiv_mul n' d' hd, cross, Nat.mul_comm d d']

/-- A quotient that is exact is not rounded. -/
theorem roundDiv_exact (m : Nat) {d : Nat} (hd : 0 < d) : roundDiv (m * d) d = m := by
  have : ¬ d < 2 * 0 ∧ ¬ (2 * 0 = d) := by omega
  simp [roundDiv, Nat.mul_div_cancel _ hd, Nat.mul_mod_left, Nat.ne_of_lt hd]

/-! ## Fractions -/

/-- Equal fractions are one number. -/
theorem ofRatio_congr {num den num' den' : Nat} (neg : Bool) (hn : 0 < num) (hd : 0 < den)
    (hn' : 0 < num') (hd' : 0 < den') (same : (num / den : ℚ) = num' / den') :
    ofRatio neg num den = ofRatio neg num' den' := by
  have exponent := exponentFor_congr hn hd hn' hd' same
  have mantissa := roundDiv_congr (scaled_pos hd (exponentFor num' den'))
    (scaled_pos hd' (exponentFor num' den'))
    (by rw [scaled_ratio, scaled_ratio, same])
  simp only [ofRatio, Nat.pos_iff_ne_zero.mp hn, Nat.pos_iff_ne_zero.mp hn', if_false, exponent,
    mantissa]

/-- A mantissa and an exponent in the form that rounding gives. -/
def Canonical (m : Nat) (e : Int) : Prop :=
  m < 2 ^ 53 ∧ minExponent ≤ e ∧ e ≤ maxExponent ∧ (2 ^ 52 ≤ m ∨ e = minExponent)

instance (m : Nat) (e : Int) : Decidable (Canonical m e) := by
  unfold Canonical
  infer_instance

/-- The exponent of a canonical number is the one that is chosen for its value. -/
theorem Canonical.exponentFor_eq {m num den : Nat} {e : Int} (h : Canonical m e)
    (hn : 0 < num) (hd : 0 < den) (value : (num / den : ℚ) = m * 2 ^ e) :
    exponentFor num den = e := by
  obtain ⟨upper, least, -, normal⟩ := h
  have two : (2 : ℚ) ≠ 0 := by norm_num
  have pos : (0 : ℚ) < 2 ^ e := by positivity
  have fits := fitsAt_exponentOf hn hd
  rw [value] at fits
  have below : (m : ℚ) * 2 ^ e < 2 ^ (e + 53) := by
    rw [zpow_add₀ two, mul_comm]
    exact mul_lt_mul_of_pos_left (by exact_mod_cast upper) pos
  rw [Binary64.exponentFor_eq]
  rcases normal with normal | rfl
  · have above : (2 : ℚ) ^ (e + 52) ≤ m * 2 ^ e := by
      rw [zpow_add₀ two, mul_comm]
      exact mul_le_mul_of_nonneg_right (by exact_mod_cast normal) pos.le
    rw [FitsAt.unique fits ⟨above, below⟩]
    exact Int.max_eq_right least
  · have between : (2 : ℚ) ^ (exponentOf num den + 52) < 2 ^ (minExponent + 53) :=
      lt_of_le_of_lt fits.1 below
    have := (zpow_lt_zpow_iff_right₀ (by norm_num : (1 : ℚ) < 2)).mp between
    exact Int.max_eq_left (by omega)

/-- A canonical number is what every fraction of its value is rounded to. -/
theorem Canonical.ofRatio_eq {m num den : Nat} {e : Int} (neg : Bool) (h : Canonical m e)
    (hn : 0 < num) (hd : 0 < den) (value : (num / den : ℚ) = m * 2 ^ e) :
    ofRatio neg num den = .finite neg m e := by
  have exponent := h.exponentFor_eq hn hd value
  have mantissa : roundDiv (scaled num den e).1 (scaled num den e).2 = m := by
    rw [← roundDiv_exact m (Nat.one_pos)]
    refine roundDiv_congr (scaled_pos hd e) Nat.one_pos ?_
    have pos : (2 : ℚ) ^ e ≠ 0 := by positivity
    rw [scaled_ratio, value, mul_div_assoc, div_self pos]
    simp
  obtain ⟨upper, -, greatest, -⟩ := h
  have small : m ≠ Nat.pow 2 53 := Nat.ne_of_lt upper
  simp only [ofRatio, Nat.pos_iff_ne_zero.mp hn, if_false, exponent, mantissa, small]
  rw [if_neg (by omega)]

/-! ## Decimals -/

/-- A number lies between the powers of ten around the count of its digits. -/
theorem digitCount_bounds {n : Nat} (h : 0 < n) :
    (10 : ℚ) ^ ((digitCount n : Int) - 1) ≤ n ∧ (n : ℚ) < 10 ^ (digitCount n : Int) := by
  have pos : 0 < digitCount n := Nat.length_toDigits_pos
  have upper : n < 10 ^ digitCount n :=
    (Nat.length_toDigits_le_iff (by decide) pos).mp (Nat.le_refl _)
  have lower : 10 ^ (digitCount n - 1) ≤ n := by
    rcases Nat.eq_or_lt_of_le (Nat.succ_le_of_lt pos) with one | more
    · rw [show digitCount n - 1 = 0 by omega]
      exact h
    · by_contra below
      have := (Nat.length_toDigits_le_iff (by decide) (by omega)).mpr (not_le.mp below)
      have : digitCount n ≤ digitCount n - 1 := this
      omega
  constructor
  · rw [show (digitCount n : Int) - 1 = ((digitCount n - 1 : Nat) : Int) by omega, zpow_natCast]
    exact_mod_cast lower
  · rw [zpow_natCast]
    exact_mod_cast upper

/-- Where the decimal point of a decimal stands is a matter of its value. -/
theorem magnitude_bounds {n : Nat} (h : 0 < n) (p : Int) :
    (10 : ℚ) ^ ((digitCount n : Int) + p - 1) ≤ n * 10 ^ p ∧
      (n : ℚ) * 10 ^ p < 10 ^ ((digitCount n : Int) + p) := by
  obtain ⟨lower, upper⟩ := digitCount_bounds h
  have ten : (10 : ℚ) ≠ 0 := by norm_num
  have pos : (0 : ℚ) < 10 ^ p := by positivity
  constructor
  · rw [show (digitCount n : Int) + p - 1 = (digitCount n : Int) - 1 + p by omega, zpow_add₀ ten]
    exact mul_le_mul_of_nonneg_right lower pos.le
  · rw [zpow_add₀ ten]
    exact mul_lt_mul_of_pos_right upper pos

theorem magnitude_congr {n n' : Nat} {p p' : Int} (hn : 0 < n) (hn' : 0 < n')
    (same : (n : ℚ) * 10 ^ p = n' * 10 ^ p') :
    (digitCount n : Int) + p = digitCount n' + p' := by
  obtain ⟨lower, upper⟩ := magnitude_bounds hn p
  obtain ⟨lower', upper'⟩ := magnitude_bounds hn' p'
  have one : (1 : ℚ) < 10 := by norm_num
  rw [same] at lower upper
  have := (zpow_lt_zpow_iff_right₀ one).mp (lt_of_le_of_lt lower upper')
  have := (zpow_lt_zpow_iff_right₀ one).mp (lt_of_le_of_lt lower' upper)
  omega

/-- A decimal that is neither zero nor far out of range is rounded as a fraction of its value. -/
theorem exists_ofDecimal_eq {n : Nat} (neg : Bool) (p : Int) (hn : 0 < n)
    (range : -330 ≤ (digitCount n : Int) + p ∧ (digitCount n : Int) + p ≤ 320) :
    ∃ num den : Nat, 0 < num ∧ 0 < den ∧ (num / den : ℚ) = n * 10 ^ p ∧
      ofDecimal neg n p = ofRatio neg num den := by
  rcases lt_or_ge p 0 with negative | positive
  · refine ⟨n, Nat.pow 10 p.natAbs, hn, Nat.pow_pos (by decide), ?_, ?_⟩
    · obtain ⟨k, rfl⟩ : ∃ k : Nat, p = -(k : Int) := ⟨p.natAbs, by omega⟩
      simp [zpow_neg, Int.natAbs_neg, div_eq_mul_inv]
    · rw [ofDecimal, if_neg (by omega), if_neg (by omega), if_pos negative]
  · refine ⟨n * Nat.pow 10 p.natAbs, 1, Nat.mul_pos hn (Nat.pow_pos (by decide)), Nat.one_pos, ?_, ?_⟩
    · obtain ⟨k, rfl⟩ : ∃ k : Nat, p = (k : Int) := ⟨p.natAbs, by omega⟩
      simp
    · rw [ofDecimal, if_neg (by omega), if_neg (by omega), if_neg (by omega)]

/-- **Decimals are read by their value.** -/
theorem ofDecimal_congr {n n' : Nat} {p p' : Int} (neg : Bool) (hn : 0 < n) (hn' : 0 < n')
    (same : (n : ℚ) * 10 ^ p = n' * 10 ^ p') : ofDecimal neg n p = ofDecimal neg n' p' := by
  have magnitude := magnitude_congr hn hn' same
  by_cases range : -330 ≤ (digitCount n : Int) + p ∧ (digitCount n : Int) + p ≤ 320
  · obtain ⟨num, den, hnum, hden, value, eq⟩ := exists_ofDecimal_eq neg p hn range
    rw [magnitude] at range
    obtain ⟨num', den', hnum', hden', value', eq'⟩ := exists_ofDecimal_eq neg p' hn' range
    rw [eq, eq']
    exact ofRatio_congr neg hnum hden hnum' hden' (by rw [value, value', same])
  · have ne : ¬ n = 0 ∧ ¬ n' = 0 := by omega
    simp only [ofDecimal, ne.1, ne.2, false_or, magnitude] at range ⊢
    split
    · rfl
    · next near =>
      have far : 320 < (digitCount n' : Int) + p' := by omega
      simp only [if_pos far]

/-- A decimal that equals a canonical number is read as it. -/
theorem Canonical.ofDecimal_eq {m n : Nat} {e p : Int} (neg : Bool) (h : Canonical m e) (hm : 0 < m)
    (value : (n : ℚ) * 10 ^ p = m * 2 ^ e) : ofDecimal neg n p = .finite neg m e := by
  have mpos : (0 : ℚ) < m := by exact_mod_cast hm
  have hn : 0 < n := by
    rcases Nat.eq_zero_or_pos n with rfl | pos
    · have : (0 : ℚ) < m * 2 ^ e := by positivity
      rw [← value] at this
      simp at this
    · exact pos
  obtain ⟨lower, upper⟩ := magnitude_bounds hn p
  rw [value] at lower upper
  have one : (1 : ℚ) < 10 := by norm_num
  have least : (10 : ℚ) ^ (-324 : Int) < m * 2 ^ e := by
    calc (10 : ℚ) ^ (-324 : Int) < 2 ^ minExponent := by
          have powers : (2 : Nat) ^ 1074 < 10 ^ 324 := by decide +kernel
          have : (2 : ℚ) ^ 1074 < 10 ^ 324 := by exact_mod_cast powers
          exact inv_strictAnti₀ (by positivity) this
      _ ≤ 2 ^ e := zpow_le_zpow_right₀ (by norm_num) h.2.1
      _ ≤ m * 2 ^ e := le_mul_of_one_le_left (by positivity) (by exact_mod_cast hm)
  have greatest : (m : ℚ) * 2 ^ e < 10 ^ (309 : Int) := by
    calc (m : ℚ) * 2 ^ e < 2 ^ 53 * 2 ^ e :=
          mul_lt_mul_of_pos_right (by exact_mod_cast h.1) (by positivity)
      _ ≤ 2 ^ 53 * 2 ^ maxExponent :=
          mul_le_mul_of_nonneg_left (zpow_le_zpow_right₀ (by norm_num) h.2.2.1) (by positivity)
      _ < 10 ^ (309 : Int) := by
          have powers : (2 : Nat) ^ 53 * 2 ^ 971 < 10 ^ 309 := by decide +kernel
          have : ((2 ^ 53 * 2 ^ 971 : Nat) : ℚ) < ((10 ^ 309 : Nat) : ℚ) := Nat.cast_lt.mpr powers
          simp only [Nat.cast_mul, Nat.cast_pow, Nat.cast_ofNat] at this
          exact this
  have := (zpow_lt_zpow_iff_right₀ one).mp (lt_trans least upper)
  have := (zpow_lt_zpow_iff_right₀ one).mp (lt_of_le_of_lt lower greatest)
  obtain ⟨num, den, hnum, hden, ratio, eq⟩ := exists_ofDecimal_eq neg p hn (by omega)
  rw [eq]
  exact h.ofRatio_eq neg hnum hden (by rw [ratio, value])

/-- The sign of what is read plays no part in rounding. -/
theorem ofRatio_of_false {num den m : Nat} {e : Int} (neg : Bool)
    (h : ofRatio false num den = .finite false m e) : ofRatio neg num den = .finite neg m e := by
  simp only [ofRatio, zero] at h ⊢
  split_ifs at h ⊢ <;> simpa using h

theorem ofDecimal_of_false {n m : Nat} {p e : Int} (neg : Bool)
    (h : ofDecimal false n p = .finite false m e) : ofDecimal neg n p = .finite neg m e := by
  simp only [ofDecimal] at h ⊢
  split_ifs at h ⊢ with small large
  · simpa [zero] using h
  · exact ofRatio_of_false neg h
  · exact ofRatio_of_false neg h

end Componentry.Binary64
