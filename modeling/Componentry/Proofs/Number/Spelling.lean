import Componentry.Proofs.Number.Digits
import Componentry.Proofs.Number.Rounding

/-!
# Numerals read back

The shortest decimal of a number is read as that number, and so is every way to spell it out. An
integer is read back unless it has too many digits.
-/

namespace Componentry

open Json

/-! ## The shortest decimal -/

namespace Binary64

/-- The grids are searched for decimals that are read as the number. -/
theorem ofDecimal_of_onGrid? {m : Nat} {e : Int} {count : Nat} {d : Decimal}
    (h : onGrid? m e count = some d) : ofDecimal false d.digits d.power = .finite false m e := by
  simp only [onGrid?] at h
  generalize pointPosition (ratio m e).1 (ratio m e).2 - (count : Int) = power at h
  generalize (if power < 0 then _ else _ : Nat × Nat) = parts at h
  split_ifs at h with both near low high
  · rw [Bool.and_eq_true, beq_iff_eq, beq_iff_eq] at both
    cases h
    exact both.1
  · rw [Bool.and_eq_true, beq_iff_eq, beq_iff_eq] at both
    cases h
    exact both.2
  · cases h
    exact beq_iff_eq.mp low
  · cases h
    exact beq_iff_eq.mp high

/-- The decimal that is written out in full equals the number. -/
theorem exact_value (m : Nat) (e : Int) :
    ((exact m e).digits : ℚ) * 10 ^ (exact m e).power = m * 2 ^ e := by
  rw [exact]
  split
  · next negative =>
    obtain ⟨k, rfl⟩ : ∃ k : Nat, e = -(k : Int) := ⟨e.natAbs, by omega⟩
    have ten : (10 : ℚ) ^ k = 5 ^ k * 2 ^ k := by rw [← mul_pow]; norm_num
    have pos : (5 : ℚ) ^ k ≠ 0 := by positivity
    simp only [Int.natAbs_neg, Int.natAbs_natCast, zpow_neg, zpow_natCast, ten, Nat.cast_mul,
      Nat.pow_eq, Nat.cast_pow, Nat.cast_ofNat]
    field_simp
  · next positive =>
    obtain ⟨k, rfl⟩ : ∃ k : Nat, e = (k : Int) := ⟨e.natAbs, by omega⟩
    simp

theorem ofDecimal_shortestFrom {m : Nat} {e : Int} (h : Canonical m e) (hm : 0 < m)
    (fuel count : Nat) :
    ofDecimal false (shortestFrom m e fuel count).digits (shortestFrom m e fuel count).power =
      .finite false m e := by
  induction fuel generalizing count with
  | zero => exact h.ofDecimal_eq false hm (exact_value m e)
  | succ fuel ih =>
    rw [shortestFrom]
    cases found : onGrid? m e count with
    | some d => exact ofDecimal_of_onGrid? found
    | none => exact ih (count + 1)

/-- The shortest decimal of a number is read as the number. -/
theorem ofDecimal_shortest {m : Nat} {e : Int} (h : Canonical m e) (hm : 0 < m) :
    ofDecimal false (shortest m e).digits (shortest m e).power = .finite false m e :=
  ofDecimal_shortestFrom h hm 17 1

/-- The shortest decimal of a number other than zero is not zero. -/
theorem digits_shortest_pos {m : Nat} {e : Int} (h : Canonical m e) (hm : 0 < m) :
    0 < (shortest m e).digits := by
  have read := ofDecimal_shortest h hm
  rcases Nat.eq_zero_or_pos (shortest m e).digits with none | pos
  · rw [none, ofDecimal, if_pos (.inl rfl), zero] at read
    simp only [finite.injEq] at read
    omega
  · exact pos

end Binary64

/-! ## Spelling a decimal out -/

/-- A numeral that is no integer: digits before the point, digits after it, and the sign and the
digits of its exponent. -/
structure Spelling where
  whole : Text
  fraction : Text := []
  power : Option (Bool × Text) := none

namespace Spelling

/-- The point and the digits after it, if there are any. -/
def fractionText (s : Spelling) : Text :=
  if s.fraction = [] then [] else .char '.' :: s.fraction

/-- The exponent, if there is one. -/
def powerText (s : Spelling) : Text :=
  match s.power with
  | none => []
  | some (negative, ds) => .char 'e' :: (if negative then .char '-' else .char '+') :: ds

/-- The numeral. -/
def text (s : Spelling) : Text := s.whole ++ (s.fractionText ++ s.powerText)

/-- All digits in a row. -/
def digits (s : Spelling) : Nat := digitsValue (s.whole ++ s.fraction)

/-- The number that the exponent stands for. -/
def powerValue (s : Spelling) : Int :=
  match s.power with
  | none => 0
  | some (negative, ds) => (if negative then -1 else 1) * (digitsValue ds : Int)

/-- The power of ten that the digits are multiplied by. -/
def scale (s : Spelling) : Int := s.powerValue - s.fraction.length

/-- The digits are digits, no zero comes first unless it is alone, and a point or an exponent tells
the numeral from an integer. -/
structure WellFormed (s : Spelling) : Prop where
  whole : s.whole.Digits
  whole_ne : s.whole ≠ []
  first : s.whole = [.char '0'] ∨ s.whole.head? ≠ some (.char '0')
  fraction : s.fraction.Digits
  power : ∀ p ∈ s.power, p.2.Digits ∧ p.2 ≠ []
  noInteger : s.fraction ≠ [] ∨ s.power.isSome

end Spelling

/-- Digits do not start with a sign. -/
theorem Text.Digits.head?_ne {ds s : Text} (digits : ds.Digits) (ne : ds ≠ []) :
    (ds ++ s).head? ≠ some (.char '-') := by
  obtain ⟨c, cs, rfl⟩ := List.exists_cons_of_ne_nil ne
  intro h
  have digit := digits c (List.mem_cons_self ..)
  rw [show c = .char '-' by simpa using h] at digit
  cases digit

/-- A text that goes on with nothing that may belong to a number. -/
def Text.EndsNumber (s : Text) : Prop :=
  ∀ c ∈ s.head?, c.isDigit = false ∧ c ≠ .char '.' ∧ c ≠ .char 'e' ∧ c ≠ .char 'E'

theorem Text.EndsNumber.endsDigits {s : Text} (h : s.EndsNumber) : s.EndsDigits :=
  fun c hc => (h c hc).1

namespace Json

theorem readWhole_append {whole rest : Text} (digits : whole.Digits) (ne : whole ≠ [])
    (first : whole = [.char '0'] ∨ whole.head? ≠ some (.char '0')) (ends : rest.EndsDigits) :
    readWhole (whole ++ rest) = some (whole, rest) := by
  rcases first with rfl | first
  · rfl
  · have take := Text.takeWhile_digits digits ends
    have drop := Text.dropWhile_digits digits ends
    obtain ⟨c, cs, rfl⟩ := List.exists_cons_of_ne_nil ne
    have noZero : c ≠ .char '0' := by simpa using first
    rw [List.cons_append] at take drop ⊢
    rw [readWhole, take, drop]
    exact fun r h => noZero (List.cons.inj h).1

theorem readFraction_append {fraction rest : Text} (digits : fraction.Digits) (ne : fraction ≠ [])
    (ends : rest.EndsDigits) :
    readFraction (.char '.' :: (fraction ++ rest)) = (fraction, rest) := by
  obtain ⟨c, cs, rfl⟩ := List.exists_cons_of_ne_nil ne
  simp only [readFraction, Text.takeWhile_digits digits ends, Text.dropWhile_digits digits ends]

theorem readFraction_none {rest : Text} (h : ∀ c ∈ rest.head?, c ≠ .char '.') :
    readFraction rest = ([], rest) := by
  rw [readFraction.eq_def]
  split
  · exact absurd rfl (h _ rfl)
  · rfl

theorem readExponent_append {negative : Bool} {ds rest : Text} (digits : ds.Digits) (ne : ds ≠ [])
    (ends : rest.EndsDigits) :
    readExponent (.char 'e' :: (if negative then .char '-' else .char '+') :: (ds ++ rest)) =
      (some ((if negative then -1 else 1) * (digitsValue ds : Int)), rest) := by
  have take := Text.takeWhile_digits digits ends
  have drop := Text.dropWhile_digits digits ends
  obtain ⟨c, cs, rfl⟩ := List.exists_cons_of_ne_nil ne
  cases negative
  · simp only [Bool.false_eq_true, if_false, readExponent, take, drop]
  · simp only [if_true, readExponent, take, drop]

theorem readExponent_none {rest : Text} (h : ∀ c ∈ rest.head?, c ≠ .char 'e' ∧ c ≠ .char 'E') :
    readExponent rest = (none, rest) := by
  rw [readExponent.eq_def]
  dsimp only
  split
  · exact absurd rfl (h _ rfl).1
  · exact absurd rfl (h _ rfl).2
  · rfl

/-- The sign of a number, if it is negative. -/
def signText (negative : Bool) : Text := if negative then [.char '-'] else []

/-- A number is put together from what its parts are read as. -/
theorem readNumber_eq {body whole fraction r₁ r₂ r₃ : Text} {negative : Bool} {power : Option Int}
    (hbody : body.head? ≠ some (.char '-'))
    (hwhole : readWhole body = some (whole, r₁)) (hfraction : readFraction r₁ = (fraction, r₂))
    (hpower : readExponent r₂ = (power, r₃)) :
    readNumber (signText negative ++ body) =
      if fraction.isEmpty && power.isNone then
        if maxDigits < whole.length then
          .error (.tooManyDigits whole.length, (signText negative ++ body).length)
        else .ok (.int (if negative then -(digitsValue whole : Int) else digitsValue whole), r₃)
      else .ok (.float (.ofDecimal negative (digitsValue (whole ++ fraction))
        (power.getD 0 - fraction.length)), r₃) := by
  unfold readNumber
  split
  next negative' body' sign =>
  have parts : negative' = negative ∧ body' = body := by
    cases negative with
    | true =>
      have : (true, body) = (negative', body') := sign
      simpa [eq_comm] using this
    | false =>
      split at sign
      · next r h => exact absurd (congrArg List.head? h) hbody
      · simpa [signText, eq_comm] using sign
  obtain ⟨rfl, rfl⟩ := parts
  simp only [hwhole, hfraction, hpower]

end Json

namespace Spelling

section

variable (s : Spelling) {rest : Text} (ends : rest.EndsNumber)
include ends

/-- What follows the digits is neither a digit nor a point. -/
theorem head?_powerText : ∀ c ∈ (s.powerText ++ rest).head?, c.isDigit = false ∧ c ≠ .char '.' := by
  intro c hc
  rw [powerText] at hc
  split at hc
  · exact ⟨(ends c hc).1, (ends c hc).2.1⟩
  · cases hc
    decide

theorem endsDigits_powerText : (s.powerText ++ rest).EndsDigits :=
  fun c hc => (s.head?_powerText ends c hc).1

theorem endsDigits_fractionText : (s.fractionText ++ (s.powerText ++ rest)).EndsDigits := by
  rw [fractionText]
  split
  · exact s.endsDigits_powerText ends
  · intro c hc
    cases hc
    rfl

end

namespace WellFormed

variable {s : Spelling} (wf : s.WellFormed) {rest : Text} (ends : rest.EndsNumber)
include wf ends

theorem readFraction_text :
    readFraction (s.fractionText ++ (s.powerText ++ rest)) = (s.fraction, s.powerText ++ rest) := by
  rw [fractionText]
  split
  · next none =>
    rw [none]
    exact readFraction_none fun c hc => (s.head?_powerText ends c hc).2
  · next some => exact readFraction_append wf.fraction some (s.endsDigits_powerText ends)

theorem readExponent_text :
    readExponent (s.powerText ++ rest) = (s.power.map fun _ => s.powerValue, rest) := by
  rw [powerText, powerValue]
  split
  · next none =>
    rw [none]
    exact readExponent_none fun c hc => (ends c hc).2.2
  · next negative ds some =>
    obtain ⟨digits, ne⟩ := wf.power _ some
    simp only [some, Option.map_some, List.cons_append]
    exact readExponent_append digits ne ends.endsDigits

/-- A numeral is read by its digits and its scale. -/
theorem readNumber_text (negative : Bool) :
    readNumber (signText negative ++ (s.text ++ rest)) =
      .ok (.float (.ofDecimal negative s.digits s.scale), rest) := by
  have whole := readWhole_append wf.whole wf.whole_ne wf.first (s.endsDigits_fractionText ends)
  have apart : (s.fraction.isEmpty && (s.power.map fun _ => s.powerValue).isNone) = false := by
    rcases wf.noInteger with some | some
    · simp [some]
    · simp [some]
  have power : (s.power.map fun _ => s.powerValue).getD 0 = s.powerValue := by
    rw [powerValue]
    cases s.power <;> rfl
  have noSign : (s.whole ++ (s.fractionText ++ (s.powerText ++ rest))).head? ≠ some (.char '-') :=
    wf.whole.head?_ne wf.whole_ne
  rw [text, List.append_assoc, List.append_assoc, readNumber_eq noSign whole
    (wf.readFraction_text ends) (wf.readExponent_text ends), apart, if_neg Bool.false_ne_true, power]
  rfl

end WellFormed

/-- The value of the numeral. -/
def value (s : Spelling) : ℚ := s.digits * 10 ^ s.scale

end Spelling

/-! ## The spelling of a decimal -/

namespace Binary64

/-- The digits without trailing zeros, with the zeros put back. -/
theorem significant_append (n : Nat) :
    (significant n).1 ++ Text.zeros (significant n).2 = Text.ofNat n := by
  simp only [significant]
  set kept := (Text.ofNat n).reverse.dropWhile fun (c : CodePoint) => c == .char '0' with hkept
  set dropped := (Text.ofNat n).reverse.takeWhile fun (c : CodePoint) => c == .char '0' with hdropped
  have parts : dropped ++ kept = (Text.ofNat n).reverse := List.takeWhile_append_dropWhile
  have zeros : dropped = Text.zeros dropped.length := by
    refine List.eq_replicate_iff.mpr ⟨rfl, fun c hc => ?_⟩
    simpa using List.all_eq_true.mp List.all_takeWhile c hc
  have count : (Text.ofNat n).length - kept.length = dropped.length := by
    rw [← List.length_reverse, ← parts, List.length_append]
    omega
  rw [count]
  calc kept.reverse ++ Text.zeros dropped.length
      = kept.reverse ++ dropped.reverse := by
        conv_rhs => rw [zeros]
        simp [Text.zeros]
    _ = Text.ofNat n := by rw [← List.reverse_append, parts, List.reverse_reverse]

variable {n : Nat}

theorem digits_significant : (significant n).1.Digits := by
  intro c hc
  refine Text.digits_ofNat n c ?_
  rw [← significant_append n]
  exact List.mem_append_left _ hc

theorem digitsValue_significant :
    digitsValue (significant n).1 * 10 ^ (significant n).2 = n := by
  have whole := congrArg digitsValue (significant_append n)
  rwa [digitsValue_append, digitsValue_zeros, Text.digitsValue_ofNat, Text.zeros,
    List.length_replicate, Nat.add_zero] at whole

theorem significant_ne_nil (h : 0 < n) : (significant n).1 ≠ [] := by
  intro none
  have value := digitsValue_significant (n := n)
  rw [none] at value
  simp only [digitsValue, List.foldl_nil, Nat.zero_mul] at value
  omega

theorem head?_significant (h : 0 < n) : (significant n).1.head? ≠ some (.char '0') := by
  have first := Text.head?_ofNat h
  rw [← significant_append n] at first
  obtain ⟨c, cs, eq⟩ := List.exists_cons_of_ne_nil (significant_ne_nil h)
  rw [eq] at first ⊢
  simpa using first

/-- Where the point of a decimal stands, counted from its first digit. -/
def Decimal.point (d : Decimal) : Int :=
  (significant d.digits).1.length + d.power + (significant d.digits).2

/-- A decimal by its significant digits and its point. -/
theorem Decimal.value_eq (d : Decimal) :
    (d.digits : ℚ) * 10 ^ d.power = digitsValue (significant d.digits).1 *
      10 ^ (d.point - (significant d.digits).1.length) := by
  have ten : (10 : ℚ) ≠ 0 := by norm_num
  have scale : d.point - (significant d.digits).1.length = (significant d.digits).2 + d.power := by
    rw [point]
    omega
  have digits : (d.digits : ℚ) = digitsValue (significant d.digits).1 *
      10 ^ (significant d.digits).2 := by
    exact_mod_cast (digitsValue_significant (n := d.digits)).symm
  conv_lhs => rw [digits]
  rw [scale, zpow_add₀ ten, zpow_natCast, mul_assoc]

section

variable (ds : Text)

/-- A decimal spelled positionally, with the point before all its digits. -/
def pointFirst (zeros : Nat) : Spelling := ⟨[.char '0'], Text.zeros zeros ++ ds, none⟩

/-- A decimal spelled positionally, with the point behind all its digits. -/
def pointLast (zeros : Nat) : Spelling := ⟨ds ++ Text.zeros zeros, [.char '0'], none⟩

/-- A decimal spelled positionally, with the point among its digits. -/
def pointAmong (point : Nat) : Spelling := ⟨ds.take point, ds.drop point, none⟩

/-- The digits of an exponent, at least two of them. -/
def exponentDigits (n : Nat) : Text :=
  if (Text.ofNat n).length < 2 then .char '0' :: Text.ofNat n else Text.ofNat n

/-- A decimal spelled with an exponent. -/
def scientific (e : Int) : Spelling :=
  ⟨ds.take 1, ds.drop 1, some (decide (e < 0), exponentDigits e.natAbs)⟩

end

/-- The spelling of a decimal. -/
def spelling (d : Decimal) : Spelling :=
  let ds := (significant d.digits).1
  if -4 < d.point ∧ d.point ≤ 16 then
    if d.point ≤ 0 then pointFirst ds d.point.natAbs
    else if ds.length ≤ d.point.natAbs then pointLast ds (d.point.natAbs - ds.length)
    else pointAmong ds d.point.natAbs
  else scientific ds (d.point - 1)

theorem decimalText_eq {d : Decimal} (h : 0 < d.digits) : decimalText d = (spelling d).text := by
  have ne := significant_ne_nil h
  simp only [decimalText, spelling]
  rw [← Decimal.point]
  split_ifs with positional first last single negative negative
  · simp [pointFirst, Spelling.text, Spelling.fractionText, Spelling.powerText, Text.ofString, ne]
  · simp [pointLast, Spelling.text, Spelling.fractionText, Spelling.powerText, Text.ofString]
  · have rest : (significant d.digits).1.drop d.point.natAbs ≠ [] := by
      rw [Ne, List.drop_eq_nil_iff]
      omega
    simp [pointAmong, Spelling.text, Spelling.fractionText, Spelling.powerText, Text.ofString, rest]
  all_goals
    simp only [scientific, exponentDigits, Spelling.text, Spelling.fractionText, Spelling.powerText,
      single, negative, if_true, if_false, decide_true, decide_false, Bool.false_eq_true]
    cases (significant d.digits).1.drop 1 <;> simp [Text.ofString]

section

variable {ds : Text}

theorem digits_zero : Text.Digits [.char '0'] := by
  intro c hc
  rw [List.mem_singleton.mp hc]
  rfl

theorem digits_exponentDigits (n : Nat) : (exponentDigits n).Digits ∧ exponentDigits n ≠ [] := by
  rw [exponentDigits]
  split
  · exact ⟨digits_zero.append (Text.digits_ofNat n), by simp⟩
  · exact ⟨Text.digits_ofNat n, Text.ofNat_ne_nil n⟩

theorem digitsValue_exponentDigits (n : Nat) : digitsValue (exponentDigits n) = n := by
  rw [exponentDigits]
  split
  · rw [← List.singleton_append, digitsValue_append, digitsValue_zero, Text.digitsValue_ofNat]
    simp
  · exact Text.digitsValue_ofNat n

/-- The digits up to a place are digits that start as before. -/
theorem digits_take (digits : ds.Digits) (ne : ds ≠ []) (first : ds.head? ≠ some (.char '0'))
    {k : Nat} (hk : 0 < k) :
    Text.Digits (ds.take k) ∧ ds.take k ≠ [] ∧ (ds.take k).head? ≠ some (.char '0') := by
  obtain ⟨c, cs, rfl⟩ := List.exists_cons_of_ne_nil ne
  obtain ⟨j, rfl⟩ : ∃ j, k = j + 1 := ⟨k - 1, by omega⟩
  exact ⟨fun c hc => digits c (List.mem_of_mem_take hc), by simp, by simpa using first⟩

theorem digits_drop (digits : ds.Digits) (k : Nat) : Text.Digits (ds.drop k) :=
  fun c hc => digits c (List.mem_of_mem_drop hc)

theorem wellFormed_pointFirst (digits : ds.Digits) (ne : ds ≠ []) (zeros : Nat) :
    (pointFirst ds zeros).WellFormed where
  whole := digits_zero
  whole_ne := by simp [pointFirst]
  first := .inl rfl
  fraction := (Text.digits_zeros zeros).append digits
  power := by simp [pointFirst]
  noInteger := .inl (by simp [pointFirst, ne])

theorem wellFormed_pointLast (digits : ds.Digits) (ne : ds ≠ [])
    (first : ds.head? ≠ some (.char '0')) (zeros : Nat) : (pointLast ds zeros).WellFormed where
  whole := digits.append (Text.digits_zeros zeros)
  whole_ne := by simp [pointLast, ne]
  first := by
    obtain ⟨c, cs, rfl⟩ := List.exists_cons_of_ne_nil ne
    exact .inr (by simpa [pointLast] using first)
  fraction := digits_zero
  power := by simp [pointLast]
  noInteger := .inl (by simp [pointLast])

theorem wellFormed_pointAmong (digits : ds.Digits) (ne : ds ≠ [])
    (first : ds.head? ≠ some (.char '0')) {point : Nat} (low : 0 < point) (high : point < ds.length) :
    (pointAmong ds point).WellFormed where
  whole := (digits_take digits ne first low).1
  whole_ne := (digits_take digits ne first low).2.1
  first := .inr (digits_take digits ne first low).2.2
  fraction := digits_drop digits point
  power := by simp [pointAmong]
  noInteger := .inl (by simp only [pointAmong, Ne, List.drop_eq_nil_iff]; omega)

theorem wellFormed_scientific (digits : ds.Digits) (ne : ds ≠ [])
    (first : ds.head? ≠ some (.char '0')) (e : Int) : (scientific ds e).WellFormed where
  whole := (digits_take digits ne first Nat.one_pos).1
  whole_ne := (digits_take digits ne first Nat.one_pos).2.1
  first := .inr (digits_take digits ne first Nat.one_pos).2.2
  fraction := digits_drop digits 1
  power := by
    rintro p hp
    cases hp
    exact digits_exponentDigits e.natAbs
  noInteger := .inr rfl

theorem value_pointFirst (ds : Text) (zeros : Nat) :
    (pointFirst ds zeros).value = digitsValue ds * 10 ^ (-(zeros : Int) - ds.length) := by
  have digits : (pointFirst ds zeros).digits = digitsValue ds := by
    rw [pointFirst, Spelling.digits, digitsValue_append, digitsValue_append, digitsValue_zeros,
      digitsValue_zero]
    simp
  have scale : (pointFirst ds zeros).scale = -(zeros : Int) - ds.length := by
    simp only [pointFirst, Spelling.scale, Spelling.powerValue, List.length_append, Text.zeros,
      List.length_replicate]
    omega
  rw [Spelling.value, digits, scale]

theorem value_pointLast (ds : Text) (zeros : Nat) :
    (pointLast ds zeros).value = digitsValue ds * 10 ^ (zeros : Int) := by
  have digits : (pointLast ds zeros).digits = digitsValue ds * 10 ^ zeros * 10 := by
    rw [pointLast, Spelling.digits, digitsValue_append, digitsValue_append, digitsValue_zeros,
      Text.zeros, List.length_replicate, digitsValue_zero]
    simp
  have scale : (pointLast ds zeros).scale = -1 := rfl
  rw [Spelling.value, digits, scale, zpow_natCast]
  push_cast
  rw [mul_assoc (_ * _)]
  norm_num

theorem value_pointAmong {ds : Text} {point : Nat} (high : point ≤ ds.length) :
    (pointAmong ds point).value = digitsValue ds * 10 ^ ((point : Int) - ds.length) := by
  have scale : (pointAmong ds point).scale = (point : Int) - ds.length := by
    simp only [pointAmong, Spelling.scale, Spelling.powerValue, List.length_drop]
    omega
  rw [Spelling.value, Spelling.digits, scale, pointAmong, List.take_append_drop]

theorem value_scientific {ds : Text} (ne : ds ≠ []) (e : Int) :
    (scientific ds e).value = digitsValue ds * 10 ^ (e + 1 - ds.length) := by
  have pos : 0 < ds.length := List.length_pos_of_ne_nil ne
  have power : (scientific ds e).powerValue = e := by
    simp only [scientific, Spelling.powerValue, digitsValue_exponentDigits]
    by_cases negative : e < 0
    · simp only [negative, decide_true, if_true]
      omega
    · simp only [negative, decide_false, Bool.false_eq_true, if_false]
      omega
  have scale : (scientific ds e).scale = e + 1 - ds.length := by
    rw [Spelling.scale, power]
    simp only [scientific, List.length_drop]
    omega
  rw [Spelling.value, Spelling.digits, scale, scientific, List.take_append_drop]

end

/-- The spelling of a decimal is a numeral. -/
theorem wellFormed_spelling {d : Decimal} (h : 0 < d.digits) : (spelling d).WellFormed := by
  have ne := significant_ne_nil h
  have first := head?_significant h
  have digits := digits_significant (n := d.digits)
  simp only [spelling]
  split_ifs with positional before last
  · exact wellFormed_pointFirst digits ne _
  · exact wellFormed_pointLast digits ne first _
  · exact wellFormed_pointAmong digits ne first (by omega) (by omega)
  · exact wellFormed_scientific digits ne first _

/-- The spelling of a decimal has its value. -/
theorem value_spelling {d : Decimal} (h : 0 < d.digits) :
    (spelling d).value = d.digits * 10 ^ d.power := by
  have ne := significant_ne_nil h
  rw [d.value_eq]
  simp only [spelling]
  split_ifs with positional before last
  · rw [value_pointFirst]
    congr 2
    omega
  · rw [value_pointLast]
    congr 2
    omega
  · rw [value_pointAmong (by omega)]
    congr 2
    omega
  · rw [value_scientific ne]
    congr 2
    omega

end Binary64

/-! ## Numbers read back -/

namespace Json

/-- A floating point number is read back. -/
theorem readNumber_text {m : Nat} {e : Int} (negative : Bool) (h : Binary64.Canonical m e)
    {rest : Text} (ends : rest.EndsNumber) :
    readNumber ((Binary64.finite negative m e).text ++ rest) =
      .ok (.float (.finite negative m e), rest) := by
  have signed (size : Text) : (if negative then .char '-' :: size else size) ++ rest =
      signText negative ++ (size ++ rest) := by
    cases negative <;> rfl
  simp only [Binary64.text]
  rw [signed]
  rcases Nat.eq_zero_or_pos m with rfl | pos
  · have least : e = Binary64.minExponent := by
      rcases h.2.2.2 with normal | least
      · omega
      · exact least
    have wf := Binary64.wellFormed_pointFirst Binary64.digits_zero (by simp) 0
    rw [least]
    exact wf.readNumber_text ends negative
  · have digits := Binary64.digits_shortest_pos h pos
    have wf := Binary64.wellFormed_spelling digits
    have value := Binary64.value_spelling digits
    have read := Binary64.ofDecimal_shortest h pos
    have some : 0 < (Binary64.spelling (Binary64.shortest m e)).digits := by
      rcases Nat.eq_zero_or_pos (Binary64.spelling (Binary64.shortest m e)).digits with none | some
      · rw [Spelling.value, none, Nat.cast_zero, zero_mul] at value
        have : (0 : ℚ) < (Binary64.shortest m e).digits := by exact_mod_cast digits
        have : (0 : ℚ) < (Binary64.shortest m e).digits * 10 ^ (Binary64.shortest m e).power := by
          positivity
        rw [← value] at this
        exact absurd this (lt_irrefl 0)
      · exact some
    rw [if_neg (Nat.pos_iff_ne_zero.mp pos), Binary64.decimalText_eq digits,
      wf.readNumber_text ends negative, Binary64.ofDecimal_congr negative some digits value,
      Binary64.ofDecimal_of_false negative read]

theorem ofString_toString_int (n : Int) :
    Text.ofString (toString n) = signText (decide (n < 0)) ++ Text.ofNat n.natAbs := by
  cases n with
  | ofNat n => rfl
  | negSucc n =>
    show Text.ofString ("-" ++ toString (n + 1)) = _
    rw [decide_eq_true (Int.negSucc_lt_zero n), Text.ofString, String.toList_append, List.map_append]
    rfl

/-- An integer is read back unless it has too many digits. -/
theorem readNumber_int {n : Int} (h : Binary64.digitCount n.natAbs ≤ maxDigits) {rest : Text}
    (ends : rest.EndsNumber) :
    readNumber (Text.ofString (toString n) ++ rest) = .ok (.int n, rest) := by
  have digits := Text.digits_ofNat n.natAbs
  have ne := Text.ofNat_ne_nil n.natAbs
  have first : Text.ofNat n.natAbs = [.char '0'] ∨ (Text.ofNat n.natAbs).head? ≠ some (.char '0') := by
    rcases Nat.eq_zero_or_pos n.natAbs with zero | pos
    · rw [zero]
      exact .inl rfl
    · exact .inr (Text.head?_ofNat pos)
  have whole := readWhole_append digits ne first ends.endsDigits
  have integer : (([] : Text).isEmpty && (none : Option Int).isNone) = true := rfl
  rw [ofString_toString_int, List.append_assoc, readNumber_eq (digits.head?_ne ne) whole
    (readFraction_none fun c hc => (ends c hc).2.1) (readExponent_none fun c hc => (ends c hc).2.2),
    if_pos integer, if_neg (by rw [Text.length_ofNat]; omega), Text.digitsValue_ofNat]
  have value : (if decide (n < 0) then -(n.natAbs : Int) else n.natAbs) = n := by
    by_cases negative : n < 0
    · simp only [negative, decide_true, if_true]
      omega
    · simp only [negative, decide_false, Bool.false_eq_true, if_false]
      omega
  rw [value]

end Json

end Componentry
