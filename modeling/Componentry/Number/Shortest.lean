import Componentry.Number.Binary64
import Componentry.Text.Basic

/-!
# Shortest decimals

The decimal shown for a floating point number has the fewest digits that read back as that number,
and of these the nearest. Exponents from `-4` to `15` are written positionally.
-/

namespace Componentry.Binary64

/-- A decimal `digits · 10 ^ power`. -/
structure Decimal where
  digits : Nat
  power : Int
  deriving DecidableEq, Repr

/-- The position `p` of the decimal point of `num / den > 0`: `10 ^ (p - 1) ≤ num / den < 10 ^ p`.
-/
def pointPosition (num den : Nat) : Int :=
  if den ≤ num then digitCount (num / den)
  else
    let d := digitCount (den / num)
    if den ≤ num * Nat.pow 10 (d - 1) then 2 - (d : Int) else 1 - (d : Int)

/-- The neighbour of the number on the grid of decimals with `count` digits that reads back as the
number; of two such neighbours the nearer, and of two equally near the even one. -/
def onGrid? (mantissa : Nat) (exponent : Int) (count : Nat) : Option Decimal :=
  let x : Binary64 := .finite false mantissa exponent
  let (num, den) := ratio mantissa exponent
  let power := pointPosition num den - count
  let (n, d) := if power < 0 then (num * Nat.pow 10 power.natAbs, den)
    else (num, den * Nat.pow 10 power.natAbs)
  let low := n / d
  let lowFits := ofDecimal false low power == x
  let highFits := ofDecimal false (low + 1) power == x
  if lowFits && highFits then
    if 2 * (n % d) < d || (2 * (n % d) == d && low % 2 == 0) then some ⟨low, power⟩
    else some ⟨low + 1, power⟩
  else if lowFits then some ⟨low, power⟩
  else if highFits then some ⟨low + 1, power⟩
  else none

/-- The number written out in full: `m · 2 ^ e` with `e < 0` is `m · 5 ^ (-e) · 10 ^ e`. -/
def exact (mantissa : Nat) (exponent : Int) : Decimal :=
  if exponent < 0 then ⟨mantissa * Nat.pow 5 exponent.natAbs, exponent⟩
  else ⟨mantissa * Nat.pow 2 exponent.natAbs, 0⟩

/-- The first grid from `count` digits on that has a decimal for the number. -/
def shortestFrom (mantissa : Nat) (exponent : Int) : (fuel count : Nat) → Decimal
  | 0, _ => exact mantissa exponent
  | fuel + 1, count =>
    match onGrid? mantissa exponent count with
    | some d => d
    | none => shortestFrom mantissa exponent fuel (count + 1)

/-- The shortest decimal that reads back as `m · 2 ^ e`. -/
def shortest (mantissa : Nat) (exponent : Int) : Decimal := shortestFrom mantissa exponent 17 1

/-- The digits of `n` without trailing zeros, and how many zeros were dropped. -/
def significant (n : Nat) : Text × Nat :=
  let ds := Text.ofNat n
  let kept := ds.reverse.dropWhile fun (c : CodePoint) => c == '0'
  (kept.reverse, ds.length - kept.length)

/-- A positive decimal in positional notation, or with an exponent of two digits or more. -/
def decimalText (d : Decimal) : Text :=
  let (ds, dropped) := significant d.digits
  let point : Int := ds.length + d.power + dropped
  if -4 < point ∧ point ≤ 16 then
    if point ≤ 0 then "0." ++ Text.zeros point.natAbs ++ ds
    else if ds.length ≤ point.natAbs then
      ds ++ Text.zeros (point.natAbs - ds.length) ++ ".0"
    else ds.take point.natAbs ++ "." ++ ds.drop point.natAbs
  else
    let e := point - 1
    let expDigits := Text.ofNat e.natAbs
    let expText := if expDigits.length < 2 then "0" ++ expDigits else expDigits
    let fraction : Text := match ds.drop 1 with
      | [] => []
      | rest => '.' :: rest
    ds.take 1 ++ fraction ++ (if e < 0 then "e-" else "e+" : Text) ++ expText

/-- The text of a number as messages show it. -/
def text : Binary64 → Text
  | .nan => "nan"
  | .infinite negative => if negative then "-inf" else "inf"
  | .finite negative m e =>
    let size : Text := if m = 0 then "0.0" else decimalText (shortest m e)
    if negative then '-' :: size else size

end Componentry.Binary64
