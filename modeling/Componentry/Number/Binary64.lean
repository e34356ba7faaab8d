/-!
# Binary floating point numbers

A double-precision number as exact data: a sign, a mantissa and a power of two. Reading a decimal
rounds to the nearest such number, ties going to the even mantissa, in exact integer arithmetic.
-/

namespace Componentry

/-- A double-precision number; `finite s m e` is `m · 2 ^ e` with sign `s`. Finite numbers built by
this module have `m < 2 ^ 53` and `-1074 ≤ e`, and `2 ^ 52 ≤ m` unless `e = -1074`. -/
inductive Binary64 where
  | finite (negative : Bool) (mantissa : Nat) (exponent : Int)
  | infinite (negative : Bool)
  | nan
  deriving DecidableEq, Repr

namespace Binary64

/-- The exponent of the smallest numbers. -/
def minExponent : Int := -1074

/-- The exponent of the largest numbers. -/
def maxExponent : Int := 971

/-- Zero with a sign. -/
def zero (negative : Bool) : Binary64 := .finite negative 0 minExponent

/-- `num / den` scaled by `2 ^ (-e)`, as a fraction. -/
def scaled (num den : Nat) (e : Int) : Nat × Nat :=
  if e < 0 then (num * Nat.pow 2 e.natAbs, den) else (num, den * Nat.pow 2 e.natAbs)

/-- The quotient rounded to the nearest integer, a half going to the even one. -/
def roundDiv (num den : Nat) : Nat :=
  let q := num / den
  let twice := 2 * (num % den)
  if den < twice ∨ (twice = den ∧ q % 2 = 1) then q + 1 else q

/-- The exponent at which `num / den` has a mantissa of 53 bits, or the least one there is. -/
def exponentFor (num den : Nat) : Int :=
  let guess : Int := (num.log2 : Int) - den.log2 - 52
  let (n, d) := scaled num den guess
  max minExponent (if n / d < Nat.pow 2 52 then guess - 1 else guess)

/-- The number nearest to `num / den`. -/
def ofRatio (negative : Bool) (num den : Nat) : Binary64 :=
  if num = 0 then zero negative
  else
    let e := exponentFor num den
    let (n, d) := scaled num den e
    let m := roundDiv n d
    let (m, e) := if m = Nat.pow 2 53 then (Nat.pow 2 52, e + 1) else (m, e)
    if maxExponent < e then .infinite negative else .finite negative m e

/-- The number of decimal digits of `n`. -/
def digitCount (n : Nat) : Nat := (Nat.toDigits 10 n).length

/-- The number nearest to `digits · 10 ^ power`. Magnitudes far outside the range are decided
without computing the power. -/
def ofDecimal (negative : Bool) (digits : Nat) (power : Int) : Binary64 :=
  let magnitude : Int := digitCount digits + power
  if digits = 0 ∨ magnitude < -330 then zero negative
  else if 320 < magnitude then .infinite negative
  else if power < 0 then ofRatio negative digits (Nat.pow 10 power.natAbs)
  else ofRatio negative (digits * Nat.pow 10 power.natAbs) 1

/-- The magnitude of `m · 2 ^ e` as a fraction. -/
def ratio (mantissa : Nat) (exponent : Int) : Nat × Nat := scaled mantissa 1 (-exponent)

/-- The integer part, rounding toward zero. -/
def truncate (negative : Bool) (mantissa : Nat) (exponent : Int) : Int :=
  let (n, d) := ratio mantissa exponent
  if negative then -((n / d : Nat) : Int) else (n / d : Nat)

/-- The largest integer that is not above the number. -/
def floor (negative : Bool) (mantissa : Nat) (exponent : Int) : Int :=
  let (n, d) := ratio mantissa exponent
  Int.fdiv (if negative then -(n : Int) else n) d

/-- Is the number equal to the integer `k`? -/
def equalsInt (x : Binary64) (k : Int) : Bool :=
  match x with
  | .finite negative m e =>
    let (n, d) := ratio m e
    n == k.natAbs * d && (n == 0 || negative == decide (k < 0))
  | _ => false

/-- Is the number zero? -/
def isZero : Binary64 → Bool
  | .finite _ 0 _ => true
  | _ => false

/-- The number with the other sign. -/
def negate : Binary64 → Binary64
  | .finite negative m e => .finite (!negative) m e
  | .infinite negative => .infinite (!negative)
  | .nan => .nan

/-- The number nearest to an integer. -/
def ofInt (n : Int) : Binary64 := ofRatio (decide (n < 0)) n.natAbs 1

/-- A finite number as a fraction with a sign. -/
def signedRatio (negative : Bool) (mantissa : Nat) (exponent : Int) : Int × Nat :=
  let (n, d) := ratio mantissa exponent
  (if negative then -(n : Int) else n, d)

/-- The sum, rounded. A sum of zero is positive unless both numbers are negative. -/
def add : Binary64 → Binary64 → Binary64
  | .nan, _ => .nan
  | _, .nan => .nan
  | .infinite a, .infinite b => if a == b then .infinite a else .nan
  | .infinite a, _ => .infinite a
  | _, .infinite b => .infinite b
  | .finite sa ma ea, .finite sb mb eb =>
    let (na, da) := signedRatio sa ma ea
    let (nb, db) := signedRatio sb mb eb
    let n := na * db + nb * da
    if n = 0 then zero (sa && sb) else ofRatio (decide (n < 0)) n.natAbs (da * db)

/-- The product, rounded. -/
def mul : Binary64 → Binary64 → Binary64
  | .nan, _ => .nan
  | _, .nan => .nan
  | .infinite a, .infinite b => .infinite (a != b)
  | .infinite a, .finite b m _ => if m = 0 then .nan else .infinite (a != b)
  | .finite a m _, .infinite b => if m = 0 then .nan else .infinite (a != b)
  | .finite sa ma ea, .finite sb mb eb =>
    let (na, da) := ratio ma ea
    let (nb, db) := ratio mb eb
    ofRatio (sa != sb) (na * nb) (da * db)

end Binary64

end Componentry
