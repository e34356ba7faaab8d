import Componentry.SourceMap.Basic

/-!
# Numbers of variable length

The numbers of a source map are written in base 64 digits of five bits each, least significant
first; the sixth bit says that more digits follow. The sign is the lowest bit of the number.
-/

namespace Componentry.SourceMap.Vlq

/-- The sixty-four digits in order of their values. -/
def alphabet : Text :=
  "ABCDEFGHIJKLMNOPQRSTUVWXYZabcdefghijklmnopqrstuvwxyz0123456789+/"

/-- The digit of value `d`. -/
def digitChar (d : Nat) : CodePoint := alphabet.getD d 'A'

/-- The value of a digit. -/
def digit? (c : CodePoint) : Option Nat := alphabet.findIdx? (· == c)

/-- The sign moved into the lowest bit. -/
def fold (n : Int) : Nat := if n < 0 then 2 * n.natAbs + 1 else 2 * n.natAbs

/-- The sign taken out of the lowest bit. -/
def unfold (n : Nat) : Int := if n % 2 = 1 then -((n / 2 : Nat) : Int) else (n / 2 : Nat)

/-- The digits of `n`, all but the last marked as continued; `fuel = n` suffices. -/
def digits : (fuel n : Nat) → List Nat
  | 0, n => [n % 32]
  | fuel + 1, n => if n < 32 then [n] else (n % 32 + 32) :: digits fuel (n / 32)

/-- One number, written. -/
def encode (n : Int) : Text := (digits (fold n) (fold n)).map digitChar

/-- One number at the start of the text, and the text after it. -/
def decodeNat : Text → Except Error (Nat × Text)
  | [] => .error .numberEnd
  | c :: s =>
    match digit? c with
    | none => .error (.numberDigit c)
    | some d =>
      if d < 32 then .ok (d, s)
      else do
        let (n, rest) ← decodeNat s
        return (d - 32 + 32 * n, rest)

/-- One signed number at the start of the text, and the text after it. -/
def decode (s : Text) : Except Error (Int × Text) := do
  let (n, rest) ← decodeNat s
  return (unfold n, rest)

/-- The number at offset `index` and the offset after it. A negative offset counts from the end,
and reading then goes on at the start of the text. -/
def decodeAt (s : Text) (index : Int) : Except Error (Int × Int) :=
  if index < 0 ∧ s.length < index.natAbs then .error (.conversion .indexRange)
  else do
    let text := if index < 0 then s.drop (s.length - index.natAbs) ++ s else s.drop index.toNat
    let (n, rest) ← decode text
    return (n, index + (text.length - rest.length : Nat))

/-- All numbers of a segment. `low` is the value of the digits already read of the number at hand,
and `weight` the weight of its next digit. -/
def decodeFrom (weight low : Nat) : Text → Except Error (List Int)
  | [] => if weight = 1 then .ok [] else .error .numberEnd
  | c :: s =>
    match digit? c with
    | none => .error (.numberDigit c)
    | some d =>
      if d < 32 then do
        let rest ← decodeFrom 1 0 s
        return unfold (low + weight * d) :: rest
      else decodeFrom (weight * 32) (low + weight * (d - 32)) s

/-- All numbers of a segment. -/
def decodeSegment (s : Text) : Except Error (List Int) := decodeFrom 1 0 s

end Componentry.SourceMap.Vlq
