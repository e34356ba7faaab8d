import Componentry.Text.Basic

/-!
# Base 64

Bytes as characters, six bits in each. Reading skips what is no digit. Padding ends the text where
it completes a group of four, and a group that is left open is an error.
-/

namespace Componentry.Base64

/-- The six bits that a character stands for. -/
def digit? (c : CodePoint) : Option Nat :=
  if 'A' ≤ c ∧ c ≤ 'Z' then some (c.toNat - 65)
  else if 'a' ≤ c ∧ c ≤ 'z' then some (c.toNat - 71)
  else if '0' ≤ c ∧ c ≤ '9' then some (c.toNat + 4)
  else if c = '+' then some 62
  else if c = '/' then some 63
  else none

/-- Where a reader is in a group of four: the digits read of it, the bits of the last one that
belong to the next byte, and the padding seen since. -/
structure Group where
  digits : Nat := 0
  bits : Nat := 0
  padding : Nat := 0

/-- Reads a digit: the byte that it completes, if any. -/
def Group.push (g : Group) (d : Nat) : Option UInt8 × Group :=
  match g.digits with
  | 0 => (none, { digits := 1, bits := d })
  | 1 => (some (UInt8.ofNat (g.bits * 4 + d / 16)), { digits := 2, bits := d % 16 })
  | 2 => (some (UInt8.ofNat (g.bits * 16 + d / 4)), { digits := 3, bits := d % 4 })
  | _ => (some (UInt8.ofNat (g.bits * 64 + d)), {})

/-- Reads on from within a group. -/
def decodeFrom (g : Group) : Text → Option (List UInt8)
  | [] => if g.digits = 0 then some [] else none
  | c :: rest =>
    if c = '=' then
      if 2 ≤ g.digits ∧ 4 ≤ g.digits + g.padding + 1 then some []
      else decodeFrom (if 2 ≤ g.digits then { g with padding := g.padding + 1 } else g) rest
    else
      match digit? c with
      | none => decodeFrom g rest
      | some d =>
        match g.push d with
        | (some byte, g) => (decodeFrom g rest).map (byte :: ·)
        | (none, g) => decodeFrom g rest

/-- The bytes that a text stands for. -/
def decode? (s : Text) : Option (List UInt8) := decodeFrom {} s

end Componentry.Base64
