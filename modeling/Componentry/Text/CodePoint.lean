/-!
# Code points

What texts are made of. Most code points are characters. The others are the halves of surrogate
pairs: a text that another program wrote may hold a half without its partner, and such a half counts
in lengths, is compared and is ordered like any character.
-/

namespace Componentry

/-- A character, or a half of a surrogate pair that stands alone. -/
inductive CodePoint where
  | char (c : Char)
  | half (n : Fin 2048)
  deriving DecidableEq, Repr

namespace CodePoint

instance : Coe Char CodePoint := ⟨.char⟩

instance : Inhabited CodePoint := ⟨.char ' '⟩

/-- The number of the first half. -/
def firstHalf : Nat := 0xD800

/-- The number of a code point. -/
def toNat : CodePoint → Nat
  | .char c => c.toNat
  | .half n => firstHalf + n

/-- The code point of a number below 0x110000. -/
def ofNat (n : Nat) : CodePoint :=
  if h : n - firstHalf < 2048 ∧ firstHalf ≤ n then .half ⟨n - firstHalf, h.1⟩ else .char (.ofNat n)

/-- The character, unless it is a half. -/
def char? : CodePoint → Option Char
  | .char c => some c
  | .half _ => none

/-- Is it a half? -/
def isHalf : CodePoint → Bool
  | .char _ => false
  | .half _ => true

instance : Ord CodePoint := ⟨fun a b => compare a.toNat b.toNat⟩

instance : LT CodePoint := ⟨fun a b => a.toNat < b.toNat⟩

instance : LE CodePoint := ⟨fun a b => a.toNat ≤ b.toNat⟩

instance (a b : CodePoint) : Decidable (a < b) := inferInstanceAs (Decidable (a.toNat < b.toNat))

instance (a b : CodePoint) : Decidable (a ≤ b) := inferInstanceAs (Decidable (a.toNat ≤ b.toNat))

/-- Is it an ASCII digit? -/
def isDigit (c : CodePoint) : Bool := c.char?.any Char.isDigit

/-- Is it an ASCII letter? -/
def isAlpha (c : CodePoint) : Bool := c.char?.any Char.isAlpha

/-- Is it an ASCII letter or digit? -/
def isAlphanum (c : CodePoint) : Bool := c.char?.any Char.isAlphanum

/-- An ASCII letter in lower case; everything else stays. -/
def toLower : CodePoint → CodePoint
  | .char c => .char c.toLower
  | .half n => .half n

/-- An ASCII letter in upper case; everything else stays. -/
def toUpper : CodePoint → CodePoint
  | .char c => .char c.toUpper
  | .half n => .half n

end CodePoint

end Componentry
