import Componentry.Text.Basic

/-!
# Blank characters

White space in the sense of Unicode, with the four information separators of ASCII: what separates
tokens and attributes, and what trimming removes.
-/

namespace Componentry

/-- The code points of blank characters, as closed ranges. -/
def blankRanges : List (Nat × Nat) :=
  [(0x09, 0x0D), (0x1C, 0x20), (0x85, 0x85), (0xA0, 0xA0), (0x1680, 0x1680), (0x2000, 0x200A),
   (0x2028, 0x2029), (0x202F, 0x202F), (0x205F, 0x205F), (0x3000, 0x3000)]

/-- Is `c` a blank character? -/
def isBlank (c : CodePoint) : Bool :=
  blankRanges.any fun (lo, hi) => lo ≤ c.toNat && c.toNat ≤ hi

namespace Text

/-- `s` without its leading blanks. -/
def trimLeft (s : Text) : Text := s.dropWhile isBlank

/-- `s` without its trailing blanks. -/
def trimRight (s : Text) : Text := (s.reverse.dropWhile isBlank).reverse

/-- `s` without blanks at its ends. -/
def trim (s : Text) : Text := trimRight (trimLeft s)

/-- `s` without the characters of `cs` at its ends. -/
def trimOf (cs : Text) (s : Text) : Text :=
  ((s.dropWhile fun c => cs.elem c).reverse.dropWhile fun c => cs.elem c).reverse

/-- Is every character blank? -/
def allBlank (s : Text) : Bool := s.all isBlank

end Text

end Componentry
