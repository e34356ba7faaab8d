import Componentry.Text.CodePoint

/-!
# Text as a list of code points

Every offset, column and length of this library counts code points, so a text is the list of them.
This module has the cuts and searches that the scanners share: each is a structural recursion on the
text, and what it keeps and drops is plain from its equations.
-/

namespace Componentry

/-- A text, code point by code point. -/
abbrev Text := List CodePoint

namespace Text

/-- The characters of a string. -/
def ofString (s : String) : Text := s.toList.map .char

instance : Coe String Text := ⟨ofString⟩

/-- The decimal digits of a number. -/
def ofNat (n : Nat) : Text := ofString (toString n)

/-- So many zeros. -/
def zeros (count : Nat) : Text := List.replicate count (.char '0')

/-- The string of these characters, if there are no halves among them. -/
def toString? (s : Text) : Option String := (s.mapM CodePoint.char?).map String.ofList

/-- The string of these characters, a half being shown by the replacement character. -/
def shown (s : Text) : String := String.ofList (s.map fun c => c.char?.getD '\ufffd')

/-- A text that counts as given only if there is something in it. -/
def nonEmpty (s : Option Text) : Option Text := s.filter fun t => !t.isEmpty

/-- Does `c` occur in `s`? -/
def has (s : Text) (c : CodePoint) : Bool := s.elem c

/-- Does `a` come before `b`, by the first code point in which they differ? -/
def before (a b : Text) : Bool := compare a b == .lt

/-- The pieces of `s` between the occurrences of `c`, in order; there is always at least one. -/
def splitOn (c : CodePoint) : Text → List Text
  | [] => [[]]
  | x :: s =>
    if x = c then [] :: splitOn c s
    else
      match splitOn c s with
      | [] => [[x]]
      | piece :: rest => (x :: piece) :: rest

/-- The pieces put together again, with `sep` between neighbours. -/
def join (sep : Text) : List Text → Text
  | [] => []
  | [piece] => piece
  | piece :: rest => piece ++ sep ++ join sep rest

/-- What follows `p` at the start of `s`, if `s` starts with `p`. -/
def after? : (p s : Text) → Option Text
  | [], s => some s
  | _ :: _, [] => none
  | a :: p, b :: s => if a = b then after? p s else none

/-- Does `s` start with `p`? -/
def startsWith (p s : Text) : Bool := (after? p s).isSome

/-- Does `s` end with `p`? -/
def endsWith (p s : Text) : Bool := startsWith p.reverse s.reverse

/-- The text before `p` at the end of `s`. -/
def before? (p s : Text) : Option Text := (after? p.reverse s.reverse).map List.reverse

/-- The text before and after the first occurrence of `needle`. -/
def cut? (needle : Text) : Text → Option (Text × Text)
  | [] => if needle.isEmpty then some ([], []) else none
  | x :: s =>
    match after? needle (x :: s) with
    | some rest => some ([], rest)
    | none => (cut? needle s).map fun (before, rest) => (x :: before, rest)

/-- Does `needle` occur in `s`? -/
def contains (needle s : Text) : Bool := (cut? needle s).isSome

/-- The text before the last `c` (everything, if there is none) and the text after it. -/
def splitLast (c : CodePoint) (s : Text) : Option Text × Text :=
  match splitOn c s.reverse with
  | [] => (none, s)
  | [_] => (none, s)
  | last :: rest => (some (join [c] rest).reverse, last.reverse)

/-- The first occurrence of `needle` replaced by `by_`. -/
def replaceFirst (needle by_ s : Text) : Text :=
  match cut? needle s with
  | none => s
  | some (before, rest) => before ++ by_ ++ rest

/-- Every occurrence of `needle`, searched from the left and not overlapping, replaced by `by_`.
`pending` counts the characters of the last occurrence that are still to be dropped. -/
def replaceFrom (needle by_ : Text) : (pending : Nat) → Text → Text
  | _, [] => []
  | pending + 1, _ :: s => replaceFrom needle by_ pending s
  | 0, x :: s =>
    if startsWith needle (x :: s) then by_ ++ replaceFrom needle by_ (needle.length - 1) s
    else x :: replaceFrom needle by_ 0 s

/-- Every occurrence of the non-empty `needle` replaced by `by_`. -/
def replaceAll (needle by_ s : Text) : Text := replaceFrom needle by_ 0 s

/-- The ASCII letters in lower case. -/
def lowerAscii (s : Text) : Text := s.map CodePoint.toLower

/-- The ASCII letters in upper case. -/
def upperAscii (s : Text) : Text := s.map CodePoint.toUpper

/-- The characters of `s` from offset `a` up to offset `b`. -/
def slice (s : Text) (a b : Nat) : Text := (s.drop a).take (b - a)

end Text

end Componentry
