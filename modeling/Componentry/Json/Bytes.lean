import Componentry.Files.Decode
import Componentry.Text.Basic

/-!
# Data values as bytes

A text of a data value may come in UTF-8, UTF-16 or UTF-32. Which of them it is shows in its first
four bytes: by a mark, or else by where the zeros are, since the first two characters of such a text
are ASCII. A mark is no part of the text.
-/

namespace Componentry.Json

/-- How a text is written in bytes. -/
inductive Encoding where
  | utf8
  | utf16 (bigEndian : Bool)
  | utf32 (bigEndian : Bool)
  deriving DecidableEq, Repr

namespace Encoding

/-- The encoding whose mark the bytes start with, and the bytes after the mark. -/
def marked? : List UInt8 → Option (Encoding × List UInt8)
  | 0x00 :: 0x00 :: 0xFE :: 0xFF :: rest => some (.utf32 true, rest)
  | 0xFF :: 0xFE :: 0x00 :: 0x00 :: rest => some (.utf32 false, rest)
  | 0xFE :: 0xFF :: rest => some (.utf16 true, rest)
  | 0xFF :: 0xFE :: rest => some (.utf16 false, rest)
  | 0xEF :: 0xBB :: 0xBF :: rest => some (.utf8, rest)
  | _ => none

/-- The encoding of bytes without a mark. -/
def guessed : List UInt8 → Encoding
  | [a, b] => if a = 0 then .utf16 true else if b = 0 then .utf16 false else .utf8
  | a :: b :: c :: d :: _ =>
    if a = 0 then (if b = 0 then .utf32 true else .utf16 true)
    else if b = 0 then (if c = 0 && d = 0 then .utf32 false else .utf16 false)
    else .utf8
  | _ => .utf8

/-- The number that bytes spell, the first one being the most significant. -/
def number (bytes : List UInt8) : Nat := bytes.foldl (fun n b => n * 256 + b.toNat) 0

/-- The numbers of two bytes each. -/
def units16? (bigEndian : Bool) : List UInt8 → Option (List Nat)
  | [] => some []
  | a :: b :: rest => do
    return number (if bigEndian then [a, b] else [b, a]) :: (← units16? bigEndian rest)
  | _ => none

/-- The numbers of four bytes each. -/
def units32? (bigEndian : Bool) : List UInt8 → Option (List Nat)
  | [] => some []
  | a :: b :: c :: d :: rest => do
    return number (if bigEndian then [a, b, c, d] else [d, c, b, a]) :: (← units32? bigEndian rest)
  | _ => none

/-- The characters of UTF-16 units. Halves join where they make a pair. -/
def joinUnits : List Nat → Text
  | [] => []
  | [a] => [.ofNat a]
  | a :: b :: rest =>
    if 0xD800 ≤ a && a < 0xDC00 && 0xDC00 ≤ b && b < 0xE000 then
      .ofNat (0x10000 + (a - 0xD800) * 0x400 + (b - 0xDC00)) :: joinUnits rest
    else .ofNat a :: joinUnits (b :: rest)

/-- The text of bytes in an encoding; none if they are not in it. -/
def decode? (e : Encoding) (bytes : List UInt8) : Option Text :=
  match e with
  | .utf8 => (decodeUtf8 ⟨bytes.toArray⟩).toOption
  | .utf16 bigEndian => (units16? bigEndian bytes).map joinUnits
  | .utf32 bigEndian => do
    let codes ← units32? bigEndian bytes
    if codes.all (· < 0x110000) then some (codes.map CodePoint.ofNat) else none

end Encoding

/-- The text of bytes that hold a data value; none if they are no text. -/
def textOfBytes? (bytes : ByteArray) : Option Text :=
  match Encoding.marked? bytes.toList with
  | some (e, rest) => e.decode? rest
  | none => (Encoding.guessed bytes.toList).decode? bytes.toList

end Componentry.Json
