import Componentry.Files.Decode
import Componentry.Files.Encode

/-!
# File names

Files are stored under names that are bytes. A name is shown as the text that its bytes are in
UTF-8; a byte that is no part of one is shown by a half, the halves from 0xDC80 to 0xDCFF standing
for the bytes from 0x80 to 0xFF. So two texts may name one file.
-/

namespace Componentry

/-- The byte that a half stands for in a name. -/
def rawByte? : CodePoint → Option UInt8
  | .char _ => none
  | .half n => if 0x480 ≤ n.val && n.val < 0x500 then some (.ofNat (n.val - 0x400)) else none

/-- The half that stands for a byte. -/
def ofRawByte (b : UInt8) : CodePoint := .ofNat (0xDC00 + b.toNat)

/-- The first half of a name that stands for no byte, with the halves that follow it. -/
def nameFault? (s : Text) : Option EncodeError :=
  let (before, rest) := s.span fun c => !c.isHalf || (rawByte? c).isSome
  match rest with
  | [] => none
  | c :: _ =>
    let run := rest.takeWhile CodePoint.isHalf
    some ⟨c.toNat, before.length, before.length + run.length - 1⟩

/-- The bytes of a name. -/
def nameBytes (s : Text) : List UInt8 :=
  s.flatMap fun c =>
    match rawByte? c with
    | some b => [b]
    | none => c.bytes

/-- The text that shows the bytes of a name; `fuel` bounds their number. -/
def nameOfBytes : (fuel : Nat) → List UInt8 → Text
  | 0, _ => []
  | _, [] => []
  | fuel + 1, a :: rest =>
    let width := if (characterFault 0 (a :: rest)).isNone then characterWidth a else 1
    match decodeUtf8 ⟨((a :: rest).take width).toArray⟩ with
    | .ok c => c ++ nameOfBytes fuel (rest.drop (width - 1))
    | .error _ => ofRawByte a :: nameOfBytes fuel rest

/-- The text under which a file of this name is found again. -/
def storedName (s : Text) : Text :=
  let bytes := nameBytes s
  if s.any CodePoint.isHalf then nameOfBytes bytes.length bytes else s

end Componentry
