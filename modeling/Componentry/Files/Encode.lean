import Componentry.Text.Quoted

/-!
# Text as bytes

Texts are written as UTF-8, which has no bytes for a lone surrogate: a text that holds one is
refused with the place of the first run of them.
-/

namespace Componentry

/-- Why a text has no bytes: its first run of lone surrogates, of which `code` is the first. -/
structure EncodeError where
  code : Nat
  first : Nat
  last : Nat
  deriving DecidableEq, Repr

/-- The wording of an encoding error. -/
def EncodeError.message (e : EncodeError) : Text :=
  "'utf-8' codec can't encode character" ++
    (if e.first = e.last then
      " '\\u" ++ Text.hexFixed 4 e.code ++ "' in position " ++ toString e.first
    else "s in position " ++ toString e.first ++ "-" ++ toString e.last) ++
    ": surrogates not allowed"

/-- The first fault of a text. -/
def encodeFault? (s : Text) : Option EncodeError :=
  let (before, rest) := s.span fun c => !c.isHalf
  match rest with
  | [] => none
  | c :: _ =>
    let run := rest.takeWhile CodePoint.isHalf
    some ⟨c.toNat, before.length, before.length + run.length - 1⟩

/-- The bytes of a code point: the more bits its number has, the more bytes. A half is treated like
any other code point here. -/
def CodePoint.bytes (c : CodePoint) : List UInt8 :=
  let n := c.toNat
  let tail (shift : Nat) : UInt8 := .ofNat (0x80 + n / shift % 0x40)
  if n < 0x80 then [.ofNat n]
  else if n < 0x800 then [.ofNat (0xC0 + n / 0x40), tail 1]
  else if n < 0x10000 then [.ofNat (0xE0 + n / 0x1000), tail 0x40, tail 1]
  else [.ofNat (0xF0 + n / 0x40000), tail 0x1000, tail 0x40, tail 1]

/-- The bytes of a text. -/
def Text.bytes (s : Text) : List UInt8 := s.flatMap CodePoint.bytes

/-- The UTF-8 bytes of a text. -/
def encodeUtf8 (s : Text) : Except EncodeError ByteArray :=
  match encodeFault? s with
  | some e => .error e
  | none => .ok ⟨(Text.bytes s).toArray⟩

end Componentry
