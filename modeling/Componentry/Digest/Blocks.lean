import Componentry.Text.Digit

/-!
# Message blocks

What the hash functions share: a message is closed by one set bit, zeros and its length, cut into
blocks of 64 bytes, and read as words of four bytes.
-/

namespace Componentry.Digest

/-- The last `count` bytes of a number, least significant first. -/
def littleEndian : (count : Nat) → Nat → List UInt8
  | 0, _ => []
  | count + 1, n => UInt8.ofNat (n % 256) :: littleEndian count (n / 256)

/-- The last `count` bytes of a number, most significant first. -/
def bigEndian (count n : Nat) : List UInt8 := (littleEndian count n).reverse

/-- The message with the set bit, zeros up to eight bytes before the end of a block, and the number
of its bits. -/
def padded (lengthBytes : Nat → List UInt8) (message : List UInt8) : List UInt8 :=
  message ++ 0x80 ::
    (List.replicate ((119 - message.length % 64) % 64) 0 ++ lengthBytes (8 * message.length))

/-- Cuts a list into pieces of `size`, at most `count` of them. -/
def pieces {α : Type} (size : Nat) : (count : Nat) → List α → List (List α)
  | 0, _ => []
  | count + 1, xs => xs.take size :: pieces size count (xs.drop size)

/-- The blocks of a padded message, each as sixteen words. -/
def blocks (word : List UInt8 → UInt32) (message : List UInt8) : List (List UInt32) :=
  (pieces 64 (message.length / 64) message).map fun block => (pieces 4 16 block).map word

/-- The word of bytes, most significant first. -/
def wordBig (bytes : List UInt8) : UInt32 :=
  bytes.foldl (fun w b => w * 256 + b.toUInt32) 0

/-- The word of bytes, least significant first. -/
def wordLittle (bytes : List UInt8) : UInt32 := wordBig bytes.reverse

/-- The bits of a word moved to the left, those that fall out coming in on the right. -/
def rotateLeft (w : UInt32) (n : UInt32) : UInt32 := (w <<< n) ||| (w >>> (32 - n))

/-- The bits of a word moved to the right, those that fall out coming in on the left. -/
def rotateRight (w : UInt32) (n : UInt32) : UInt32 := (w >>> n) ||| (w <<< (32 - n))

/-- A byte as two hexadecimal digits. -/
def hexByte (b : UInt8) : Text := Text.hexFixed 2 b.toNat

/-- Words as hexadecimal digits, in the given order of bytes. -/
def hexWords (bytes : Nat → List UInt8) (words : List UInt32) : Text :=
  words.flatMap fun w => (bytes w.toNat).flatMap hexByte

end Componentry.Digest
