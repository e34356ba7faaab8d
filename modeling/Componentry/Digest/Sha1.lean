import Componentry.Digest.Blocks

/-!
# SHA-1
-/

namespace Componentry.Digest.Sha1

/-- The words that a message starts from. -/
def initial : List UInt32 := [0x67452301, 0xefcdab89, 0x98badcfe, 0x10325476, 0xc3d2e1f0]

/-- The schedule of a block, last word first, with `count` words more than `words`. -/
def extend : (count : Nat) → List UInt32 → List UInt32
  | 0, words => words
  | count + 1, words =>
    let w (i : Nat) : UInt32 := (words[i - 1]?).getD 0
    extend count (rotateLeft (w 3 ^^^ w 8 ^^^ w 14 ^^^ w 16) 1 :: words)

/-- The function and the constant of round `i`. -/
def mix (i : Nat) (b c d : UInt32) : UInt32 × UInt32 :=
  if i < 20 then ((b &&& c) ||| (~~~b &&& d), 0x5a827999)
  else if i < 40 then (b ^^^ c ^^^ d, 0x6ed9eba1)
  else if i < 60 then ((b &&& c) ||| (b &&& d) ||| (c &&& d), 0x8f1bbcdc)
  else (b ^^^ c ^^^ d, 0xca62c1d6)

/-- Round `i`. -/
def round (state : List UInt32) (i : Nat) (word : UInt32) : List UInt32 :=
  match state with
  | [a, b, c, d, e] =>
    let (f, k) := mix i b c d
    [rotateLeft a 5 + f + e + k + word, a, rotateLeft b 30, c, d]
  | _ => state

/-- Mixes a block into the state. -/
def compress (state block : List UInt32) : List UInt32 :=
  let schedule := (extend 64 block.reverse).reverse
  let mixed := ((List.range 80).zip schedule).foldl (fun s (i, w) => round s i w) state
  state.zipWith (· + ·) mixed

/-- The digest of a message, as hexadecimal digits. -/
def hex (message : List UInt8) : Text :=
  hexWords (bigEndian 4)
    ((blocks wordBig (padded (bigEndian 8) message)).foldl compress initial)

end Componentry.Digest.Sha1
