import Componentry.Digest.Blocks

/-!
# MD5
-/

namespace Componentry.Digest.Md5

/-- The constants of the rounds. -/
def constants : List UInt32 := [
  0xd76aa478, 0xe8c7b756, 0x242070db, 0xc1bdceee, 0xf57c0faf, 0x4787c62a,
  0xa8304613, 0xfd469501, 0x698098d8, 0x8b44f7af, 0xffff5bb1, 0x895cd7be,
  0x6b901122, 0xfd987193, 0xa679438e, 0x49b40821, 0xf61e2562, 0xc040b340,
  0x265e5a51, 0xe9b6c7aa, 0xd62f105d, 0x02441453, 0xd8a1e681, 0xe7d3fbc8,
  0x21e1cde6, 0xc33707d6, 0xf4d50d87, 0x455a14ed, 0xa9e3e905, 0xfcefa3f8,
  0x676f02d9, 0x8d2a4c8a, 0xfffa3942, 0x8771f681, 0x6d9d6122, 0xfde5380c,
  0xa4beea44, 0x4bdecfa9, 0xf6bb4b60, 0xbebfbc70, 0x289b7ec6, 0xeaa127fa,
  0xd4ef3085, 0x04881d05, 0xd9d4d039, 0xe6db99e5, 0x1fa27cf8, 0xc4ac5665,
  0xf4292244, 0x432aff97, 0xab9423a7, 0xfc93a039, 0x655b59c3, 0x8f0ccc92,
  0xffeff47d, 0x85845dd1, 0x6fa87e4f, 0xfe2ce6e0, 0xa3014314, 0x4e0811a1,
  0xf7537e82, 0xbd3af235, 0x2ad7d2bb, 0xeb86d391]

/-- The words that a message starts from. -/
def initial : List UInt32 := [0x67452301, 0xefcdab89, 0x98badcfe, 0x10325476]

/-- The function of round `i`, and the word of the block that it takes. -/
def mix (i : Nat) (b c d : UInt32) : UInt32 × Nat :=
  if i < 16 then ((b &&& c) ||| (~~~b &&& d), i)
  else if i < 32 then ((d &&& b) ||| (~~~d &&& c), (5 * i + 1) % 16)
  else if i < 48 then (b ^^^ c ^^^ d, (3 * i + 5) % 16)
  else (c ^^^ (b ||| ~~~d), (7 * i) % 16)

/-- How far round `i` rotates. -/
def shift (i : Nat) : UInt32 :=
  let cycle : List UInt32 :=
    if i < 16 then [7, 12, 17, 22] else if i < 32 then [5, 9, 14, 20]
    else if i < 48 then [4, 11, 16, 23] else [6, 10, 15, 21]
  (cycle[i % 4]?).getD 0

/-- Round `i`. -/
def round (block state : List UInt32) (i : Nat) (constant : UInt32) : List UInt32 :=
  match state with
  | [a, b, c, d] =>
    let (f, j) := mix i b c d
    let sum := f + a + constant + (block[j]?).getD 0
    [d, b + rotateLeft sum (shift i), b, c]
  | _ => state

/-- Mixes a block into the state. -/
def compress (state block : List UInt32) : List UInt32 :=
  let mixed := ((List.range 64).zip constants).foldl (fun s (i, k) => round block s i k) state
  state.zipWith (· + ·) mixed

/-- The digest of a message, as hexadecimal digits. -/
def hex (message : List UInt8) : Text :=
  hexWords (littleEndian 4)
    ((blocks wordLittle (padded (littleEndian 8) message)).foldl compress initial)

end Componentry.Digest.Md5
