import Componentry.Text.Quoted

/-!
# Bytes and text

Text files are UTF-8. Bytes that are not are refused with the place and reason of the first fault.
Reading makes every line end a line feed; writing keeps the text as it is.
-/

namespace Componentry

/-- Why bytes are no text: the first byte at fault, the last one, and the reason. -/
structure DecodeError where
  byte : UInt8
  first : Nat
  last : Nat
  reason : Text
  deriving DecidableEq, Repr

/-- The wording of a decoding error. -/
def DecodeError.message (e : DecodeError) : Text :=
  if e.first = e.last then
    "'utf-8' codec can't decode byte 0x" ++ Text.hexFixed 2 e.byte.toNat ++ " in position " ++
      toString e.first ++ ": " ++ e.reason
  else
    "'utf-8' codec can't decode bytes in position " ++ toString e.first ++ "-" ++
      toString e.last ++ ": " ++ e.reason

/-- Is the byte a continuation byte? -/
def isContinuation (b : UInt8) : Bool := 0x80 ≤ b && b ≤ 0xBF

/-- May `b` follow the leading byte `a`? -/
def mayFollow (a b : UInt8) : Bool :=
  isContinuation b && (a != 0xE0 || 0xA0 ≤ b) && (a != 0xED || b < 0xA0) &&
    (a != 0xF0 || 0x90 ≤ b) && (a != 0xF4 || b < 0x90)

/-- How many bytes a character has that starts with this byte; zero if none does. -/
def characterWidth (a : UInt8) : Nat :=
  if a < 0x80 then 1 else if a < 0xC2 then 0 else if a < 0xE0 then 2 else if a < 0xF0 then 3
  else if a < 0xF5 then 4 else 0

/-- What is wrong with the character at the start of the bytes, `i` being its offset; nothing if it
is complete. -/
def characterFault (i : Nat) : List UInt8 → Option DecodeError
  | [] => none
  | a :: rest =>
    let width := characterWidth a
    let fault (count : Nat) (reason : Text) : Option DecodeError :=
      some ⟨a, i, i + count - 1, reason⟩
    if width = 0 then fault 1 "invalid start byte"
    else
      let following := rest.take (width - 1)
      match following with
      | [] => if width = 1 then none else fault 1 "unexpected end of data"
      | b :: more =>
        if !mayFollow a b then fault 1 "invalid continuation byte"
        else
          let good := more.takeWhile isContinuation
          if good.length < more.length then fault (2 + good.length) "invalid continuation byte"
          else if following.length < width - 1 then
            fault (1 + following.length) "unexpected end of data"
          else none

/-- The first fault of the bytes; `skip` bytes belong to a character already passed. -/
def firstFault : (skip i : Nat) → List UInt8 → Option DecodeError
  | _, _, [] => none
  | skip + 1, i, _ :: rest => firstFault skip (i + 1) rest
  | 0, i, a :: rest =>
    match characterFault i (a :: rest) with
    | some e => some e
    | none => firstFault (characterWidth a - 1) (i + 1) rest

/-- The text of UTF-8 bytes. -/
def decodeUtf8 (bytes : ByteArray) : Except DecodeError Text :=
  match String.fromUTF8? bytes with
  | some s => .ok s
  | none => .error ((firstFault 0 0 bytes.toList).getD ⟨0, 0, 0, "invalid start byte"⟩)

/-- Every line end as a line feed: a carriage return counts as one, together with a line feed that
follows it. -/
def Text.unixLines : Text → Text
  | [] => []
  | .char '\r' :: .char '\n' :: s => '\n' :: unixLines s
  | .char '\r' :: s => '\n' :: unixLines s
  | c :: s => c :: unixLines s

/-- The text of a file's bytes. -/
def decodeFile (bytes : ByteArray) : Except DecodeError Text :=
  (decodeUtf8 bytes).map Text.unixLines

end Componentry
