import Componentry.Number.Numeral
import Componentry.Number.Shortest
import Componentry.Text.Base64
import Componentry.Yaml.Moment
import Componentry.Yaml.Problem

/-!
# Scalars

What the text of a scalar stands for under a tag: nothing, a truth value, a number, bytes, a day or
a time, or its own text.
-/

namespace Componentry.Yaml

/-- What a scalar stands for. -/
inductive Scalar where
  | null
  | bool (value : Bool)
  | int (value : Int)
  | float (value : Binary64)
  /-- What is not a number, reckoned at a place. -/
  | nan (place : Nat)
  | text (value : Text)
  | bytes (value : List UInt8)
  | day (value : Day)
  | moment (value : Moment)
  deriving DecidableEq, Repr

namespace Scalar

/-- Digits without underscores. -/
def withoutLines (s : Text) : Text := s.filter fun (c : CodePoint) => c != '_'

/-- A number that is read from text. -/
def numeral (base : Nat) (s : Text) : Outcome Int :=
  (Numeral.integer base s).mapError fun _ => .outOfRange

/-- The sum of numbers in base sixty, the last one counting once. -/
def sexagesimal (parts : List Int) : Int := parts.foldl (fun n part => n * 60 + part) 0

/-- An integer, without its sign. -/
def magnitude (s : Text) : Outcome Int :=
  if s == "0" then .ok 0
  else
    match s with
    | [] => .error .noDigits
    | .char '0' :: .char 'b' :: rest => numeral 2 rest
    | .char '0' :: .char 'x' :: rest => numeral 16 rest
    | .char '0' :: _ => numeral 8 s
    | _ =>
      if s.has ':' then do
        return sexagesimal (← (Text.splitOn ':' s).mapM (numeral 10))
      else numeral 10 s

/-- The sign of a number without underscores, and the rest; there must be something. -/
def signOf (s : Text) : Outcome (Bool × Text) :=
  match s with
  | [] => .error .noDigits
  | .char '-' :: rest => .ok (true, rest)
  | .char '+' :: rest => .ok (false, rest)
  | _ => .ok (false, s)

/-- An integer. -/
def integerOf (s : Text) : Outcome Int := do
  let (negative, body) ← signOf (withoutLines s)
  let n ← magnitude body
  return if negative then -n else n

/-- The sum of floating point numbers in base sixty, from the last one on; every step is rounded. -/
def sixtieths : (sum : Binary64) → (unit : Nat) → List Binary64 → Outcome Binary64
  | sum, _, [] => .ok sum
  | sum, unit, part :: rest =>
    match Binary64.ofInt unit with
    | .infinite _ => .error .tooLarge
    | scale => sixtieths (sum.add (part.mul scale)) (unit * 60) rest

/-- A floating point number that is read from text. -/
def floatNumeral (s : Text) : Outcome Binary64 :=
  match Numeral.float? s with
  | some x => .ok x
  | none => .error .outOfRange

/-- A floating point number. -/
def floatOf (s : Text) : Outcome Binary64 := do
  let (negative, body) ← signOf (Text.lowerAscii (withoutLines s))
  let signed (x : Binary64) : Binary64 := if negative then x.negate else x
  if body == ".inf" then return .infinite negative
  else if body == ".nan" then return .nan
  else if body.has ':' then
    return signed (← sixtieths (.zero false) 1
      (← (Text.splitOn ':' body).mapM floatNumeral).reverse)
  else return signed (← floatNumeral body)

/-- The floating point number at a place. What is not a number has a name, and all that has the name
is one value; where it is reckoned, it is a value of its own. -/
def floatAt (place : Nat) (s : Text) : Outcome Scalar := do
  let x ← floatOf s
  let (_, body) ← signOf (Text.lowerAscii (withoutLines s))
  return if x == .nan && body != ".nan" then .nan place else .float x

/-- A truth value. -/
def truth (s : Text) : Outcome Bool :=
  let word := Text.lowerAscii s
  if (["yes", "true", "on"] : List Text).elem word then .ok true
  else if (["no", "false", "off"] : List Text).elem word then .ok false
  else .error .unknownWord

/-- A day or a time. A line break at its end counts for nothing. -/
def timestamp (s : Text) : Outcome Scalar :=
  let s := if s.getLast? == some '\n' then s.dropLast else s
  if Tag.afterDate? 1 s == some [] then
    let (date, _) := Moment.dayOf s
    if date.exists_ then .ok (.day date) else .error .outOfRange
  else if Tag.looksMoment s then
    let (date, rest) := Moment.dayOf s
    let time := Moment.ofClock date ((Tag.afterDateGap? rest).getD [])
    if time.exists_ then .ok (.moment time) else .error .outOfRange
  else .error .notMoment

/-- Bytes that are written in base 64, in ASCII. -/
def binary (s : Text) : Outcome (List UInt8) :=
  if s.all fun c => c.toNat < 128 then
    match Base64.decode? s with
    | some decoded => .ok decoded
    | none => refuse
  else refuse

/-- What a text at a place stands for under a tag of scalars. -/
def ofText (tag : Tag) (place : Nat) (s : Text) : Outcome Scalar :=
  match tag with
  | .null => .ok .null
  | .bool => return .bool (← truth s)
  | .int => return .int (← integerOf s)
  | .float => floatAt place s
  | .binary => return .bytes (← binary s)
  | .timestamp => timestamp s
  | .text => .ok (.text s)
  | _ => refuse

/-- Are two scalars one key? Numbers and truth values are compared by number, and what is reckoned
and not a number is one with itself only. -/
def sameKey : Scalar → Scalar → Bool
  | .null, .null => true
  | .text a, .text b => a == b
  | .bytes a, .bytes b => a == b
  | .day a, .day b => a == b
  | .moment a, .moment b => a.same b
  | .nan a, .nan b => a == b
  | .float a, .float b => a == b || (a.isZero && b.isZero)
  | .float a, .int k => a.equalsInt k
  | .int k, .float a => a.equalsInt k
  | .float a, .bool b => a.equalsInt (if b then 1 else 0)
  | .bool b, .float a => a.equalsInt (if b then 1 else 0)
  | .int a, .int b => a == b
  | .bool a, .bool b => a == b
  | .int a, .bool b => a == (if b then 1 else 0)
  | .bool a, .int b => (if a then 1 else 0) == b
  | _, _ => false

end Scalar

end Componentry.Yaml
