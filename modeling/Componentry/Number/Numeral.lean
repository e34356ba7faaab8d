import Componentry.Number.Binary64
import Componentry.Text.Basic
import Componentry.Text.Blank
import Componentry.Text.Digit

/-!
# Numerals

Reading numbers from text, and the limits on their length. A numeral may have blanks around it, a
sign, decimal digits of any script, and single underscores between digits. A decimal numeral with
too many digits is refused, and a number with too many digits is not written out.
-/

namespace Componentry.Numeral

/-- What is wrong with a numeral. -/
inductive Problem where
  | malformed
  | tooManyDigits (count : Nat)
  deriving DecidableEq, Repr

/-- May `c` stand around a number? The separators among the control characters may not. -/
def isPadding (c : CodePoint) : Bool := isBlank c && !('\x1c' ≤ c && c ≤ '\x1f')

/-- A text without the padding around it. -/
def unpadded (s : Text) : Text := ((s.dropWhile isPadding).reverse.dropWhile isPadding).reverse

/-- The value of a digit in a base: a decimal digit of any script, or a letter from ten on. -/
def digitIn? (base : Nat) (c : CodePoint) : Option Nat :=
  let value := match digitValue? c with
    | some d => some d
    | none =>
      if 'a' ≤ c.toLower && c.toLower ≤ 'z' then some (c.toLower.toNat - 87) else none
  match value with
  | some d => if d < base then some d else none
  | none => none

/-- The digits at the start of a text, in which single underscores may stand between digits, and the
rest. `fresh` says that a digit must come next. -/
def digitRun (base : Nat) (fresh : Bool) : Text → Option (List Nat × Text)
  | [] => if fresh then none else some ([], [])
  | c :: s =>
    match digitIn? base c with
    | some d => (digitRun base false s).map fun (ds, rest) => (d :: ds, rest)
    | none =>
      if fresh then none
      else if c = '_' then digitRun base true s
      else some ([], c :: s)

/-- The letter that marks a base, and those it may be written with. -/
def marksBase (base : Nat) (c : CodePoint) : Bool :=
  (base == 2 && (c == 'b' || c == 'B')) || (base == 8 && (c == 'o' || c == 'O')) ||
    (base == 16 && (c == 'x' || c == 'X'))

/-- The text after a zero and the mark of the base, if it starts with them. -/
def afterMark (base : Nat) : Text → Text
  | .char '0' :: c :: rest =>
    if marksBase base c then
      match rest with
      | .char '_' :: rest => rest
      | rest => rest
    else '0' :: c :: rest
  | s => s

/-- A sign, which is negative or not, and the rest. -/
def signed : Text → Bool × Text
  | .char '-' :: rest => (true, rest)
  | .char '+' :: rest => (false, rest)
  | rest => (false, rest)

/-- The integer that a text is in a base. Only bases that are no power of two have a limit, and it
counts before what comes after the digits is looked at. -/
def integer (base : Nat) (s : Text) : Except Problem Int :=
  let (negative, body) := signed (s.dropWhile isPadding)
  match digitRun base true (afterMark base body) with
  | none => .error .malformed
  | some (digits, rest) =>
    if base == 10 && maxDigits < digits.length then .error (.tooManyDigits digits.length)
    else if rest.all isPadding then
      let n : Int := (digits.foldl (fun n d => n * base + d) 0 : Nat)
      .ok (if negative then -n else n)
    else .error .malformed

/-- An integer with decimal digits. -/
def decimal (s : Text) : Except Problem Int := integer 10 s

/-- An integer as text, if that is not too long. -/
def shown? (n : Int) : Option Text :=
  if maxDigits < (toString n.natAbs).length then none else some (toString n)

/-- Why an integer cannot be shown. -/
def tooLongToShow : Text :=
  "Exceeds the limit (4300 digits) for integer string conversion; " ++
    "use sys.set_int_max_str_digits() to increase the limit"

/-- Why an integer cannot be read. -/
def tooLongToRead (count : Nat) : Text :=
  "Exceeds the limit (4300 digits) for integer string conversion: value has " ++ toString count ++
    " digits; use sys.set_int_max_str_digits() to increase the limit"

/-- The digits at the start of a text as a number and their count, none being fine, and the rest. -/
def plainRun (s : Text) : Option (Nat × Nat × Text) :=
  match s with
  | c :: _ =>
    if (digitIn? 10 c).isSome then
      (digitRun 10 true s).map fun (ds, rest) =>
        (ds.foldl (fun n d => n * 10 + d) 0, ds.length, rest)
    else some (0, 0, s)
  | [] => some (0, 0, [])

/-- The exponent of a number: nothing, or a letter, a sign and digits. -/
def exponent? : Text → Option Int
  | [] => some 0
  | e :: rest =>
    if e = 'e' ∨ e = 'E' then
      let (negative, body) := signed rest
      match plainRun body with
      | some (n, count, []) =>
        if count = 0 then none else some (if negative then -(n : Int) else n)
      | _ => none
    else none

/-- The floating point number that a text is: digits with or without a point and an exponent, or a
word for an infinity or for no number. -/
def float? (s : Text) : Option Binary64 :=
  let (negative, body) := signed (unpadded s)
  let word := Text.lowerAscii body
  if word = "inf" ∨ word = "infinity" then some (.infinite negative)
  else if word = "nan" then some .nan
  else
    match plainRun body with
    | none => none
    | some (whole, wholeCount, rest) =>
      let fraction := match rest with
        | .char '.' :: rest => plainRun rest
        | rest => some (0, 0, rest)
      match fraction with
      | none => none
      | some (part, partCount, rest) =>
        if wholeCount + partCount = 0 then none
        else
          (exponent? rest).map fun e =>
            Binary64.ofDecimal negative (whole * Nat.pow 10 partCount + part) (e - partCount)

end Componentry.Numeral
