import Componentry.Json.Basic
import Componentry.Number.Numeral
import Componentry.Text.Basic

/-!
# Reading data values

Reads one value and nothing after it. A fault is reported with its place: the offset, and the line
and column of that offset. The words `NaN`, `Infinity` and `-Infinity` are numbers, a later field
of one name replaces an earlier one, and half of a surrogate pair is kept as what it is.
-/

namespace Componentry.Json

/-- What is wrong with a text that is no value. -/
inductive Problem where
  | value | propertyName | colon | comma | unterminated | control | escape | unicodeEscape
  | extraData | byteOrderMark | tooManyDigits (count : Nat) | tooDeep (kind : Text)
  deriving DecidableEq, Repr

/-- The wording of a problem. -/
def Problem.text : Problem → Text
  | .value => "Expecting value"
  | .propertyName => "Expecting property name enclosed in double quotes"
  | .colon => "Expecting ':' delimiter"
  | .comma => "Expecting ',' delimiter"
  | .unterminated => "Unterminated string starting at"
  | .control => "Invalid control character at"
  | .escape => "Invalid \\escape"
  | .unicodeEscape => "Invalid \\uXXXX escape"
  | .extraData => "Extra data"
  | .byteOrderMark => "Unexpected UTF-8 BOM (decode using utf-8-sig)"
  | .tooManyDigits count => Numeral.tooLongToRead count
  | .tooDeep kind =>
    "maximum recursion depth exceeded while decoding a JSON " ++ kind ++ " from a unicode string"

/-- A problem and its place. -/
structure SyntaxError where
  problem : Problem
  offset : Nat
  line : Nat
  column : Nat
  deriving DecidableEq, Repr

/-- The wording of a fault, with its place. -/
def SyntaxError.message (e : SyntaxError) : Text :=
  match e.problem with
  | .tooManyDigits _ => e.problem.text
  | .tooDeep _ => e.problem.text
  | _ => e.problem.text ++ ": line " ++ toString e.line ++ " column " ++ toString e.column ++
      " (char " ++ toString e.offset ++ ")"

/-- A problem, with the length of the text that was still to be read. -/
abbrev Fault := Problem × Nat

/-- The four characters that may stand between tokens. -/
def isGap (c : CodePoint) : Bool := c == ' ' || c == '\t' || c == '\n' || c == '\r'

/-- The text after its leading gap. -/
def skipGap (s : Text) : Text := s.dropWhile isGap

/-- The character a simple escape stands for. -/
def simpleEscape? : CodePoint → Option CodePoint
  | .char '"' => some '"'
  | .char '\\' => some '\\'
  | .char '/' => some '/'
  | .char 'b' => some '\x08'
  | .char 'f' => some '\x0c'
  | .char 'n' => some '\n'
  | .char 'r' => some '\r'
  | .char 't' => some '\t'
  | _ => none

/-- The number of four hexadecimal digits. -/
def hexUnit? (a b c d : CodePoint) : Option Nat := do
  let a ← hexDigit? a
  let b ← hexDigit? b
  let c ← hexDigit? c
  let d ← hexDigit? d
  return ((a * 16 + b) * 16 + c) * 16 + d

/-- A part of a string's body: a code point, or a UTF-16 unit that is given by its number. -/
inductive Piece where
  | plain (c : CodePoint)
  | unit (n : Nat)

/-- The pieces of a string's body up to its closing quote, and the text after it. `start` is the
text behind the opening quote. -/
def readPieces (start : Text) : Text → Except Fault (List Piece × Text)
  | [] => .error (.unterminated, start.length + 1)
  | .char '"' :: s => .ok ([], s)
  | [.char '\\'] => .error (.unterminated, start.length + 1)
  | .char '\\' :: .char 'u' :: s =>
    match s with
    | a :: b :: c :: d :: rest =>
      if rest.isEmpty then .error (.unicodeEscape, s.length + 1)
      else
        match hexUnit? a b c d with
        | none => .error (.unicodeEscape, s.length + 1)
        | some n => do
          let (pieces, rest) ← readPieces start rest
          return (.unit n :: pieces, rest)
    | _ => .error (.unicodeEscape, s.length + 1)
  | .char '\\' :: e :: s =>
    match simpleEscape? e with
    | none => .error (.escape, s.length + 2)
    | some c => do
      let (pieces, rest) ← readPieces start s
      return (.plain c :: pieces, rest)
  | c :: s =>
    if c.toNat < 0x20 then .error (.control, s.length + 1)
    else do
      let (pieces, rest) ← readPieces start s
      return (.plain c :: pieces, rest)

/-- The code points of pieces: a unit that is a high half joins a low one that follows it. -/
def joinPieces : List Piece → Text
  | [] => []
  | .plain c :: rest => c :: joinPieces rest
  | .unit n :: .unit m :: rest =>
    if 0xD800 ≤ n ∧ n < 0xDC00 ∧ 0xDC00 ≤ m ∧ m < 0xE000 then
      .ofNat (0x10000 + (n - 0xD800) * 0x400 + (m - 0xDC00)) :: joinPieces rest
    else .ofNat n :: joinPieces (.unit m :: rest)
  | .unit n :: rest => .ofNat n :: joinPieces rest

/-- A string, `s` being the text after its opening quote. -/
def readString (s : Text) : Except Fault (Text × Text) := do
  let (pieces, rest) ← readPieces s s
  return (joinPieces pieces, rest)

/-- The number that a run of ASCII digits stands for. -/
def digitsValue (ds : Text) : Nat := ds.foldl (fun n c => n * 10 + (c.toNat - 48)) 0

/-- The fraction of a number: a point and at least one digit. -/
def readFraction (s : Text) : Text × Text :=
  match s with
  | .char '.' :: rest =>
    match rest.takeWhile CodePoint.isDigit with
    | [] => ([], s)
    | ds => (ds, rest.dropWhile CodePoint.isDigit)
  | _ => ([], s)

/-- The exponent of a number, if there is a complete one. -/
def readExponent (s : Text) : Option Int × Text :=
  let signed (sign : Int) (rest : Text) : Option Int × Text :=
    match rest.takeWhile CodePoint.isDigit with
    | [] => (none, s)
    | ds => (some (sign * digitsValue ds), rest.dropWhile CodePoint.isDigit)
  let body (rest : Text) :=
    match rest with
    | .char '+' :: r => signed 1 r
    | .char '-' :: r => signed (-1) r
    | r => signed 1 r
  match s with
  | .char 'e' :: rest => body rest
  | .char 'E' :: rest => body rest
  | _ => (none, s)

/-- The digits before the point: a lone zero, or digits that do not start with one. -/
def readWhole (s : Text) : Option (Text × Text) :=
  match s with
  | .char '0' :: rest => some ("0", rest)
  | _ =>
    match s.takeWhile CodePoint.isDigit with
    | [] => none
    | ds => some (ds, s.dropWhile CodePoint.isDigit)

/-- A number; `s` is the text from its sign or first digit on. -/
def readNumber (s : Text) : Except Fault (Json × Text) :=
  let (negative, body) := match s with
    | .char '-' :: r => (true, r)
    | r => (false, r)
  match readWhole body with
  | none => .error (.value, s.length)
  | some (whole, rest) =>
    let (fraction, rest) := readFraction rest
    let (power, rest) := readExponent rest
    if fraction.isEmpty && power.isNone then
      if maxDigits < whole.length then .error (.tooManyDigits whole.length, s.length)
      else
        let n : Int := digitsValue whole
        .ok (.int (if negative then -n else n), rest)
    else
      let power := power.getD 0 - fraction.length
      .ok (.float (.ofDecimal negative (digitsValue (whole ++ fraction)) power), rest)

/-- A word that stands for a value, if the text starts with one. -/
def readWord? (s : Text) : Option (Json × Text) :=
  [("null", Json.null), ("true", .bool true), ("false", .bool false), ("NaN", .float .nan),
    ("Infinity", .float (.infinite false)), ("-Infinity", .float (.infinite true))].findSome?
    fun (word, j) => (Text.after? word s).map fun rest => (j, rest)

mutual

/-- One value at the start of the text, and the text after it. There is `room` for so many lists and
objects inside each other. Each level of nesting and each item of a list or object takes one unit of
fuel. -/
def readValue (room : Nat) : (fuel : Nat) → Text → Except Fault (Json × Text)
  | 0, s => .error (.value, s.length)
  | fuel + 1, s =>
    match s with
    | [] => .error (.value, 0)
    | .char '"' :: rest => do
      let (t, rest) ← readString rest
      return (.str t, rest)
    | .char '[' :: rest =>
      if room = 0 then .error (.tooDeep "array", s.length)
      else
        match skipGap rest with
        | .char ']' :: rest => .ok (.arr [], rest)
        | rest => do
          let (items, rest) ← readItems (room - 1) fuel rest
          return (.arr items, rest)
    | .char '\x7b' :: rest =>
      if room = 0 then .error (.tooDeep "object", s.length)
      else
        match skipGap rest with
        | .char '\x7d' :: rest => .ok (.obj [], rest)
        | rest => do
          let (fields, rest) ← readFields (room - 1) fuel [] rest
          return (.obj fields, rest)
    | _ =>
      match readWord? s with
      | some found => .ok found
      | none => readNumber s

/-- The items of a list up to its closing bracket. -/
def readItems (room : Nat) : (fuel : Nat) → Text → Except Fault (List Json × Text)
  | 0, s => .error (.value, s.length)
  | fuel + 1, s => do
    let (j, rest) ← readValue room fuel s
    match skipGap rest with
    | .char ']' :: rest => return ([j], rest)
    | .char ',' :: rest =>
      let (items, rest) ← readItems room fuel (skipGap rest)
      return (j :: items, rest)
    | rest => .error (.comma, rest.length)

/-- The fields of an object up to its closing brace, added to the `fields` read so far. -/
def readFields (room : Nat) : (fuel : Nat) → Fields → Text → Except Fault (Fields × Text)
  | 0, _, s => .error (.value, s.length)
  | fuel + 1, fields, s =>
    match s with
    | .char '"' :: rest => do
      let (key, rest) ← readString rest
      match skipGap rest with
      | .char ':' :: rest =>
        let (j, rest) ← readValue room fuel (skipGap rest)
        let fields := Fields.set key j fields
        match skipGap rest with
        | .char '\x7d' :: rest => return (fields, rest)
        | .char ',' :: rest => readFields room fuel fields (skipGap rest)
        | rest => .error (.comma, rest.length)
      | rest => .error (.colon, rest.length)
    | _ => .error (.propertyName, s.length)

end

/-- The value that the whole text is, with gaps allowed around it. -/
def readAll (room : Nat) (s : Text) : Except Fault Json :=
  if s.head? = some '\ufeff' then .error (.byteOrderMark, s.length)
  else do
    let (j, rest) ← readValue room (2 * s.length + 2) (skipGap s)
    match skipGap rest with
    | [] => return j
    | rest => .error (.extraData, rest.length)

/-- A fault placed in the text `s`. -/
def Fault.place (s : Text) (f : Fault) : SyntaxError :=
  let offset := s.length - f.2
  let before := s.take offset
  let lines := Text.splitOn '\n' before
  ⟨f.1, offset, lines.length, (lines.getLast?.getD []).length + 1⟩

/-- The usual room of a reader: lists and objects that stand further inside each other exhaust the
stack of the program that reads them. -/
def maxDepth : Nat := 970

/-- Reads a value. -/
def parse (s : Text) (room : Nat := maxDepth) : Except SyntaxError Json :=
  match readAll room s with
  | .ok j => .ok j
  | .error f => .error (Fault.place s f)

end Componentry.Json
