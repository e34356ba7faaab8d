import Componentry.Yaml.Token

/-!
# Tokens of scalars

Scalars are plain, quoted, or blocks of lines. In plain and quoted ones a line break counts as a
blank, and an empty line as a line break. A block keeps its lines as they are, or folds them in the
same way; its header says what becomes of the last line breaks.
-/

namespace Componentry.Yaml.Scanner

/-- How many characters of a plain scalar stand here without a gap. -/
def plainLength (inFlow : Bool) : Text → Nat
  | [] => 0
  | c :: rest =>
    let next := rest.head?.getD '\x00'
    if isGap c || (c == ':' && (isGap next || (inFlow && Text.has ",[]\x7b\x7d" next))) ||
        (inFlow && Text.has ",?[]\x7b\x7d" c) then 0
    else plainLength inFlow rest + 1

/-- The breaks of empty lines, over blanks; none before a document mark. -/
def plainBreaks : (fuel : Nat) → Text → Scanner → Option Text × Scanner
  | 0, breaks, s => (some breaks, s)
  | fuel + 1, breaks, s =>
    match s.rest with
    | [] => (some breaks, s)
    | c :: _ =>
      if c == ' ' then plainBreaks fuel breaks s.advance
      else if isBreak c then
        let s := s.advance
        if s.atAnyMark then (none, s) else plainBreaks fuel (breaks ++ [breakText c]) s
      else (some breaks, s)

/-- What a line break and the empty lines after it stand for in a scalar. -/
def folded (first : CodePoint) (breaks : Text) : Text :=
  if breakText first != '\n' then first :: breaks
  else if breaks.isEmpty then " " else breaks

/-- What the gap inside a plain scalar stands for; nothing if the scalar ends. -/
def plainGap (s : Scanner) : Text × Scanner :=
  let (blanks, s) := s.takeWhile fun (c : CodePoint) => c == ' '
  match s.rest with
  | c :: _ =>
    if isBreak c then
      let s := { s.advance with keyAllowed := true }
      if s.atAnyMark then ([], s)
      else
        match plainBreaks s.size [] s with
        | (none, s) => ([], s)
        | (some breaks, s) => (folded c breaks, s)
    else (blanks, s)
  | [] => (blanks, s)

/-- Reads the words of a plain scalar, `read` being what comes before and `gap` what lies between.
-/
def plainWords : (fuel : Nat) → (indent : Int) → (read gap : Text) → Scanner → Text × Scanner
  | 0, _, read, _, s => (read, s)
  | fuel + 1, indent, read, gap, s =>
    let n := if s.peek 0 == '#' then 0 else plainLength (s.flow != 0) s.rest
    if n == 0 then (read, s)
    else
      let read := read ++ gap ++ s.rest.take n
      let (gap, s) := plainGap ({ s with keyAllowed := false }.skip n)
      if gap.isEmpty || s.peek 0 == '#' || (s.flow == 0 && s.column < indent) then (read, s)
      else plainWords fuel indent read gap s

/-- Reads a plain scalar. -/
def plain (s : Scanner) : Outcome Scanner := do
  let s ← s.saveKey
  let (text, s) := plainWords (s.size + 1) (s.indent + 1) [] []
    { s with keyAllowed := false }
  return s.push (.scalar text true)

/-- What a letter after a backslash stands for. -/
def escape? : CodePoint → Option Char
  | .char '0' => some '\x00'
  | .char 'a' => some '\x07'
  | .char 'b' => some '\x08'
  | .char 't' => some '\t'
  | .char '\t' => some '\t'
  | .char 'n' => some '\n'
  | .char 'v' => some '\x0b'
  | .char 'f' => some '\x0c'
  | .char 'r' => some '\r'
  | .char 'e' => some '\x1b'
  | .char ' ' => some ' '
  | .char '"' => some '"'
  | .char '\\' => some '\\'
  | .char '/' => some '/'
  | .char 'N' => some '\x85'
  | .char '_' => some '\u00a0'
  | .char 'L' => some '\u2028'
  | .char 'P' => some '\u2029'
  | _ => none

/-- How many hexadecimal digits follow a letter after a backslash. -/
def escapeDigits? : CodePoint → Option Nat
  | .char 'x' => some 2
  | .char 'u' => some 4
  | .char 'U' => some 8
  | _ => none

/-- The number of hexadecimal digits. -/
def hexNumber? : (acc : Nat) → Text → Option Nat
  | acc, [] => some acc
  | acc, c :: rest => do hexNumber? (acc * 16 + (← hexDigit? c)) rest

/-- The character of a code. Codes above those of characters are out of range, and those that need a
sign bit are too large. -/
def ofCode (n : Nat) : Outcome CodePoint :=
  if n < 0x110000 then .ok (.ofNat n)
  else if n < 0x80000000 then .error .outOfRange
  else .error .tooLarge

/-- The breaks of empty lines inside a quoted scalar; a document mark must not stand there. -/
def quotedBreaks : (fuel : Nat) → Text → Scanner → Outcome (Text × Scanner)
  | 0, _, _ => refuse
  | fuel + 1, breaks, s =>
    if s.column == 0 && s.atAnyMark then refuse
    else
      match s.rest with
      | [] => .ok (breaks, s)
      | c :: _ =>
        if c == ' ' || c == '\t' then quotedBreaks fuel breaks s.advance
        else if isBreak c then quotedBreaks fuel (breaks ++ [breakText c]) s.advance
        else .ok (breaks, s)

/-- What a backslash and the text after it stand for. -/
def escaped (s : Scanner) : Outcome (Text × Scanner) :=
  let e := s.peek 1
  match s.rest.drop 1, escape? e, escapeDigits? e with
  | [], _, _ => refuse
  | _, some c, _ => .ok ([c], s.skip 2)
  | _ :: after, none, some n =>
    match hexNumber? 0 (after.take n) with
    | some code => do
      if after.length < n then refuse
      else return ([← ofCode code], s.skip (n + 2))
    | none => refuse
  | _, none, none =>
    if isBreak e then quotedBreaks (s.size + 1) [] (s.skip 2) else refuse

/-- Reads a quoted scalar up to its closing quote; `read` is what came before, backwards. -/
def quotedText : (fuel : Nat) → (quote : CodePoint) → (read : Text) → Scanner →
    Outcome (Text × Scanner)
  | 0, _, _, _ => refuse
  | fuel + 1, quote, read, s =>
    match s.rest with
    | [] => refuse
    | c :: rest =>
      if c == quote then
        if quote == '\'' && rest.head? == some '\'' then
          quotedText fuel quote ('\'' :: read) (s.skip 2)
        else .ok (read.reverse, s.advance)
      else if c == '\\' && quote == '"' then do
        let (text, s) ← s.escaped
        quotedText fuel quote (text.reverse ++ read) s
      else if c == ' ' || c == '\t' || isBreak c then
        let (blanks, s) := s.takeWhile fun (c : CodePoint) => c == ' ' || c == '\t'
        match s.rest with
        | [] => refuse
        | c :: _ =>
          if isBreak c then do
            let (breaks, s) ← quotedBreaks (s.size + 1) [] s.advance
            quotedText fuel quote ((folded c breaks).reverse ++ read) s
          else quotedText fuel quote (blanks.reverse ++ read) s
      else quotedText fuel quote (c :: read) s.advance

/-- Reads a quoted scalar. -/
def quoted (s : Scanner) (quote : CodePoint) : Outcome Scanner := do
  let s ← s.saveKey
  let (text, s) ← quotedText (s.size + 1) quote [] { s with keyAllowed := false }.advance
  return s.push (.scalar text false)

/-- What becomes of the line breaks at the end of a block. -/
inductive Chomping where
  | clip | strip | keep
  deriving DecidableEq, Repr

/-- The chomping that a sign asks for. -/
def chomping? : CodePoint → Option Chomping
  | .char '+' => some .keep
  | .char '-' => some .strip
  | _ => none

/-- Reads a digit that says how far in a block stands; zero is refused. -/
def blockIndent (s : Scanner) : Outcome (Option Nat × Scanner) :=
  match asciiDigit? (s.peek 0) with
  | none => .ok (none, s)
  | some 0 => refuse
  | some n => .ok (some n, s.advance)

/-- Reads the header of a block: a sign and a digit, in either order. -/
def blockHeader (s : Scanner) : Outcome (Chomping × Option Nat × Scanner) := do
  let (chomping, indent, s) ← match chomping? (s.peek 0) with
    | some chomping => do
      let (indent, s) ← s.advance.blockIndent
      pure (chomping, indent, s)
    | none => do
      let (indent, s) ← s.blockIndent
      match indent, chomping? (s.peek 0) with
      | some _, some chomping => pure (chomping, indent, s.advance)
      | _, _ => pure (.clip, indent, s)
  if isSpaceOrEnd (s.peek 0) then return (chomping, indent, ← s.skipLineEnd) else refuse

/-- Goes over the empty lines at the start of a block: their breaks, and the furthest column. -/
def blockLead : (fuel : Nat) → (breaks : Text) → (furthest : Nat) → Scanner → Text × Nat × Scanner
  | 0, breaks, furthest, s => (breaks, furthest, s)
  | fuel + 1, breaks, furthest, s =>
    let c := s.peek 0
    if c == ' ' then
      let s := s.advance
      blockLead fuel breaks (max furthest s.column) s
    else if isBreak c then blockLead fuel (breaks ++ [breakText c]) furthest s.advance
    else (breaks, furthest, s)

/-- Goes over blanks up to a column. -/
def skipTo (column : Int) : (fuel : Nat) → Scanner → Scanner
  | 0, s => s
  | fuel + 1, s =>
    if s.column < column && s.peek 0 == ' ' then skipTo column fuel s.advance else s

/-- Goes over empty lines inside a block that stands at a column: their breaks. -/
def blockBreaks (column : Int) : (fuel : Nat) → (breaks : Text) → Scanner → Text × Scanner
  | 0, breaks, s => (breaks, s)
  | fuel + 1, breaks, s =>
    let s := skipTo column s.size s
    let c := s.peek 0
    if isBreak c then blockBreaks column fuel (breaks ++ [breakText c]) s.advance
    else (breaks, s)

/-- Reads the lines of a block that stands at a column. `read` is what came before, `breaks` the
empty lines since, and the result has the last line break and the empty lines after it apart. -/
def blockLines (fold : Bool) (column : Int) :
    (fuel : Nat) → (read last breaks : Text) → Scanner → Text × Text × Text × Scanner
  | 0, read, last, breaks, s => (read, last, breaks, s)
  | fuel + 1, read, last, breaks, s =>
    let isLine (s : Scanner) : Bool := s.column == column && !s.rest.isEmpty
    let isIndented (s : Scanner) : Bool := s.peek 0 == ' ' || s.peek 0 == '\t'
    if !isLine s then (read, last, breaks, s)
    else
      let indented := isIndented s
      let (line, s) := s.takeWhile fun c => !isLineEnd c
      let read := read ++ breaks ++ line
      let (last, s) := match s.rest with
        | [] => ([], s)
        | c :: _ => ([breakText c], s.advance)
      let (breaks, s) := blockBreaks column (s.size + 1) [] s
      if isLine s then
        let read :=
          if fold && last == "\n" && !indented && !isIndented s then
            if breaks.isEmpty then read ++ " " else read
          else read ++ last
        blockLines fold column fuel read last breaks s
      else (read, last, breaks, s)

/-- Reads a block scalar. -/
def block (s : Scanner) (fold : Bool) : Outcome Scanner := do
  let s ← { s with keyAllowed := true }.dropKey
  let (chomping, indent, s) ← s.advance.blockHeader
  let least := max (s.indent + 1) 1
  let (column, breaks, s) : Int × Text × Scanner := match indent with
    | none =>
      let (breaks, furthest, s) := blockLead (s.size + 1) [] 0 s
      (max least furthest, breaks, s)
    | some n =>
      let column := least + n - 1
      let (breaks, s) := blockBreaks column (s.size + 1) [] s
      (column, breaks, s)
  let (read, last, breaks, s) := blockLines fold column (s.size + 1) [] [] breaks s
  let text := match chomping with
    | .strip => read
    | .clip => read ++ last
    | .keep => read ++ last ++ breaks
  return s.push (.scalar text false)

end Componentry.Yaml.Scanner
