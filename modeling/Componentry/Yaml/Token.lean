import Componentry.Text.Basic
import Componentry.Text.Digit
import Componentry.Yaml.Problem

/-!
# Tokens of configuration files

The tokens that a configuration file is made of, and the state in which a text is read as tokens.
Block collections are told by indentation: a start token stands before their first item and an end
token after their last. A key is known as one only when its colon is met, so its token is put in
front of what was read before; until then the place where the key may have started is kept.
-/

namespace Componentry.Yaml

/-- A tag as written: the handle, if there is one, and what follows it. -/
structure WrittenTag where
  handle : Option Text
  suffix : Text
  deriving DecidableEq, Repr

/-- A token. -/
inductive Token where
  /-- A directive about the version, with the major number. -/
  | version (major : Nat)
  /-- A directive that a handle stands for the start of a tag. -/
  | handle (handle start : Text)
  /-- A directive without a meaning. -/
  | directive
  | documentStart
  | documentEnd
  | blockSequenceStart
  | blockMappingStart
  | blockEnd
  | flowSequenceStart
  | flowMappingStart
  | flowSequenceEnd
  | flowMappingEnd
  | blockEntry
  | flowEntry
  | key
  | value
  | alias_ (name : Text)
  | anchor (name : Text)
  | tag (written : WrittenTag)
  | scalar (text : Text) (plain : Bool)
  deriving DecidableEq, Repr

/-- Does the character end a line? -/
def isBreak (c : CodePoint) : Bool :=
  c == '\n' || c == '\r' || c == '\x85' || c == '\u2028' || c == '\u2029'

/-- Does the character, or the end of the text, end a line? -/
def isLineEnd (c : CodePoint) : Bool := c == '\x00' || isBreak c

/-- Does the character, or the end of the text, part words where a tab does not? -/
def isSpaceOrEnd (c : CodePoint) : Bool := c == ' ' || isLineEnd c

/-- Does the character, or the end of the text, part words? -/
def isGap (c : CodePoint) : Bool := c == '\t' || isSpaceOrEnd c

/-- What a line break stands for in a scalar. -/
def breakText (c : CodePoint) : CodePoint := if c == '\u2028' || c == '\u2029' then c else '\n'

/-- May the character stand in a configuration file? -/
def isAllowed (c : CodePoint) : Bool :=
  c == '\t' || c == '\n' || c == '\r' || c == '\x85' || (' ' ≤ c && c ≤ '~') ||
    ('\u00a0' ≤ c && c ≤ '\ufffd') || 0x10000 ≤ c.toNat

/-- May the character stand in a name? -/
def isNameChar (c : CodePoint) : Bool := c.isAlphanum || c == '-' || c == '_'

/-- A place at which a key may have started. -/
structure KeyPlace where
  /-- The number of tokens before it. -/
  token : Nat
  /-- Must a colon follow? -/
  required : Bool
  index : Nat
  line : Nat
  column : Nat

/-- A text that has been read in part. -/
structure Scanner where
  rest : Text
  /-- The length of the whole text, which bounds how far anything is read. -/
  size : Nat := rest.length
  index : Nat := 0
  line : Nat := 0
  column : Nat := 0
  /-- How many flow collections are open. -/
  flow : Nat := 0
  /-- The column of the innermost block collection, and those around it. -/
  indent : Int := -1
  indents : List Int := []
  keyAllowed : Bool := true
  /-- Where keys may have started, by the number of open flow collections. -/
  keys : List (Nat × KeyPlace) := []
  tokens : Array Token := #[]
  /-- How many of the tokens have been taken. -/
  taken : Nat := 0
  /-- Has the end of the text been read? -/
  done : Bool := false

namespace Scanner

/-- The character `n` places ahead, zero at the end. -/
def peek (s : Scanner) (n : Nat) : CodePoint := (s.rest[n]?).getD '\x00'

/-- The scanner one character on. -/
def advance (s : Scanner) : Scanner :=
  match s.rest with
  | [] => s
  | c :: rest =>
    if isBreak c then { s with rest, index := s.index + 1, line := s.line + 1, column := 0 }
    else if c == '\ufeff' then { s with rest, index := s.index + 1 }
    else { s with rest, index := s.index + 1, column := s.column + 1 }

/-- The scanner `n` characters on. -/
def skip (s : Scanner) : Nat → Scanner
  | 0 => s
  | n + 1 => skip s.advance n

/-- The characters ahead that satisfy `p`, and the scanner after them. -/
def takeWhile (s : Scanner) (p : CodePoint → Bool) : Text × Scanner :=
  let taken := s.rest.takeWhile p
  (taken, s.skip taken.length)

/-- The scanner after the blanks ahead. -/
def skipSpaces (s : Scanner) : Scanner := (s.takeWhile fun (c : CodePoint) => c == ' ').2

/-- The scanner with one more token. -/
def push (s : Scanner) (t : Token) : Scanner := { s with tokens := s.tokens.push t }

/-- Is there a document mark here? -/
def atMark (s : Scanner) (mark : Text) : Bool := Text.startsWith mark s.rest && isGap (s.peek 3)

/-- Is there a mark of either kind here? -/
def atAnyMark (s : Scanner) : Bool := s.atMark "---" || s.atMark "..."

/-- Goes on to the next token, over blanks, comments and ends of lines. -/
def skipGap : (fuel : Nat) → (inComment : Bool) → Scanner → Scanner
  | 0, _, s => s
  | fuel + 1, inComment, s =>
    match s.rest with
    | [] => s
    | c :: _ =>
      if isBreak c then
        skipGap fuel false { s.advance with keyAllowed := s.keyAllowed || s.flow == 0 }
      else if inComment || c == ' ' || (c == '\ufeff' && s.index == 0) then
        skipGap fuel inComment s.advance
      else if c == '#' then skipGap fuel true s.advance
      else s

/-- Goes over the blanks and the comment that end a line, and over the end of the line. -/
def skipLineEnd (s : Scanner) : Outcome Scanner :=
  let s := s.skipSpaces
  let s := if s.peek 0 == '#' then (s.takeWhile fun c => !isLineEnd c).2 else s
  if isLineEnd (s.peek 0) then .ok s.advance else refuse

/-- Forgets places of keys that are too far back; none of them may need a colon. -/
def dropStale (s : Scanner) : Outcome Scanner :=
  let isStale (k : KeyPlace) : Bool := k.line != s.line || 1024 < s.index - k.index
  if s.keys.any fun (_, k) => isStale k && k.required then refuse
  else .ok { s with keys := s.keys.filter fun (_, k) => !isStale k }

/-- Forgets the place of a key among the present flow collections. -/
def dropKey (s : Scanner) : Outcome Scanner :=
  if s.keys.any fun (level, k) => level == s.flow && k.required then refuse
  else .ok { s with keys := s.keys.filter fun (level, _) => level != s.flow }

/-- Notes that a key may start here. -/
def saveKey (s : Scanner) : Outcome Scanner :=
  if s.keyAllowed then do
    let s ← s.dropKey
    let place : KeyPlace :=
      { token := s.tokens.size, required := s.flow == 0 && s.indent == s.column
        index := s.index, line := s.line, column := s.column }
    return { s with keys := (s.flow, place) :: s.keys }
  else .ok s

/-- Ends the block collections that stand further in than `column`. -/
def unwindFrom (column : Int) : List Int → Scanner → Scanner
  | [], s => s
  | outer :: indents, s =>
    if s.flow == 0 && column < s.indent then
      unwindFrom column indents { s.push .blockEnd with indent := outer, indents }
    else s

/-- Ends the block collections that stand further in than `column`. -/
def unwind (s : Scanner) (column : Int) : Scanner := unwindFrom column s.indents s

/-- Starts a block collection at `column` if it stands further in than the present one. -/
def indentTo (s : Scanner) (column : Nat) : Option Scanner :=
  if s.indent < column then
    some { s with indents := s.indent :: s.indents, indent := column }
  else none

/-- Ends all blocks; no key may start before the next line. -/
def endBlocks (s : Scanner) : Outcome Scanner := do
  let s ← (s.unwind (-1)).dropKey
  return { s with keyAllowed := false }

/-- Reads a document mark. -/
def mark (s : Scanner) (t : Token) : Outcome Scanner := do
  return ((← s.endBlocks).skip 3).push t

/-- Starts a flow collection. -/
def flowStart (s : Scanner) (t : Token) : Outcome Scanner := do
  let s ← s.saveKey
  return { s with flow := s.flow + 1, keyAllowed := true }.advance.push t

/-- Ends a flow collection. -/
def flowEnd (s : Scanner) (t : Token) : Outcome Scanner := do
  let s ← s.dropKey
  return { s with flow := s.flow - 1, keyAllowed := false }.advance.push t

/-- Reads a comma. -/
def flowEntry (s : Scanner) : Outcome Scanner := do
  let s ← { s with keyAllowed := true }.dropKey
  return s.advance.push .flowEntry

/-- Starts a block collection here, if one can start and none has. -/
def blockStart (s : Scanner) (t : Token) : Outcome Scanner :=
  if s.flow != 0 then .ok s
  else if s.keyAllowed then
    match s.indentTo s.column with
    | some s => .ok (s.push t)
    | none => .ok s
  else refuse

/-- Reads the dash of an item. -/
def blockEntry (s : Scanner) : Outcome Scanner := do
  let s ← s.blockStart .blockSequenceStart
  let s ← { s with keyAllowed := true }.dropKey
  return s.advance.push .blockEntry

/-- Reads the mark of a key. -/
def keyMark (s : Scanner) : Outcome Scanner := do
  let s ← s.blockStart .blockMappingStart
  let s ← { s with keyAllowed := s.flow == 0 }.dropKey
  return s.advance.push .key

/-- The tokens with some more of them at a place. -/
def insertTokens (tokens : Array Token) (place : Nat) (more : List Token) : Array Token :=
  (tokens.toList.take place ++ more ++ tokens.toList.drop place).toArray

/-- Reads the colon of a value. What was read last is its key if a key may have started there. -/
def valueMark (s : Scanner) : Outcome Scanner :=
  match s.keys.find? fun (level, _) => level == s.flow with
  | some (_, place) =>
    let s := { s with keys := s.keys.filter fun (level, _) => level != s.flow }
    let indented := if s.flow == 0 then s.indentTo place.column else none
    let s := match indented with
      | some s => { s with tokens := insertTokens s.tokens place.token [.blockMappingStart, .key] }
      | none => { s with tokens := insertTokens s.tokens place.token [.key] }
    .ok ({ s with keyAllowed := false }.advance.push .value)
  | none => do
    let s ← s.blockStart .blockMappingStart
    let s ← { s with keyAllowed := s.flow == 0 }.dropKey
    return s.advance.push .value

/-- Reads an anchor or an alias. -/
def named (s : Scanner) (token : Text → Token) : Outcome Scanner := do
  let s ← s.saveKey
  let (name, s) := { s with keyAllowed := false }.advance.takeWhile isNameChar
  if name.isEmpty || !(isGap (s.peek 0) || Text.has "?:,]\x7d%@`" (s.peek 0)) then refuse
  else .ok (s.push (token name))

end Scanner

end Componentry.Yaml
