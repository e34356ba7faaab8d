import Componentry.Files.Decode
import Componentry.Number.Numeral
import Componentry.Yaml.Token

/-!
# Directives and tags

A directive stands on a line of its own before a document: it gives the version, or says what a
handle in a tag stands for; all others are passed over. A tag is a handle and a suffix, a whole name
between angle brackets, or an exclamation mark alone.
-/

namespace Componentry.Yaml.Scanner

/-- May the character stand in a tag? -/
def isTagChar (c : CodePoint) : Bool := c.isAlphanum || Text.has "-;/?:@&=+$,_.!~*'()[]%" c

/-- Bytes written with a percent sign and two digits each. -/
def percentBytes : Text → Outcome (List UInt8 × Text)
  | .char '%' :: a :: b :: rest =>
    match hexDigit? a, hexDigit? b with
    | some a, some b => do
      let (bytes, rest) ← percentBytes rest
      return (UInt8.ofNat (a * 16 + b) :: bytes, rest)
    | _, _ => refuse
  | .char '%' :: _ => refuse
  | rest => .ok ([], rest)

/-- The characters of a tag, bytes that are written with percent signs decoded; `fuel` bounds the
number of their runs. -/
def tagText : (fuel : Nat) → Text → Outcome Text
  | 0, _ => refuse
  | fuel + 1, s => do
    let before := s.takeWhile fun (c : CodePoint) => c != '%'
    match s.dropWhile fun (c : CodePoint) => c != '%' with
    | [] => return before
    | escaped =>
      let (bytes, rest) ← percentBytes escaped
      match decodeUtf8 ⟨bytes.toArray⟩ with
      | .ok decoded => return before ++ decoded ++ (← tagText fuel rest)
      | .error _ => refuse

/-- Reads the characters of a tag; there must be some. -/
def tagName (s : Scanner) : Outcome (Text × Scanner) := do
  let (written, s) := s.takeWhile isTagChar
  if written.isEmpty then refuse
  else return (← tagText (written.length + 1) written, s)

/-- Reads a handle: an exclamation mark, or a name between two. -/
def tagHandle (s : Scanner) : Outcome (Text × Scanner) :=
  if s.peek 0 != '!' then refuse
  else if s.peek 1 == ' ' then .ok ("!", s.advance)
  else
    let name := (s.rest.drop 1).takeWhile isNameChar
    if s.peek (name.length + 1) == '!' then
      .ok ('!' :: (name ++ "!"), s.skip (name.length + 2))
    else refuse

/-- The parts of a tag. -/
def tagParts (s : Scanner) : Outcome (WrittenTag × Scanner) :=
  if s.peek 1 == '<' then do
    let (suffix, s) ← (s.skip 2).tagName
    if s.peek 0 == '>' then return (⟨none, suffix⟩, s.advance) else refuse
  else if isGap (s.peek 1) then .ok (⟨none, "!"⟩, s.advance)
  else do
    let word := (s.rest.drop 1).takeWhile fun c => !isSpaceOrEnd c
    let (handle, s) ← if Text.has word '!' then s.tagHandle else .ok ("!", s.advance)
    let (suffix, s) ← s.tagName
    return (⟨some handle, suffix⟩, s)

/-- Reads a tag. -/
def tag (s : Scanner) : Outcome Scanner := do
  let s ← s.saveKey
  let (written, s) ← { s with keyAllowed := false }.tagParts
  if isSpaceOrEnd (s.peek 0) then return s.push (.tag written) else refuse

/-- Reads one of the two numbers of a version. -/
def versionNumber (s : Scanner) : Outcome (Nat × Scanner) :=
  let (digits, s) := s.takeWhile CodePoint.isDigit
  match digits, Numeral.decimal digits with
  | [], _ => refuse
  | _, .ok n => .ok (n.natAbs, s)
  | _, .error _ => .error .outOfRange

/-- The token of a directive, whose name has been read. -/
def directiveValue (name : Text) (s : Scanner) : Outcome (Token × Scanner) :=
  if name == "YAML" then do
    let (major, s) ← s.skipSpaces.versionNumber
    if s.peek 0 != '.' then refuse
    else
      let (_, s) ← s.advance.versionNumber
      if isSpaceOrEnd (s.peek 0) then return (.version major, s) else refuse
  else if name == "TAG" then do
    let (handle, s) ← s.skipSpaces.tagHandle
    if s.peek 0 != ' ' then refuse
    else
      let (start, s) ← s.skipSpaces.tagName
      if isSpaceOrEnd (s.peek 0) then return (.handle handle start, s) else refuse
  else .ok (.directive, (s.takeWhile fun c => !isLineEnd c).2)

/-- Reads a directive with its line. -/
def directive (s : Scanner) : Outcome Scanner := do
  let (name, s) := (← s.endBlocks).advance.takeWhile isNameChar
  if name.isEmpty || !isSpaceOrEnd (s.peek 0) then refuse
  else
    let (t, s) ← s.directiveValue name
    return (← s.skipLineEnd).push t

end Componentry.Yaml.Scanner
