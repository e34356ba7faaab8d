import Componentry.Yaml.Token.Directive
import Componentry.Yaml.Token.Scalar

/-!
# The stream of tokens

Tokens are read when they are asked for. A token is ready once it is known whether it is a key, so
the text is read on while a key may have started there; a fault in the text shows when a token is
asked for that cannot be told without it.
-/

namespace Componentry.Yaml.Scanner

/-- Can a plain scalar start here? -/
def startsPlain (s : Scanner) : Bool :=
  let c := s.peek 0
  !(isGap c || Text.has "-?:,[]\x7b\x7d#&*!|>'\"%@`" c) ||
    (!isGap (s.peek 1) && (c == '-' || (s.flow == 0 && (c == '?' || c == ':'))))

/-- Reads one token, at the start of which the scanner stands. -/
def token (s : Scanner) : Outcome Scanner :=
  let c := s.peek 0
  let parted := isGap (s.peek 1)
  if c == '%' && s.column == 0 then s.directive
  else if s.column == 0 && s.atMark "---" then s.mark .documentStart
  else if s.column == 0 && s.atMark "..." then s.mark .documentEnd
  else if c == '[' then s.flowStart .flowSequenceStart
  else if c == '\x7b' then s.flowStart .flowMappingStart
  else if c == ']' then s.flowEnd .flowSequenceEnd
  else if c == '\x7d' then s.flowEnd .flowMappingEnd
  else if c == ',' then s.flowEntry
  else if c == '-' && parted then s.blockEntry
  else if c == '?' && (s.flow != 0 || parted) then s.keyMark
  else if c == ':' && (s.flow != 0 || parted) then s.valueMark
  else if c == '*' then s.named .alias_
  else if c == '&' then s.named .anchor
  else if c == '!' then s.tag
  else if c == '|' && s.flow == 0 then s.block false
  else if c == '>' && s.flow == 0 then s.block true
  else if c == '\'' || c == '"' then s.quoted c
  else if s.startsPlain then s.plain
  else refuse

/-- Reads on by one token, or to the end of the text. -/
def more (s : Scanner) : Outcome Scanner := do
  let s ← (skipGap (s.size + 1) false s).dropStale
  let s := s.unwind s.column
  if s.rest.isEmpty then return { ← (s.unwind (-1)).dropKey with keys := [], done := true }
  else s.token

/-- Reads on until the next token is ready. -/
def fill : (fuel : Nat) → Scanner → Outcome Scanner
  | 0, s => .ok s
  | fuel + 1, s =>
    if s.done then .ok s
    else if s.tokens.size ≤ s.taken then do fill fuel (← s.more)
    else do
      let s ← s.dropStale
      if s.keys.any fun (_, place) => place.token == s.taken then fill fuel (← s.more)
      else return s

/-- The scanner with its next token ready, and that token; none at the end. -/
def next (s : Scanner) : Outcome (Option Token × Scanner) := do
  let s ← fill (s.size + 2) s
  return (s.tokens[s.taken]?, s)

/-- The scanner after its next token. -/
def drop (s : Scanner) : Scanner := { s with taken := s.taken + 1 }

/-- A scanner at the start of a text, in which every character must be allowed. -/
def ofText (text : Text) : Outcome Scanner :=
  if text.all isAllowed then .ok { rest := text } else refuse

end Componentry.Yaml.Scanner
