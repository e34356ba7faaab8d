import Componentry.Text.Digit
import Componentry.Text.Printable

/-!
# Quoted texts

Messages show a text between quotes so that its ends and its invisible characters can be seen.
Single quotes are used unless the text has single quotes and no double ones; the quote in use, the
backslash and the characters that are not printable are escaped.
-/

namespace Componentry

namespace Text

/-- One character of a quoted text, `q` being the quote in use. -/
def quotedChar (q c : CodePoint) : Text :=
  if c = q ∨ c = '\\' then ['\\', c]
  else if c = '\t' then "\\t"
  else if c = '\n' then "\\n"
  else if c = '\r' then "\\r"
  else if isPrintable c then [c]
  else if c.toNat < 0x100 then '\\' :: 'x' :: hexFixed 2 c.toNat
  else if c.toNat < 0x10000 then '\\' :: 'u' :: hexFixed 4 c.toNat
  else '\\' :: 'U' :: hexFixed 8 c.toNat

/-- The quote that shows `s` with the fewest escapes. -/
def quoteFor (s : Text) : CodePoint :=
  if s.has '\'' && !s.has '"' then '"' else '\''

end Text

/-- `s` between quotes, as messages show it. -/
def quote (s : Text) : Text :=
  let q := Text.quoteFor s
  q :: (s.flatMap (Text.quotedChar q) ++ [q])

end Componentry
