import Componentry.Text.Basic
import Componentry.Text.Digit
import Componentry.Text.Search

/-!
# Tags

A tag says what kind of value a node is. It is written out, or it follows from the node: a sequence
and a mapping have tags of their own, a quoted scalar is a text, and a plain scalar is what it looks
like. Numbers may have underscores between their digits, and may be written in base sixty with
colons.
-/

namespace Componentry.Yaml

/-- The kinds of values. -/
inductive Tag where
  | null | bool | int | float | binary | timestamp
  | text | sequence | mapping | set | orderedMap | pairs
  /-- The mark of a key whose value is merged into its mapping. -/
  | merge
  /-- The mark of a key whose value stands for its mapping. -/
  | default
  /-- A kind that has no values here. -/
  | other
  deriving DecidableEq, Repr, Inhabited

namespace Tag

/-- What the names of the common tags start with. -/
def commonStart : Text := "tag:yaml.org,2002:"

/-- The tag of a name. -/
def ofName (name : Text) : Tag :=
  match (Text.after? commonStart name).bind Text.toString? with
  | some "null" => .null
  | some "bool" => .bool
  | some "int" => .int
  | some "float" => .float
  | some "binary" => .binary
  | some "timestamp" => .timestamp
  | some "str" => .text
  | some "seq" => .sequence
  | some "map" => .mapping
  | some "set" => .set
  | some "omap" => .orderedMap
  | some "pairs" => .pairs
  | some "merge" => .merge
  | some "value" => .default
  | _ => .other

/-- Is this a digit or an underscore? -/
def isDigitOrLine (c : CodePoint) : Bool := c.isDigit || c == '_'

/-- A text without one sign at its start. -/
def unsigned : Text → Text
  | .char '-' :: rest => rest
  | .char '+' :: rest => rest
  | rest => rest

/-- Are these one or two digits of base sixty? -/
def isSixtieth : Text → Bool
  | [d] => d.isDigit
  | [t, d] => '0' ≤ t && t ≤ '5' && d.isDigit
  | _ => false

/-- Is there at least one character, and do all satisfy `p`? -/
def isRun (p : CodePoint → Bool) (s : Text) : Bool := !s.isEmpty && s.all p

/-- Is this a digit from `least` on, and then digits and underscores? -/
def isWhole (least : CodePoint) : Text → Bool
  | c :: rest => least ≤ c && c ≤ '9' && rest.all isDigitOrLine
  | [] => false

/-- Numbers in base sixty after a first one. -/
def isSexagesimal (least : CodePoint) (s : Text) : Bool :=
  match Text.splitOn ':' s with
  | head :: part :: parts => isWhole least head && (part :: parts).all isSixtieth
  | _ => false

/-- Does the text look like an integer? -/
def looksInt (s : Text) : Bool :=
  let body := unsigned s
  let octal := match body with
    | .char '0' :: rest => isRun (fun c => ('0' ≤ c && c ≤ '7') || c == '_') rest
    | _ => false
  let binary := match body with
    | .char '0' :: .char 'b' :: rest =>
      isRun (fun (c : CodePoint) => c == '0' || c == '1' || c == '_') rest
    | _ => false
  let hexadecimal := match body with
    | .char '0' :: .char 'x' :: rest => isRun (fun c => (hexDigit? c).isSome || c == '_') rest
    | _ => false
  body == "0" || octal || binary || hexadecimal || isWhole '1' body || isSexagesimal '1' body

/-- Is this nothing, or a letter, a sign and digits? -/
def looksExponent : Text → Bool
  | [] => true
  | e :: sign :: digits =>
    (e == 'e' || e == 'E') && (sign == '+' || sign == '-') && isRun CodePoint.isDigit digits
  | _ => false

/-- Are these digits after a point, and an exponent? -/
def looksFraction (s : Text) : Bool := looksExponent (s.dropWhile isDigitOrLine)

/-- Does the text look like a floating point number? It has a point. -/
def looksFloat (s : Text) : Bool :=
  let isOneOf (words : List Text) (t : Text) : Bool := words.any fun w => w == t
  let body := unsigned s
  isOneOf [".nan", ".NaN", ".NAN"] s || isOneOf [".inf", ".Inf", ".INF"] body ||
    (match s with
      | .char '.' :: d :: rest => d.isDigit && looksFraction rest
      | _ => false) ||
    (match Text.cut? "." body with
      | some (whole, rest) =>
        (isWhole '0' whole && looksFraction rest) ||
          (isSexagesimal '0' whole && rest.all isDigitOrLine)
      | none => false)

/-- The text after between `least` and two digits. -/
def afterDigits? (least : Nat) (s : Text) : Option Text :=
  let digits := (s.take 2).takeWhile CodePoint.isDigit
  if digits.length < least then none else some (s.drop digits.length)

/-- Is this a blank inside a line? -/
def isSpaceOrTab (c : CodePoint) : Bool := c == ' ' || c == '\t'

/-- Is this a zone: nothing, or a letter or an offset after blanks? -/
def looksZone (s : Text) : Bool :=
  match s.dropWhile isSpaceOrTab with
  | [] => s.isEmpty
  | [.char 'Z'] => true
  | sign :: rest =>
    (sign == '+' || sign == '-') &&
      match afterDigits? 1 rest with
      | some [] => true
      | some (.char ':' :: rest) => afterDigits? 2 rest == some []
      | _ => false

/-- The text after a time of day and its fraction. -/
def afterClock? (s : Text) : Option Text := do
  let rest ← Text.after? ":" (← afterDigits? 1 s)
  let rest ← Text.after? ":" (← afterDigits? 2 rest)
  let rest ← afterDigits? 2 rest
  match rest with
  | .char '.' :: rest => some (rest.dropWhile CodePoint.isDigit)
  | rest => some rest

/-- The text after the mark or the blanks between a date and a time. -/
def afterDateGap? : Text → Option Text
  | .char 'T' :: rest => some rest
  | .char 't' :: rest => some rest
  | c :: rest =>
    if isSpaceOrTab c then some (rest.dropWhile isSpaceOrTab) else none
  | [] => none

/-- The text after a date, in which the month and the day have `least` digits or two. -/
def afterDate? (least : Nat) (s : Text) : Option Text :=
  if isRun CodePoint.isDigit (s.take 4) && (s.take 4).length == 4 then do
    let rest ← Text.after? "-" (s.drop 4)
    let rest ← Text.after? "-" (← afterDigits? least rest)
    afterDigits? least rest
  else none

/-- Does the text look like a date with a time? -/
def looksMoment (s : Text) : Bool :=
  match ((afterDate? 1 s).bind afterDateGap?).bind afterClock? with
  | some rest => looksZone rest
  | none => false

/-- Does the text look like a date, with or without a time? A date alone has all its digits. -/
def looksTimestamp (s : Text) : Bool := afterDate? 2 s == some [] || looksMoment s

/-- The tag of a plain scalar. A line break at its end counts for nothing. The marks of tags,
anchors and aliases have a kind of their own, which has no values. -/
def ofPlain (s : Text) : Tag :=
  let s := if 1 < s.length && s.getLast? == some '\n' then s.dropLast else s
  let isOneOf (words : List Text) : Bool := words.any fun w => w == s
  if isOneOf ["yes", "Yes", "YES", "no", "No", "NO", "true", "True", "TRUE", "false", "False",
      "FALSE", "on", "On", "ON", "off", "Off", "OFF"] then .bool
  else if looksFloat s then .float
  else if looksInt s then .int
  else if isOneOf ["<<"] then .merge
  else if isOneOf ["", "~", "null", "Null", "NULL"] then .null
  else if looksTimestamp s then .timestamp
  else if isOneOf ["="] then .default
  else if isOneOf ["!", "&", "*"] then .other
  else .text

end Tag

end Componentry.Yaml
