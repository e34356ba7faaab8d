import Componentry.Yaml.Value

/-!
# Showing values

How values of configuration files are written in messages and in settings. A collection that stands
inside itself is written as dots. An integer with too many digits cannot be written at all, nor can
what stands too far down.
-/

namespace Componentry.Yaml

/-- One byte of shown bytes, `q` being the quote in use. -/
def byteText (q : CodePoint) (b : UInt8) : Text :=
  let c := CodePoint.ofNat b.toNat
  if c = q ∨ c = '\\' then ['\\', c]
  else if c = '\t' then "\\t"
  else if c = '\n' then "\\n"
  else if c = '\r' then "\\r"
  else if ' ' ≤ c ∧ c ≤ '~' then [c]
  else '\\' :: 'x' :: Text.hexFixed 2 b.toNat

/-- Bytes as they are shown. -/
def bytesText (bytes : List UInt8) : Text :=
  let q := Text.quoteFor (bytes.map fun b => CodePoint.ofNat b.toNat)
  'b' :: q :: (bytes.flatMap (byteText q) ++ [q])

/-- A number as it is shown; it must not be too long. -/
def numberText (n : Int) : Outcome Text :=
  match Numeral.shown? n with
  | some text => .ok text
  | none => .error .outOfRange

/-- A scalar as it is shown inside a message, texts quoted. -/
def Scalar.literal : Scalar → Outcome Text
  | .null => .ok "None"
  | .bool true => .ok "True"
  | .bool false => .ok "False"
  | .int n => numberText n
  | .float x => .ok x.text
  | .nan _ => .ok Binary64.nan.text
  | .text s => .ok (quote s)
  | .bytes value => .ok (bytesText value)
  | .day d => .ok d.literal
  | .moment m => .ok m.literal

/-- A scalar as text. -/
def Scalar.shown : Scalar → Outcome Text
  | .text s => .ok s
  | .day d => .ok d.shown
  | .moment m => .ok m.shown
  | s => s.literal

namespace Document

/-- Texts with commas between them. -/
def commas (texts : List Text) : Text := Text.join ", " texts

/-- What is written for a collection inside itself. -/
def dots : Collection → Text
  | .sequence _ => "[...]"
  | .pairs _ => "[...]"
  | .mapping _ => "\x7b...\x7d"
  | .set _ => "set(...)"

/-- A value as it is shown inside a message, `around` being the collections that it stands in and
`depth` their number; the members of sets and of pairs count as one further down. -/
def literalIn (d : Document) :
    (fuel : Nat) → (depth : Nat) → (around : List Nat) → Value → Outcome Text
  | 0, _, _, _ => .error .tooDeep
  | fuel + 1, depth, around, v => do
    if maxChain < depth then throw .tooDeep
    match v with
    | .scalar s => s.literal
    | .collection at_ =>
      let content := (d.collections.lookup at_).getD (.sequence [])
      if around.elem at_ then return dots content
      else
        let inner := literalIn d fuel (depth + 1) (at_ :: around)
        let innermost := literalIn d fuel (depth + 2) (at_ :: around)
        match content with
        | .sequence items => return '[' :: (commas (← items.mapM inner) ++ "]")
        | .mapping pairs => do
          let texts ← pairs.mapM fun (k, v) => do return (← inner k) ++ ": " ++ (← inner v)
          return '\x7b' :: (commas texts ++ "\x7d")
        | .set [] => return "set()"
        | .set items => return '\x7b' :: (commas (← items.mapM innermost) ++ "\x7d")
        | .pairs pairs => do
          let texts ← pairs.mapM fun (k, v) => do
            return '(' :: ((← innermost k) ++ ", " ++ (← innermost v) ++ ")")
          return '[' :: (commas texts ++ "]")

/-- A value as it is shown inside a message. -/
def literal (d : Document) (v : Value) : Outcome Text :=
  d.literalIn (d.collections.length + 2) 0 [] v

/-- A value as text. -/
def shown (d : Document) : Value → Outcome Text
  | .scalar s => s.shown
  | v => d.literal v

end Document

end Componentry.Yaml
