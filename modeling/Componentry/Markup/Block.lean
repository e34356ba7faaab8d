import Componentry.Markup.Attributes

/-!
# Blocks

The script and style blocks of a document. Comments hide what is in them, a self-closing tag has no
content, and a block ends at the first closing tag of its kind.
-/

namespace Componentry.Markup

/-- The two kinds of blocks. -/
inductive Kind where
  | script
  | style
  deriving DecidableEq, Repr

/-- The tag of a kind of block. -/
def Kind.tag : Kind → Text
  | .script => "script"
  | .style => "style"

/-- The closing tag of a kind of block. -/
def Kind.closing (k : Kind) : Text := "</" ++ k.tag ++ ">"

/-- A block of a document; `start` and `stop` are the offsets around its content. -/
structure Block where
  kind : Kind
  content : Text
  attributes : Attributes
  start : Nat
  stop : Nat

/-- The block's language, if its `lang` attribute has a value. -/
def Block.lang (b : Block) : Option Text := b.attributes.value? "lang"

/-- What a scan for blocks can find. -/
inductive Item where
  | comment
  | selfClosing
  /-- A block: its tag's text after the name, and its content. -/
  | block (kind : Kind) (raw content : Text)

/-- A comment at the start of the text, and its length. -/
def comment? (s : Text) : Option (Unit × Nat) := do
  let rest ← Text.after? "<!--" s
  let (body, _) ← Text.cut? "-->" rest
  return ((), body.length + 7)

/-- A block whose tag has the text `raw` after its name; `rest` is the text after the tag, which
takes `opening` characters. -/
def blockBody? (kind : Kind) (raw rest : Text) (opening : Nat) : Option (Item × Nat) :=
  (Text.cut? kind.closing rest).map fun (content, _) =>
    (.block kind raw content, opening + content.length + kind.closing.length)

/-- A block or self-closing tag of this kind at the start of the text, and its length. -/
def element? (kind : Kind) (s : Text) : Option (Item × Nat) := do
  let opened := "<" ++ kind.tag
  let rest ← Text.after? opened s
  match rest with
  | .char '>' :: body => blockBody? kind [] body (opened.length + 1)
  | .char '/' :: .char '>' :: _ => some (.selfClosing, opened.length + 2)
  | c :: _ =>
    if isBlank c then
      let (raw, body) ← Text.cut? ">" rest
      if raw.getLast? = some '/' then some (.selfClosing, opened.length + raw.length + 1)
      else blockBody? kind raw body (opened.length + raw.length + 1)
    else none
  | [] => none

/-- What starts at the start of the text, and its length. -/
def item? (s : Text) : Option (Item × Nat) :=
  match comment? s with
  | some (_, n) => some (.comment, n)
  | none => (element? .script s).or (element? .style s)

/-- The block that a match is. -/
def Block.ofFound (found : Text.Found Item) : Option Block :=
  match found.value with
  | .block kind raw content =>
    let start := found.stop - kind.closing.length - content.length
    some ⟨kind, content, Attributes.parse raw, start, start + content.length⟩
  | _ => none

/-- The blocks of a document, in order. -/
def blocks (source : Text) : List Block := (Text.scan item? source).filterMap Block.ofFound

end Componentry.Markup
