import Componentry.Markup.Block

/-!
# Sections

A document that consists of `head` and `body` elements only is no component: its sections are
registered as they are. Comments count for nothing, and tags may be in any letter case.
-/

namespace Componentry.Markup

/-- The two sections of a page. -/
inductive SectionName where
  | head
  | body
  deriving DecidableEq, Repr

/-- The tag of a section. -/
def SectionName.tag : SectionName → Text
  | .head => "head"
  | .body => "body"

/-- A section and the text inside its element. -/
structure Section where
  name : SectionName
  data : Text

/-- What follows `p` at the start of `s`, letters compared without case; `p` is in lower case. -/
def afterAnyCase? : (p s : Text) → Option Text
  | [], s => some s
  | _ :: _, [] => none
  | a :: p, b :: s => if a = b.toLower then afterAnyCase? p s else none

/-- The text before the first `needle`, letters compared without case. -/
def beforeAnyCase? (needle : Text) : Text → Option Text
  | [] => none
  | c :: s =>
    if (afterAnyCase? needle (c :: s)).isSome then some []
    else (beforeAnyCase? needle s).map (c :: ·)

/-- The element's data, `rest` being the text after its opening tag of `opening` characters. -/
def sectionBody? (name : SectionName) (rest : Text) (opening : Nat) : Option (Section × Nat) :=
  let closing := "</" ++ name.tag ++ ">"
  (beforeAnyCase? closing rest).map fun data =>
    (⟨name, data⟩, opening + data.length + closing.length)

/-- An element of this name at the start of the text, and its length. -/
def sectionNamed? (name : SectionName) (s : Text) : Option (Section × Nat) := do
  let opened := "<" ++ name.tag
  let rest ← afterAnyCase? opened s
  match rest with
  | .char '>' :: body => sectionBody? name body (opened.length + 1)
  | c :: _ =>
    if isBlank c then
      let (attributes, body) ← Text.cut? ">" rest
      sectionBody? name body (opened.length + attributes.length + 1)
    else none
  | [] => none

/-- An element of either name at the start of the text, and its length. -/
def section? (s : Text) : Option (Section × Nat) :=
  (sectionNamed? .head s).or (sectionNamed? .body s)

/-- The sections of a text that consists of elements with blanks between them. -/
def sectionsFrom : (skip : Nat) → Text → Option (List Section)
  | _, [] => some []
  | skip + 1, _ :: s => sectionsFrom skip s
  | 0, c :: s =>
    if isBlank c then sectionsFrom 0 s
    else
      match section? (c :: s) with
      | some (found, length) => (sectionsFrom (length - 1) s).map (found :: ·)
      | none => none

/-- The sections of a document, if it consists of nothing else. -/
def sections? (source : Text) : Option (List Section) :=
  (sectionsFrom 0 (Text.trim (Text.remove comment? source))).filter fun found => !found.isEmpty

end Componentry.Markup
