import Componentry.Text.Blank
import Componentry.Text.Scan

/-!
# Attributes

The attributes of a tag: names, bare or with a value that is quoted or not. What fits no attribute
is passed over, and the last attribute of a name wins.
-/

namespace Componentry.Markup

/-- Attributes in the order in which their names first occur; a bare one has no value. -/
abbrev Attributes := List (Text × Option Text)

/-- May `c` be part of an attribute's name? -/
def isNameChar (c : CodePoint) : Bool :=
  !isBlank c && c != '=' && c != '/' && c != '>' && c != '"' && c != '\''

/-- May `c` be part of a value without quotes? -/
def isValueChar (c : CodePoint) : Bool := !isBlank c && c != '"' && c != '\'' && c != '>'

/-- The text up to the quote `q`, and the length with that quote. -/
def quotedValue? (q : CodePoint) (s : Text) : Option (Text × Nat) :=
  (Text.cut? [q] s).map fun (value, _) => (value, value.length + 1)

/-- A value at the start of the text, and its length. -/
def value? : Text → Option (Text × Nat)
  | .char '"' :: s => (quotedValue? '"' s).map fun (value, n) => (value, n + 1)
  | .char '\'' :: s => (quotedValue? '\'' s).map fun (value, n) => (value, n + 1)
  | s =>
    match s.takeWhile isValueChar with
    | [] => none
    | value => some (value, value.length)

/-- An equals sign and a value, with blanks allowed around the sign, and their length. -/
def assignment? (s : Text) : Option (Text × Nat) :=
  match s.dropWhile isBlank with
  | .char '=' :: rest =>
    let body := rest.dropWhile isBlank
    (value? body).map fun (value, n) => (value, s.length - body.length + n)
  | _ => none

/-- An attribute at the start of the text, and its length. -/
def attribute? (s : Text) : Option ((Text × Option Text) × Nat) :=
  match s.takeWhile isNameChar with
  | [] => none
  | name =>
    match assignment? (s.dropWhile isNameChar) with
    | some (value, n) => some ((name, some value), name.length + n)
    | none => some ((name, none), name.length)

/-- Sets an attribute, in the place of an earlier one of its name. -/
def Attributes.set (name : Text) (value : Option Text) : Attributes → Attributes
  | [] => [(name, value)]
  | (n, v) :: rest =>
    if n = name then (n, value) :: rest else (n, v) :: Attributes.set name value rest

/-- The attributes of the text between a tag's name and its end. -/
def Attributes.parse (raw : Text) : Attributes :=
  (Text.scan attribute? raw).foldl
    (fun attributes found =>
      attributes.set found.value.1 (found.value.2)) []

/-- Does the tag have the attribute `name`, bare or not? -/
def Attributes.has (name : Text) (attributes : Attributes) : Bool :=
  attributes.any fun (n, _) => n == name

/-- The value of the attribute `name`, if it has one. -/
def Attributes.value? (name : Text) (attributes : Attributes) : Option Text :=
  (attributes.find? fun (n, _) => n == name).bind Prod.snd

end Componentry.Markup
