import Componentry.Text.Basic

/-!
# Paths

A path is a list of names, absolute or not. Empty names and `.` vanish when a path is read; `..`
stays, since what it means depends on the files. A path that starts with exactly two slashes keeps
both of them in its text.
-/

namespace Componentry

/-- A path of names. -/
structure Path where
  absolute : Bool
  names : List Text
  doubled : Bool := false
  deriving DecidableEq, Repr, Inhabited

namespace Path

/-- Reads a path, names being parted by slashes. -/
def ofText (s : Text) : Path :=
  { absolute := s.head? == some '/'
    names := (Text.splitOn '/' s).filter fun n => n != "" && n != "."
    doubled := Text.startsWith "//" s && !Text.startsWith "///" s }

/-- The path as text. -/
def toText (p : Path) : Text :=
  match p.absolute, p.names with
  | true, names => (if p.doubled then "//" else "/" : Text) ++ Text.join "/" names
  | false, [] => "."
  | false, names => Text.join "/" names

/-- `right` seen from `left`; an absolute path stays what it is. -/
def join (left right : Path) : Path :=
  if right.absolute then right else { left with names := left.names ++ right.names }

/-- The path `s` seen from `p`. -/
def child (p : Path) (s : Text) : Path := p.join (ofText s)

/-- The last name, empty if there is none. -/
def name (p : Path) : Text := p.names.getLast?.getD ""

/-- The path without its last name. -/
def parent (p : Path) : Path := { p with names := p.names.dropLast }

/-- The last name replaced. There must be one, and the new one must be a single name. -/
def withName? (p : Path) (n : Text) : Option Path :=
  if p.names.isEmpty || n == "" || n == "." || n.has '/' then none
  else some { p with names := p.names.dropLast ++ [n] }

/-- The last name from its last dot on, unless the dot comes first or last. -/
def extension (p : Path) : Text :=
  match Text.splitLast '.' p.name with
  | (some (_ :: _), ext@(_ :: _)) => '.' :: ext
  | _ => ""

/-- Is there a zero character in the path? -/
def hasNull (p : Path) : Bool := p.names.any fun n => n.has '\x00'

/-- The names with every `..` taking away the name before it. -/
def normalNames : (kept : List Text) → List Text → List Text
  | kept, [] => kept
  | kept, n :: rest =>
    if n = ".." then normalNames kept.dropLast rest else normalNames (kept ++ [n]) rest

/-- The absolute path without `..`, seen from the directory `cwd`. -/
def resolve (cwd p : Path) : Path :=
  { absolute := true, names := normalNames [] (cwd.join p).names }

/-- The owner of the home directory that a path starts in: what follows the tilde. -/
def owner? (p : Path) : Option Text :=
  match p.absolute, p.names.head? with
  | false, some (.char '~' :: user) => some user
  | _, _ => none

/-- A path whose first name starts with a tilde starts in a home directory, which `homes` gives for
what follows the tilde. -/
def fromHome? (homes : Text → Option Path) (p : Path) : Option Path :=
  match p.absolute, p.names with
  | false, n :: rest =>
    match n with
    | .char '~' :: user =>
      (homes user).map fun home => { home with names := home.names ++ rest }
    | _ => some p
  | _, _ => some p

/-- The names of `p` below `root`. -/
def below? (root p : Path) : Option (List Text) :=
  if root.absolute == p.absolute && root.names.isPrefixOf p.names then
    some (p.names.drop root.names.length)
  else none

/-- The path relative to `root` where it lies below it, else in full. -/
def relativeTo (root p : Path) : Text :=
  match below? root p with
  | some names => toText { absolute := false, names }
  | none => toText p

end Path

end Componentry
