import Componentry.Files.Decode
import Componentry.Files.Encode
import Componentry.Files.Name
import Componentry.Files.Path
import Componentry.Text.Quoted

/-!
# File trees

The files a run can see, as a value: reading looks them up, writing gives a new tree. A location is
the list of names that leads to a file or directory from the root.
-/

namespace Componentry

/-- The names from the root of the tree. -/
abbrev Location := List Text

/-- Why files could not be read or written. -/
inductive FileError where
  | notFound (path : Text)
  | isDirectory (path : Text)
  | notDirectory (path : Text)
  | occupied (path : Text)
  /-- A path with a name that no directory can hold, or too long as a whole. -/
  | tooLong (path : Text)
  /-- A path with a zero character. -/
  | nullByte
  /-- A path without a last name, where one is needed. -/
  | noName (path : Text)
  /-- A name that cannot be the last one of a path. -/
  | badName (name : Text)
  | decode (e : DecodeError)
  /-- A path or a text that cannot be written. -/
  | encode (e : EncodeError)
  deriving DecidableEq, Repr

/-- The wording of a file error. -/
def FileError.message : FileError → Text
  | .notFound path => "[Errno 2] No such file or directory: " ++ quote path
  | .isDirectory path => "[Errno 21] Is a directory: " ++ quote path
  | .notDirectory path => "[Errno 20] Not a directory: " ++ quote path
  | .occupied path => "[Errno 17] File exists: " ++ quote path
  | .tooLong path => "[Errno 36] File name too long: " ++ quote path
  | .nullByte => "embedded null byte"
  | .noName path => "PosixPath(" ++ quote path ++ ") has an empty name"
  | .badName name => "Invalid name " ++ quote name
  | .decode e => e.message
  | .encode e => e.message

/-- The last name of `p` replaced by `n`. -/
def Path.renamed (p : Path) (n : Text) : Except FileError Path :=
  if p.names.isEmpty then .error (.noName p.toText)
  else
    match p.withName? n with
    | some q => .ok q
    | none => .error (.badName n)

/-- The absolute path without `..`, seen from the directory `cwd`. Every name on the way must be one
that can be looked up. -/
def Path.resolved (cwd p : Path) : Except FileError Path :=
  if let some e := nameFault? (cwd.join p).toText then .error (.encode e)
  else if p.hasNull then .error .nullByte
  else .ok (cwd.resolve p)

/-- Directories and files. The root is always a directory. -/
structure FileTree where
  dirs : List Location
  files : List (Location × ByteArray)

namespace FileTree

/-- Is there a directory at `loc`? -/
def isDirAt (t : FileTree) (loc : Location) : Bool := loc.isEmpty || t.dirs.contains loc

/-- The bytes of the file at `loc`. -/
def bytesAt? (t : FileTree) (loc : Location) : Option ByteArray :=
  (t.files.find? fun (l, _) => l == loc).map Prod.snd

/-- The most bytes that a name may have. -/
def maxNameBytes : Nat := 255

/-- The most bytes that a path may have. -/
def maxPathBytes : Nat := 4095

/-- Walks from `loc` along names; every place but the last must be a directory. -/
def walk (t : FileTree) (shown : Text) (loc : Location) : List Text → Except FileError Location
  | [] => .ok loc
  | n :: rest =>
    if t.isDirAt loc then
      if maxNameBytes < (nameBytes n).length then .error (.tooLong shown)
      else walk t shown (if n = ".." then loc.dropLast else loc ++ [storedName n]) rest
    else if (t.bytesAt? loc).isSome then .error (.notDirectory shown)
    else .error (.notFound shown)

/-- The location of an absolute path. -/
def locate (t : FileTree) (p : Path) : Except FileError Location :=
  if let some e := nameFault? p.toText then .error (.encode e)
  else if p.hasNull then .error .nullByte
  else if maxPathBytes < (nameBytes p.toText).length then .error (.tooLong p.toText)
  else t.walk p.toText [] p.names

/-- The location of an absolute path, none if it leads nowhere. Only a path that is too long is an
error. -/
def find? (t : FileTree) (p : Path) : Except FileError (Option Location) :=
  match t.locate p with
  | .ok loc => .ok (some loc)
  | .error (.tooLong shown) => .error (.tooLong shown)
  | .error _ => .ok none

/-- Is there a file at `p`? -/
def isFile (t : FileTree) (p : Path) : Except FileError Bool := do
  return (← t.find? p).any fun loc => (t.bytesAt? loc).isSome

/-- Is there a directory at `p`? -/
def isDir (t : FileTree) (p : Path) : Except FileError Bool := do
  return (← t.find? p).any t.isDirAt

/-- Is there anything at `p`? -/
def has (t : FileTree) (p : Path) : Except FileError Bool := do
  return (← t.isFile p) || (← t.isDir p)

/-- The bytes of the file at `p`. -/
def read (t : FileTree) (p : Path) : Except FileError ByteArray := do
  let loc ← t.locate p
  match t.bytesAt? loc with
  | some bytes => return bytes
  | none => .error (if t.isDirAt loc then .isDirectory p.toText else .notFound p.toText)

/-- The text of the file at `p`. -/
def readText (t : FileTree) (p : Path) : Except FileError Text := do
  (decodeFile (← t.read p)).mapError .decode

/-- Puts bytes at `loc`, in the place of an earlier file there. -/
def putAt (files : List (Location × ByteArray)) (loc : Location) (bytes : ByteArray) :
    List (Location × ByteArray) :=
  match files with
  | [] => [(loc, bytes)]
  | (l, b) :: rest => if l = loc then (l, bytes) :: rest else (l, b) :: putAt rest loc bytes

/-- Writes a file; its directory must exist. -/
def write (t : FileTree) (p : Path) (bytes : ByteArray) : Except FileError FileTree := do
  let loc ← t.locate p
  let dir := loc.dropLast
  if t.isDirAt loc then .error (.isDirectory p.toText)
  else if t.isDirAt dir then return { t with files := putAt t.files loc bytes }
  else if (t.bytesAt? dir).isSome then .error (.notDirectory p.toText)
  else .error (.notFound p.toText)

/-- Writes a text; its directory must exist. -/
def writeText (t : FileTree) (p : Path) (s : Text) : Except FileError FileTree := do
  t.write p (← (encodeUtf8 s).mapError .encode)

/-- Makes the directories of `p` from `loc` on, where `walked` leads, up to the first that cannot be
made: the tree then, and why it stopped. The whole path is tried first, and after that one directory
after the other, so that once something is `made` a failure is about the directory it stopped at. -/
def makeFrom (t : FileTree) (p : Path) (made : Bool) (walked : List Text) (loc : Location) :
    List Text → FileTree × Option FileError
  | [] => (t, none)
  | n :: rest =>
    let walked := walked ++ [n]
    let shown := (if made then { p with names := walked } else p).toText
    if n = ".." then makeFrom t p made walked loc.dropLast rest
    else
      let next := loc ++ [storedName n]
      if maxNameBytes < (nameBytes n).length then (t, some (.tooLong shown))
      else if t.isDirAt next then makeFrom t p made walked next rest
      else if (t.bytesAt? next).isSome then
        (t, some (if made || rest.isEmpty then .occupied shown else .notDirectory shown))
      else makeFrom { t with dirs := t.dirs ++ [next] } p true walked next rest

/-- Makes a directory and those above it, up to the first that cannot be made; existing ones are
kept. -/
def makeDirs (t : FileTree) (p : Path) : FileTree × Option FileError :=
  if let some e := nameFault? p.toText then (t, some (.encode e))
  else if p.hasNull then (t, some .nullByte)
  else if maxPathBytes < (nameBytes p.toText).length then (t, some (.tooLong p.toText))
  else t.makeFrom p false [] [] p.names

/-- A tree with nothing but the directory `root` and those above it. -/
def withRoot (root : Path) : FileTree := (makeDirs ⟨[], []⟩ root).1

/-- The files below a location, by the names from there on. -/
def filesBelow (t : FileTree) (loc : Location) : List (List Text × ByteArray) :=
  t.files.filterMap fun (l, bytes) =>
    if loc.isPrefixOf l && loc.length < l.length then some (l.drop loc.length, bytes) else none

end FileTree

end Componentry
