import Componentry.Wire.Decode

/-!
# Files as data

A file tree is read from an object that has a field for each file, and is written as one.
-/

namespace Componentry.Wire

/-- Replaces one text by another in every string of a value. -/
def replaced (this that : Text) : Json → Json :=
  let swap (s : Text) : Text := Text.replaceAll this that s
  go swap
where
  go (swap : Text → Text) : Json → Json
    | .str s => .str (swap s)
    | .arr xs => .arr (goItems swap xs)
    | .obj fs => .obj (goFields swap fs)
    | j => j
  goItems (swap : Text → Text) : List Json → List Json
    | [] => []
    | x :: xs => go swap x :: goItems swap xs
  goFields (swap : Text → Text) : List (Text × Json) → List (Text × Json)
    | [] => []
    | (k, x) :: xs => (swap k, go swap x) :: goFields swap xs

/-- The bytes that pairs of hexadecimal digits stand for. -/
def hexBytes : Text → List UInt8
  | a :: b :: rest =>
    UInt8.ofNat (((hexDigit? a).getD 0) * 16 + (hexDigit? b).getD 0) :: hexBytes rest
  | _ => []

/-- The bytes of a file: a text, or an object with them in hexadecimal. -/
def bytesOf (j : Json) : Except FileError ByteArray :=
  match j with
  | .str s => (encodeUtf8 s).mapError .encode
  | j => .ok ⟨(hexBytes (textAt "hex" j)).toArray⟩

/-- Writes a file with its directories below `root`; a name that ends in a slash makes a directory.
Gives the files then, and the failure. -/
def writeFile (root : Path) (tree : FileTree) (entry : Text × Json) :
    FileTree × Option FileError :=
  let path := root.child entry.1
  if Text.endsWith "/" entry.1 then tree.makeDirs path
  else
    match tree.makeDirs path.parent with
    | (tree, some e) => (tree, some e)
    | (tree, none) =>
      match bytesOf entry.2 >>= tree.write path with
      | .ok tree => (tree, none)
      | .error e => (tree, some e)

/-- Writes files below `root`, up to the first failure: the files then, and the failure. -/
def writeEntries (root : Path) (tree : FileTree) : Json.Fields → FileTree × Option Failure
  | [] => (tree, none)
  | entry :: rest =>
    match writeFile root tree entry with
    | (tree, none) => writeEntries root tree rest
    | (tree, some e) => (tree, some (.file e))

/-- Writes the files of an object below `root`. -/
def writeFiles (root : Path) (tree : FileTree) (files : Json) : FileTree × Option Failure :=
  writeEntries root tree (fields files)

/-- The text of bytes, those that are no text being escaped. -/
def escapedFrom : (fuel : Nat) → List UInt8 → Text
  | 0, _ => []
  | fuel + 1, bytes =>
    match decodeUtf8 ⟨bytes.toArray⟩ with
    | .ok s => s
    | .error e =>
      let good := match decodeUtf8 ⟨(bytes.take e.first).toArray⟩ with
        | .ok s => s
        | .error _ => []
      let bad := (bytes.drop e.first).take 1
      good ++ (bad.flatMap fun b => ("\\x" : Text) ++ Text.hexFixed 2 b.toNat) ++
        escapedFrom fuel (bytes.drop (e.first + 1))

/-- The text of bytes, those that are no text being escaped. -/
def escaped (bytes : ByteArray) : Text :=
  escapedFrom (bytes.size + 1) bytes.toList

/-- An entry of a store without its time. -/
def withoutTime (entry : Text × Json) : Text × Json :=
  match entry with
  | (k, .obj fs) =>
    (k, .obj (fs.map fun (name, v) => (name, if name = "updated_at" then .str "T" else v)))
  | e => e

/-- Is it an object? -/
def isObject : Json → Bool
  | .obj _ => true
  | _ => false

/-- A file as a value: stores and maps are read, others are texts. -/
def snapshotFile (names : List Text) (bytes : ByteArray) : Json :=
  let shown := escaped bytes
  let name := names.getLast?.getD ""
  match Json.parse shown with
  | .error _ => .str shown
  | .ok data =>
    if name = "cache.json" || name = "compile-cache.json" then
      match data.field? "entries" with
      | some (.obj entries) =>
        if entries.all fun (_, v) => isObject v then
          match data with
          | .obj fs => .obj (Json.Fields.set "entries" (.obj (entries.map withoutTime)) fs)
          | j => j
        else .str shown
      | _ => .str shown
    else if Text.endsWith ".map" name then data
    else .str shown

/-- The files below `root`. -/
def snapshot (root : Path) (tree : FileTree) : Json :=
  .obj ((tree.filesBelow root.names).map fun (names, bytes) =>
    (Text.join "/" names, snapshotFile names bytes))

/-- A line of a log file without its timestamp, which has two words. -/
def untimed (line : Text) : Text :=
  match Text.splitOn ' ' line with
  | _ :: _ :: w :: rest => Text.join " " (w :: rest)
  | _ => line

/-- The lines of a log file below `root`; none if there is no such file. -/
def logLines (root : Path) (tree : FileTree) (file : Text) : Json :=
  match tree.readText (root.child file) with
  | .ok s =>
    let lines := if Text.endsWith "\n" s then s.dropLast else s
    .arr (if s = "" then [] else (Text.splitOn '\n' lines).map fun l => .str (untimed l))
  | .error _ => .arr []

end Componentry.Wire
