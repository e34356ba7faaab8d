import Componentry.Program.Run
import Std.Time.Format

/-!
# Command line

Runs the program on the files below the current directory: reads them, does what the arguments say,
and writes the files that are new or have changed.
-/

namespace Componentry.Program

/-- The files below a directory, added to a tree. What cannot be read is passed over. -/
partial def loadBelow (dir : String) (tree : FileTree) : IO FileTree := do
  let mut tree := tree
  for entry in ← (← IO.FS.realPath dir).readDir do
    let path := Path.ofText entry.path.toString
    if ← entry.path.isDir then
      match tree.makeDirs path with
      | (t, none) => tree ← loadBelow entry.path.toString t
      | (_, some _) => pure ()
    else
      try
        match tree.write path (← IO.FS.readBinFile entry.path) with
        | .ok t => tree := t
        | .error _ => pure ()
      catch _ => pure ()
  return tree

/-- Writes the files that `old` does not have in this form. -/
def saveChanges (old new : FileTree) : IO Unit := do
  for (location, bytes) in new.files do
    if old.bytesAt? location != some bytes then
      let path : Path := { absolute := true, names := location }
      IO.FS.createDirAll path.parent.toText.shown
      IO.FS.writeBinFile path.toText.shown bytes

/-- The time, as stores note it. -/
def currentStamp : IO Text := do
  let now ← Std.Time.Timestamp.now
  let moment := Std.Time.DateTime.ofTimestamp now Std.Time.TimeZone.ZoneRules.UTC
  return moment.format "uuuu-MM-dd'T'HH:mm:ss.SSSSSS'Z'"

/-- The variables that matter to a run. -/
def currentEnvironment : IO Environment := do
  let mut found : Environment := []
  for name in ["MELTE_ENV", "NODE_ENV"] do
    match ← IO.getEnv name with
    | some value => found := found ++ [((name : Text), (value : Text))]
    | none => pure ()
  return found

/-- The home directory of the run. -/
def currentHome : IO (Text → Option Path) := do
  let home ← IO.getEnv "HOME"
  return fun user => if user = "" then home.map fun dir => Path.ofText dir else none

end Componentry.Program

open Componentry Program in
/-- Runs the program and returns its exit code. -/
def main (args : List String) : IO UInt32 := do
  let here := (← IO.currentDir).toString
  let cwd := Path.ofText here
  let old ← loadBelow here (.withRoot cwd)
  let host : Host Unit := {
    cwd, environment := ← currentEnvironment, homes := ← currentHome, stamp := ← currentStamp }
  let r := run host (args.map Text.ofString) old ()
  saveChanges old r.tree
  IO.print r.output.shown
  IO.eprint r.errors.shown
  for s in r.served do
    IO.eprintln (Text.shown (s.title ++ " " ++ s.version ++ " cannot listen on " ++
      s.host.getD "" ++ ":" ++ (s.portNumber.map fun n => Text.ofString (toString n)).getD ""))
  match r.outcome with
  | .ok code => return if r.served.isEmpty then UInt32.ofNat code else 1
  | .error f =>
    IO.eprintln (Text.shown (f.kind ++ ": " ++ f.message))
    return 1
