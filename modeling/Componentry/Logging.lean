import Componentry.Files.Tree
import Componentry.Log

/-!
# Log sinks

Where log lines go. A logger that is set up writes to the error stream and, if it has one, to a
file; lines below its level are dropped. One that is not set up writes nothing. Parts of the program
have loggers whose names tell which logger they pass their lines on to.
-/

namespace Componentry

/-- The name of the program's logger. -/
def loggerName : Text := "melte"

/-- The name of the logger of a part of the program. -/
def partLogger (part : Text) : Text :=
  if part = "" then loggerName else loggerName ++ "." ++ part

/-- The names above the name of a logger, nearest first: what stands before its dots, from the last
one on. A dot that another one follows is passed over, unless that one is passed over itself. -/
def namesAbove (name : Text) : List Text := go name.reverse
where
  go : Text → List Text
    | c :: d :: rest => if c == '.' then (d :: rest).reverse :: go rest else go (d :: rest)
    | _ => []

/-- Do lines of the logger `name` come to the program's logger? A logger passes them on to the
nearest one above it, where `known` are the loggers there are beside the program's. -/
def comesUp (known : List Text) (name : Text) : Bool := go name.length name
where
  go : (fuel : Nat) → Text → Bool
    | 0, _ => false
    | fuel + 1, name =>
      if name = loggerName then true
      else
        match (namesAbove name).find? fun n => n == loggerName || known.elem n with
        | some n => go fuel n
        | none => false

/-- How a logger is set up. -/
structure LogSetup where
  level : LogLevel := .info
  file : Option Path := none

namespace LogSetup

/-- The set-up for a choice of verbosity. -/
def of (verbose : Bool) (file : Option Path) : LogSetup where
  level := if verbose then .debug else .info
  file := file

/-- The number of places that lines go to. -/
def sinks (s : LogSetup) : Nat := if s.file.isSome then 2 else 1

/-- Is a line written? -/
def keeps (s : LogSetup) (l : LogLine) : Bool := s.level.rank ≤ l.level.rank

end LogSetup

/-- A logger, with what it has written. -/
structure Logger where
  /-- The time, as log files note it. -/
  stamp : Text
  setup : Option LogSetup := none
  /-- The names of the loggers that were written to. -/
  known : List Text := []
  /-- The lines of the error stream. -/
  stream : List Text := []
  /-- The files, log files among them. -/
  tree : FileTree

namespace Logger

/-- The text of a file with more behind it; a missing file is made. -/
def append (tree : FileTree) (file : Path) (text : Text) : Except FileError FileTree :=
  match tree.read file with
  | .ok bytes => do tree.write file (bytes ++ (← (encodeUtf8 text).mapError .encode))
  | .error _ => tree.writeText file text

/-- Sets up the logger, in the place of how it was set up before. Its file is made at once. -/
def configure (l : Logger) (s : LogSetup) : Except FileError Logger :=
  match s.file with
  | none => .ok { l with setup := some s }
  | some file => do
    let tree ← append l.tree file ""
    return { l with setup := some s, tree }

/-- A line as a file holds it. -/
def fileLine (stamp : Text) (line : LogLine) : Text :=
  stamp ++ " " ++ line.level.name ++ " " ++ partLogger line.source ++ ": " ++ line.text

/-- Writes a line. A file that cannot be written is left as it is. -/
def write (l : Logger) (line : LogLine) : Logger :=
  let name := partLogger line.source
  let l := { l with known := name :: l.known }
  match l.setup with
  | none => l
  | some s =>
    if comesUp l.known name && s.keeps line then
      let tree := match s.file with
        | some file =>
          match append l.tree file (fileLine l.stamp line ++ "\n") with
          | .ok tree => tree
          | .error _ => l.tree
        | none => l.tree
      { l with stream := l.stream ++ [line.shown], tree }
    else l

end Logger

end Componentry
