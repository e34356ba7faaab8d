import Componentry.Digest.Hashing
import Componentry.Failure

/-!
# Documents

A document is one component's text with where it comes from and what it is compiled for. An input
is what a host hands over: the text itself, or the file to read it from.
-/

namespace Componentry

/-- The architecture that documents are compiled for unless told otherwise. -/
def defaultArch : Text := "web.browser"

/-- The last name of a path, with slashes of either kind. -/
def basename (path : Text) : Text :=
  (Text.splitLast '/' (Text.replaceAll "\\" "/" path)).2

/-- May `c` stand in a component's name? Besides the ASCII letters and digits these are the four
characters that differ from an ASCII letter in case only. -/
def isNameChar (c : CodePoint) : Bool :=
  c.isAlphanum || c == '_' || c == '$' ||
    c == '\u0130' || c == '\u0131' || c == '\u017f' || c == '\u212a'

/-- The name of a component: its file's name up to the first dot, other characters replaced. -/
def componentName (basename : Text) : Text :=
  (basename.takeWhile fun (c : CodePoint) => c != '.').map fun c => if isNameChar c then c else '_'

/-- The package that a document belongs to. -/
inductive Package where
  /-- None: the document is the application's own. -/
  | app
  | named (name : Text)
  /-- One is asked for, and nothing is given for its name. -/
  | unnamed
  deriving DecidableEq, Repr, Inhabited

namespace Package

/-- The package of a name, if there is one. -/
def ofName? : Option Text → Package
  | some name => .named name
  | none => .app

/-- The package as a data value. -/
def toJson : Package → Json
  | .app => .null
  | .named name => .str name
  | .unnamed => .arr []

end Package

/-- An architecture as a data value; `none` is one for which nothing is given. -/
def archJson : Option Text → Json
  | some arch => .str arch
  | none => .arr []

/-- One component's text, as one compile sees it. -/
structure Document where
  path : Text
  content : Text := ""
  /-- What the document is compiled for, unless nothing is given for it. -/
  arch : Option Text := some defaultArch
  package : Package := .app
  sourceHash : Text
  deriving DecidableEq, Repr

namespace Document

/-- The name of the document's file. -/
def basename (d : Document) : Text := Componentry.basename d.path

/-- Is the document compiled for a server? It must be known what it is compiled for. -/
def isServer (d : Document) : Except Failure Bool :=
  match d.arch with
  | some arch => .ok (Text.startsWith "os." arch)
  | none => .error (.conversion (.noMethod (archJson none).typeName "startswith"))

end Document

/-- A document as a host hands it over; without `content` it is read from its file. -/
structure Input where
  path : Text
  content : Option Text := none
  arch : Option Text := some defaultArch
  package : Package := .app
  /-- Can the module be replaced while it runs? -/
  hot : Bool := false
  deriving DecidableEq, Repr, Inhabited

namespace Input

/-- An input whose path has slashes of one kind. -/
def of (path : Text) (content : Option Text) (arch : Option Text) (package : Package)
    (hot : Bool) : Input :=
  { path := Text.replaceAll "\\" "/" path
    content, arch, package, hot }

/-- The text of the input. -/
def text (input : Input) (root : Path) (tree : FileTree) : Except Failure Text :=
  match input.content with
  | some content => .ok content
  | none => (tree.readText (root.child input.path)).mapError .file

/-- The document of the input, whose text must have bytes to hash. -/
def document (input : Input) (hashing : Hashing) (root : Path) (tree : FileTree) :
    Except Failure Document := do
  let content ← input.text root tree
  if let some e := encodeFault? content then throw (.file (.encode e))
  return { path := input.path, content, arch := input.arch, package := input.package
           sourceHash := hashing.source content }

end Input

end Componentry
