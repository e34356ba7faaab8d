import Componentry.CommandLine.Spec

/-!
# Usage and help

The texts that tell how a command is used. Lines are at most 78 characters wide where words permit
it. A usage that is too long is broken between its parts, with the operands on a line of their own;
help stands beside the names, in one column for all of them.
-/

namespace Componentry.CommandLine

/-- The width of a line. -/
def lineWidth : Nat := 78

/-- The column that help starts in at the latest. -/
def maxHelpColumn : Nat := 24

/-- `n` blanks. -/
def blanks (n : Nat) : Text := List.replicate n ' '

/-- Lines of parts, each as long as fits behind its indentation. `used` is how far the line so far
reaches. -/
def packFrom (width indent : Nat) : (line : List Text) → (used : Nat) → List Text →
    List (List Text)
  | line, _, [] => if line.isEmpty then [] else [line]
  | line, used, part :: rest =>
    if width < used + 1 + part.length && !line.isEmpty then
      line :: packFrom width indent [part] (indent + part.length) rest
    else packFrom width indent (line ++ [part]) (used + 1 + part.length) rest

/-- Packs parts into lines; `used` counts the blank that the first part does not need. -/
def packLines (width indent start : Nat) (parts : List Text) : List Text :=
  (packFrom width indent [] (start - 1) parts).map (Text.join " ")

/-- Words packed into lines. -/
def wrapWords (width : Nat) (text : Text) : List Text :=
  let words := (Text.splitOn ' ' text).filter fun w => !w.isEmpty
  (go [] 0 words).map (Text.join " ")
where
  go : List Text → Nat → List Text → List (List Text)
    | line, _, [] => if line.isEmpty then [] else [line]
    | line, used, word :: rest =>
      if line.isEmpty then go [word] word.length rest
      else if used + 1 + word.length ≤ width then
        go (line ++ [word]) (used + 1 + word.length) rest
      else line :: go [word] word.length rest

/-- How an option stands in a usage. -/
def OptionSpec.usage (o : OptionSpec) : Text := "[" ++ o.shape (o.names.headD "") ++ "]"

/-- The usage of a command, by the parts for its options and for its operands. -/
def usageOf (title : Text) (options operands : List Text) : Text :=
  let heading := "usage: "
  let whole := heading ++ Text.join " " (title :: options ++ operands)
  if whole.length ≤ lineWidth then whole
  else
    let indent := heading.length + title.length + 1
    let first := packLines lineWidth indent heading.length (title :: options)
    let others := packLines lineWidth indent indent operands
    match first ++ others with
    | [] => heading
    | line :: rest =>
      Text.join "\n" ((heading ++ line) :: rest.map fun l => blanks indent ++ l)

/-- A row of a help text. -/
structure HelpRow where
  indent : Nat := 2
  name : Text
  about : Option Text

/-- The column that help starts in, below the names of all rows. -/
def helpColumn (rows : List HelpRow) : Nat :=
  min ((rows.map fun r => r.name.length + 2).foldl max 0 + 2) maxHelpColumn

/-- The lines of a row. -/
def HelpRow.lines (column : Nat) (r : HelpRow) : List Text :=
  match r.about with
  | none => [blanks r.indent ++ r.name]
  | some about =>
    let space := column - r.indent - 2
    let text := wrapWords (lineWidth - column) about
    if r.name.length ≤ space then
      match text with
      | [] => [blanks r.indent ++ r.name]
      | line :: rest =>
        (blanks r.indent ++ r.name ++ blanks (space - r.name.length) ++ "  " ++ line) ::
          rest.map fun l => blanks column ++ l
    else (blanks r.indent ++ r.name) :: text.map fun l => blanks column ++ l

/-- The row of an option. -/
def OptionSpec.row (o : OptionSpec) : HelpRow where
  name := Text.join ", " (o.names.map o.shape)
  about := o.about

/-- A section of a help text, unless it is empty. -/
def helpSection (column : Nat) (heading : Text) (rows : List HelpRow) : List Text :=
  if rows.isEmpty then []
  else [Text.join "\n" ((heading ++ ":") :: rows.flatMap (HelpRow.lines column))]

/-- A help text. -/
def helpOf (usage : Text) (about : Option Text) (operands options : List HelpRow) : Text :=
  let column := helpColumn (operands ++ options)
  Text.join "\n\n" ([usage] ++
    (about.toList.map fun a => Text.join "\n" (wrapWords lineWidth a)) ++
    helpSection column "positional arguments" operands ++
    helpSection column "options" options) ++ "\n"

namespace Command

/-- How the command is called, as part of a program. -/
def title (c : Command) (program : Text) : Text := program ++ " " ++ c.name

/-- The usage of a command. -/
def usage (c : Command) (program : Text) : Text :=
  usageOf (c.title program) (c.options.map OptionSpec.usage) (c.operand.toList.map OperandSpec.key)

/-- The help text of a command. -/
def help (c : Command) (program : Text) : Text :=
  helpOf (c.usage program) none (c.operand.toList.map fun o => { name := o.key, about := o.about })
    (c.options.map OptionSpec.row)

end Command

namespace ProgramSpec

/-- The commands, as one part of a usage. -/
def choices (p : ProgramSpec) : Text :=
  "\x7b" ++ Text.join "," (p.commands.map Command.name) ++ "\x7d"

/-- The usage of a program. -/
def usage (p : ProgramSpec) : Text :=
  usageOf p.name (p.options.map OptionSpec.usage) [p.choices, "..."]

/-- The help text of a program. -/
def help (p : ProgramSpec) : Text :=
  helpOf p.usage (some p.about)
    ({ name := p.choices, about := none } ::
      p.commands.map fun c => { indent := 4, name := c.name, about := some c.about })
    (p.options.map OptionSpec.row)

end ProgramSpec

end Componentry.CommandLine
