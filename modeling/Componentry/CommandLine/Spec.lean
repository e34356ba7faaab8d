import Componentry.Text.Basic

/-!
# Command lines

What a command accepts: options, which start with a dash and may have a short and a long name, and
operands. A program has options of its own and a list of commands.
-/

namespace Componentry.CommandLine

/-- What an option does. -/
inductive OptionKind where
  /-- Shows a help text. -/
  | help
  /-- Turns something on. -/
  | switch
  /-- Takes a text. -/
  | text
  /-- Takes a whole number. -/
  | number
  deriving DecidableEq, Repr

/-- An option. -/
structure OptionSpec where
  /-- Its names, with their dashes. -/
  names : List Text
  kind : OptionKind
  /-- The key of its value. -/
  key : Text
  about : Option Text := none
  deriving DecidableEq, Repr

namespace OptionSpec

/-- Does it take a value? -/
def takesValue (o : OptionSpec) : Bool :=
  match o.kind with
  | .help | .switch => false
  | .text | .number => true

/-- What errors call it. -/
def title (o : OptionSpec) : Text := Text.join "/" o.names

/-- What help texts call its value. -/
def valueName (o : OptionSpec) : Text := o.key.map CodePoint.toUpper

/-- How it is used: the name, and the value it takes. -/
def shape (o : OptionSpec) (name : Text) : Text :=
  if o.takesValue then name ++ " " ++ o.valueName else name

end OptionSpec

/-- An operand that a command cannot do without. -/
structure OperandSpec where
  key : Text
  about : Option Text := none
  deriving DecidableEq, Repr

/-- A command of a program. -/
structure Command where
  name : Text
  /-- One line on what it does. -/
  about : Text
  options : List OptionSpec
  operand : Option OperandSpec := none
  deriving DecidableEq, Repr

/-- A program with commands. -/
structure ProgramSpec where
  name : Text
  about : Text
  options : List OptionSpec
  commands : List Command
  deriving DecidableEq, Repr

/-- The option that shows help. -/
def helpOption : OptionSpec where
  names := ["-h", "--help"]
  kind := .help
  key := "help"
  about := some "show this help message and exit"

end Componentry.CommandLine
