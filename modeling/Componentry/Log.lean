import Componentry.Text.Basic

/-!
# Log lines

What a compile tells about its work, apart from its results. A line belongs to a round: documents of
a batch advance in rounds, and lines come out round by round.
-/

namespace Componentry

/-- How much a line matters. -/
inductive LogLevel where
  | debug | info | warning | error | critical
  deriving DecidableEq, Repr

namespace LogLevel

/-- The word for a level. -/
def name : LogLevel → Text
  | .debug => "DEBUG"
  | .info => "INFO"
  | .warning => "WARNING"
  | .error => "ERROR"
  | .critical => "CRITICAL"

/-- The number that levels are compared by. -/
def rank : LogLevel → Nat
  | .debug => 10
  | .info => 20
  | .warning => 30
  | .error => 40
  | .critical => 50

end LogLevel

/-- A line, with the part of the program that wrote it. -/
structure LogLine where
  source : Text
  level : LogLevel
  text : Text
  deriving DecidableEq, Repr

namespace LogLine

/-- The line as a reader sees it. -/
def shown (l : LogLine) : Text := "[melte] " ++ l.level.name ++ " " ++ l.text

end LogLine

/-- A line and the round it was written in. -/
structure LogEntry where
  round : Nat
  line : LogLine
  deriving DecidableEq, Repr

/-- The lines round by round; within a round they stay in order. -/
def LogEntry.inOrder (entries : List LogEntry) : List LogLine :=
  (entries.mergeSort fun a b => a.round ≤ b.round).map LogEntry.line

end Componentry
