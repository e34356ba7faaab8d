/-!
# Problems of configuration files

Why the text of a configuration file gives no value. Most faults are faults of form; some texts are
well formed and name something that does not exist.
-/

namespace Componentry.Yaml

/-- Why a file gives no value. -/
inductive Problem where
  /-- The text does not follow the grammar, or a tag does not fit. -/
  | malformed
  /-- A number without digits or with too many, a day that is not in the calendar, a code that no
  character has. -/
  | outOfRange
  /-- A code or a power of sixty that is far too large. -/
  | tooLarge
  /-- A number of which nothing is left without its sign and underscores. -/
  | noDigits
  /-- A truth value that is none of the words for one. -/
  | unknownWord
  /-- A time that is not written like one. -/
  | notMoment
  /-- A time that is no text. -/
  | momentType
  /-- Collections inside collections, too many of them. -/
  | tooDeep
  deriving DecidableEq, Repr

/-- The outcome of reading a part of a file. -/
abbrev Outcome (α : Type) : Type := Except Problem α

/-- The outcome of a part that does not follow the grammar. -/
def refuse {α : Type} : Outcome α := .error .malformed

end Componentry.Yaml
