import Componentry.Text.Blank

/-!
# Modes

A project is built for production or for development. The environment says which.
-/

namespace Componentry

/-- Variables and their values. -/
abbrev Environment := List (Text × Text)

/-- The value of a variable, if it is set and not empty. -/
def Environment.value? (env : Environment) (name : Text) : Option Text :=
  Text.nonEmpty (env.lookup name)

/-- Does the environment ask for production? The first variable that is set decides. -/
def isProduction (env : Environment) : Bool :=
  match (env.value? "MELTE_ENV").or (env.value? "NODE_ENV") with
  | some value => Text.lowerAscii (Text.trim value) == "production"
  | none => false

end Componentry
