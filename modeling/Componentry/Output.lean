import Componentry.Failure
import Componentry.Json.Printer

/-!
# Outputs

What compiling a document gives: sections of a page, or a module with its stylesheets. A host
collects what is registered for a document, and what is reported against it.
-/

namespace Componentry

/-- A stylesheet beside a module, as its tool gave it; `sourceMap` is `null` if there is none. -/
structure Stylesheet where
  path : Text
  data : Json
  sourceMap : Json := .null
  lazy : Bool := false
  deriving Inhabited

/-- A section of a page. -/
structure HtmlPart where
  name : Text
  data : Text
  deriving DecidableEq, Repr, Inhabited

/-- A compiled module, as the last tool gave it; `sourceMap` is `null` if there is none. -/
structure Module where
  sourcePath : Text
  path : Text
  data : Json
  sourceMap : Json := .null
  stylesheets : List Stylesheet := []
  deriving Inhabited

/-- What compiling a document gives. -/
inductive Result where
  | page (parts : List HtmlPart)
  | code (module_ : Module)

namespace Result

/-- The size of a result for the memory that holds it. A module whose data has no length has none.
-/
def size : Result → Except Failure Nat
  | .page parts => .ok (parts.foldl (fun n p => n + p.data.length) 0)
  | .code m => do
    return (← m.data.length.mapError .conversion) + (Json.render m.sourceMap).length

end Result

/-- What has been registered for a document and reported against it. -/
structure Register where
  errors : List Report := []
  modules : List Module := []
  stylesheets : List Stylesheet := []
  html : List HtmlPart := []
  /-- The files whose change asks for a new compile, as tools name them. -/
  watched : List Json := []
  deriving Inhabited

namespace Register

/-- A report added. -/
def reported (r : Register) (report : Report) : Register :=
  { r with errors := r.errors ++ [report] }

/-- A result registered: the sections in order, or the stylesheets in order and then the module. -/
def add (r : Register) : Result → Register
  | .page parts => { r with html := r.html ++ parts }
  | .code m => { r with stylesheets := r.stylesheets ++ m.stylesheets, modules := r.modules ++ [m] }

end Register

end Componentry
