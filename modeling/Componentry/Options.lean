import Componentry.Document

/-!
# Options

The options of a project, kept as they were given, and the options that the markup tool gets for
one document.
-/

namespace Componentry

/-- The options of a project. `dev` is `null` where the mode decides. -/
structure Options where
  dev : Json := .null
  hydratable : Json := .bool false
  css : Json := .bool false
  cssHashPrefix : Json := .null
  isPublishing : Json := .bool false
  deriving Inhabited

/-- The options by name. -/
def Options.toFields (o : Options) : Json.Fields :=
  [("dev", o.dev), ("hydratable", o.hydratable), ("css", o.css),
    ("css_hash_prefix", o.cssHashPrefix), ("is_publishing", o.isPublishing)]

/-- What the markup tool is asked to do with one document. -/
structure MarkupOptions where
  filename : Text
  name : Text
  dev : Json
  generate : Text := "dom"
  hydratable : Bool := false
  css : Bool := false
  cssHashPrefix : Json := .null
  deriving Inhabited

namespace MarkupOptions

/-- The options for a document, `server` telling if it is for one. Components for a server are
rendered and never mounted. -/
def of (server : Bool) (document : Document) (options : Options) (production : Bool) :
    MarkupOptions :=
  { filename := document.path
    name := componentName document.basename
    dev := options.dev.toOption.getD (.bool !production)
    generate := if server then "ssr" else "dom"
    hydratable := !server && options.hydratable.isTrue
    css := !server && options.css.isTrue
    cssHashPrefix := if options.cssHashPrefix.truthy then options.cssHashPrefix else .null }

/-- The options for a document of which it is known what it is compiled for. -/
def ofDocument (document : Document) (options : Options) (production : Bool) :
    Except Failure MarkupOptions :=
  document.isServer.map fun server => of server document options production

/-- The options by name. -/
def toFields (o : MarkupOptions) : Json.Fields :=
  let always : Json.Fields := [("filename", .str o.filename), ("name", .str o.name),
    ("dev", o.dev), ("generate", .str o.generate)]
  let client : Json.Fields := [("hydratable", .bool o.hydratable), ("css", .bool o.css)]
  let hash : Json.Fields := [("cssHashPrefix", o.cssHashPrefix)]
  always ++ (if o.generate != "ssr" then client else []) ++
    (if o.cssHashPrefix.truthy then hash else [])

/-- The class name of a component's styles, given how they are hashed; none if the tool chooses. -/
def cssHash? (o : MarkupOptions) (hash : Text → Text) (css : Text) : Option Text :=
  if o.cssHashPrefix.truthy then some (o.cssHashPrefix.shown ++ hash css) else none

end MarkupOptions

end Componentry
