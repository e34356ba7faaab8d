import Componentry.Json.Printer
import Componentry.Options
import Componentry.Text.Scan

/-!
# Cache keys

A key names everything that can change what a document compiles to. Documents with a style in a
language that imports files have no key, since the files are not known before compiling.
-/

namespace Componentry

/-- The version of what is done to a document before the markup tool sees it. -/
def preprocessVersion : Nat := 9

/-- Is a language of `scss` given here, in quotes of either kind? -/
def startsScssLang (s : Text) : Bool :=
  match Text.after? "lang=" s with
  | some (q :: rest) =>
    (q == '"' || q == '\'') &&
      match Text.after? "scss" rest with
      | some (q' :: _) => q' == '"' || q' == '\''
      | _ => false
  | _ => false

/-- Does the rest of a tag, after at least one character, give the language `scss`? -/
def tagHasScss : Text → Bool
  | [] => false
  | c :: s => c != '>' && (startsScssLang s || tagHasScss s)

/-- Does some style tag give the language `scss`? -/
def mentionsScss : Text → Bool
  | [] => false
  | c :: s =>
    (match Text.after? "<style" (c :: s) with
      | some rest => tagHasScss rest
      | none => false) || mentionsScss s

/-- Everything that can change what a document compiles to. -/
structure CacheKey where
  options : Options
  path : Text
  sourceHash : Text
  arch : Option Text
  package : Package
  hot : Bool
  production : Bool
  compilerVersion : Text
  runtimePackage : Option Text
  preprocess : Nat := preprocessVersion

namespace CacheKey

/-- The key of a document, or none if what it compiles to must not be kept. -/
def derive? (document : Document) (options : Options) (hot : Bool) (compilerVersion : Text)
    (production : Bool) (runtimePackage : Option Text) : Option CacheKey :=
  if mentionsScss document.content then none
  else some {
    options, path := document.path, sourceHash := document.sourceHash, arch := document.arch
    package := document.package, hot, production, compilerVersion, runtimePackage }

/-- The key as a data value. -/
def toJson (k : CacheKey) : Json :=
  .obj [("options", .obj k.options.toFields), ("path", .str k.path),
    ("source_hash", .str k.sourceHash), ("arch", archJson k.arch),
    ("package_name", k.package.toJson), ("hmr_available", .bool k.hot),
    ("production", .bool k.production), ("runtime_package", .ofText? k.runtimePackage),
    ("versions", .obj [("compiler", .str k.compilerVersion), ("preprocess", .int k.preprocess)])]

/-- The text that is hashed. -/
def text (k : CacheKey) : Text := k.toJson.canonical

/-- The digest of the key. -/
def digest (hashing : Hashing) (k : CacheKey) : Text := hashing.entry k.text

end CacheKey

end Componentry
