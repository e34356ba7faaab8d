import Componentry.Files.Encode
import Componentry.Text.Basic
import Componentry.Text.Digit

/-!
# Addresses

What an address leads to in the service: its path, without the host, the query and the fragment.
Names `.` and `..` are followed first, then escapes are read.
-/

namespace Componentry.Service

/-- The parts of an address that matter here. -/
structure Address where
  scheme : Text := []
  host : Text := []
  path : Text
  deriving DecidableEq, Repr

namespace Address

/-- May `c` stand in a scheme, after its first letter? -/
def isSchemeChar (c : CodePoint) : Bool := c.isAlphanum || c == '+' || c == '.' || c == '-'

/-- The scheme of an address, which may be empty, and what follows it. -/
def splitScheme (s : Text) : Text × Text :=
  let scheme := s.takeWhile isSchemeChar
  match s.drop scheme.length with
  | .char ':' :: rest => if scheme.head?.all CodePoint.isAlpha then (scheme, rest) else ([], s)
  | _ => ([], s)

/-- Reads an address. -/
def parse (s : Text) : Address :=
  let (scheme, rest) := splitScheme s
  let (host, rest) := match rest with
    | .char '/' :: .char '/' :: rest =>
      let host := rest.takeWhile fun (c : CodePoint) => c != '/' && c != '?' && c != '#'
      (host, rest.drop host.length)
    | rest => ([], rest)
  { scheme, host, path := rest.takeWhile fun (c : CodePoint) => c != '?' && c != '#' }

/-- Is `c` an ASCII character that cannot be seen? -/
def isControl (c : CodePoint) : Bool := c.toNat < 0x20 || c.toNat = 0x7F

/-- The most characters that an address may have. -/
def maxLength : Nat := 65536

/-- What stands behind the name of a host, with the colon. -/
def afterHost (host : Text) : Text :=
  match Text.splitLast '@' host with
  | (_, .char '[' :: rest) => (Text.splitLast ']' rest).2
  | (_, host) => host.dropWhile fun (c : CodePoint) => c != ':'

/-- Is it a number for a host to listen on, or nothing? -/
def isPortText (s : Text) : Bool :=
  match s with
  | .char ':' :: digits => digits.all CodePoint.isDigit
  | s => s.isEmpty

/-- May a path stand behind a scheme and a host? -/
def fits (a : Address) : Bool :=
  if !a.host.isEmpty then a.path.isEmpty || Text.startsWith "/" a.path
  else !a.scheme.isEmpty || !(Text.startsWith "//" a.path || Text.startsWith ":" a.path)

/-- Why an address leads nowhere at all. -/
inductive Problem where
  /-- It is no address. -/
  | unreadable
  /-- It has no bytes to send. -/
  | encode (e : EncodeError)
  deriving DecidableEq, Repr

/-- What is wrong with an address. -/
def problem? (s : Text) : Option Problem :=
  let a := parse s
  if maxLength < s.length || s.any isControl || !a.fits || !isPortText (afterHost a.host) then
    some .unreadable
  else (encodeFault? s).map .encode

/-- Follows the names of a path: `.` stays where it is, `..` goes back, but not out of the root. -/
def follow : (gone : List Text) → List Text → List Text
  | gone, [] => gone
  | gone, name :: rest =>
    if name = "." then follow gone rest
    else if name = ".." then
      follow (if gone = [] || gone = [[]] then gone else gone.dropLast) rest
    else follow (gone ++ [name]) rest

/-- The path without the names `.` and `..`. -/
def normal (path : Text) : Text := Text.join "/" (follow [] (Text.splitOn '/' path))

/-- Reads escapes: a percent sign and two digits stand for a byte. One that is not ASCII is part of
no path here, and is shown by a mark. -/
def unescaped : Text → Text
  | [] => []
  | .char '%' :: a :: b :: rest =>
    match hexDigit? a, hexDigit? b with
    | some x, some y =>
      (if x < 8 then .ofNat (x * 16 + y) else '\ufffd') :: unescaped rest
    | _, _ => '%' :: unescaped (a :: b :: rest)
  | c :: rest => c :: unescaped rest

/-- A text without the slashes at its start. -/
def withoutSlashes (s : Text) : Text := s.dropWhile fun (c : CodePoint) => c == '/'

/-- The path from the root of the service on. An address without a host starts there. -/
def target (a : Address) : Text :=
  unescaped (normal (if a.scheme.isEmpty || a.host.isEmpty then '/' :: withoutSlashes a.path
    else a.path))

end Address

/-- What a path leads to. -/
inductive Route where
  | health | compile
  /-- A page about the service itself. -/
  | page
  deriving DecidableEq, Repr

/-- The paths of the pages about the service. -/
def pages : List String := ["/docs", "/docs/oauth2-redirect", "/redoc", "/openapi.json"]

/-- The route of an address. Slashes at the end do not count, and neither does one line end. -/
def route? (address : Text) : Option Route :=
  let path := (Address.withoutSlashes (Address.parse address).target.reverse).reverse
  let path := if path.getLast? = some '\n' then path.dropLast else path
  match Text.toString? path with
  | some "/health" => some .health
  | some "/compile" => some .compile
  | some path => if pages.elem path then some .page else none
  | none => none

end Componentry.Service
