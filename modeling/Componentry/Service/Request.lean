import Componentry.Document
import Componentry.Json.Bytes
import Componentry.Json.Reader

/-!
# Requests to compile

The body of a request is an object with a path and a content; the rest may be left out. What does
not fit is told by its place and by the kind of error, for all fields at once.
-/

namespace Componentry.Service

/-- What is wrong with a part of a request. -/
structure FieldError where
  /-- The names that lead to the part. -/
  location : List Text
  kind : Text
  /-- What was found there, or around it if it is missing. -/
  found : Json

/-- A value, or what is wrong with it. -/
abbrev Checked (α : Type) : Type := Except (List FieldError) α

/-- An error in a field of the body. -/
def fieldError {α : Type} (name kind : Text) (found : Json) : Checked α :=
  .error [⟨["body", name], kind, found⟩]

/-- An error in the body as a whole. -/
def bodyError {α : Type} (kind : Text) (found : Json) : Checked α :=
  .error [⟨["body"], kind, found⟩]

/-- Both values; if both are wrong, all errors. -/
def both {α β : Type} : Checked α → Checked β → Checked (α × β)
  | .ok a, .ok b => .ok (a, b)
  | .error e, .ok _ => .error e
  | .ok _, .error e => .error e
  | .error e, .error e' => .error (e ++ e')

/-- A text. -/
def checkText (name : Text) : Json → Checked Text
  | .str s => .ok s
  | j => fieldError name "string_type" j

/-- Words for true. -/
def trueWords : List Text := ["1", "t", "y", "on", "yes", "true"]

/-- Words for false. -/
def falseWords : List Text := ["0", "f", "n", "no", "off", "false"]

/-- A number `found` as a truth value, if it is one that a machine word holds. -/
def checkNumber (name : Text) (n : Int) (found : Json) : Checked Bool :=
  if n = 0 then .ok false
  else if n = 1 then .ok true
  else if -9223372036854775808 ≤ n ∧ n < 9223372036854775808 then
    fieldError name "bool_parsing" found
  else fieldError name "bool_type" found

/-- A truth value, or a word or a number that stands for one. -/
def checkBool (name : Text) : Json → Checked Bool
  | .bool b => .ok b
  | .str s =>
    let word := Text.lowerAscii s
    if trueWords.elem word then .ok true
    else if falseWords.elem word then .ok false
    else fieldError name "bool_parsing" (.str s)
  | .int n => checkNumber name n (.int n)
  | .float (.finite negative m e) =>
    let n := Binary64.truncate negative m e
    let found := Json.float (.finite negative m e)
    if Binary64.equalsInt (.finite negative m e) n then checkNumber name n found
    else fieldError name "bool_type" found
  | j => fieldError name "bool_type" j

/-- A field that must be there. -/
def required {α : Type} (fields : Json.Fields) (name : Text) (check : Json → Checked α) :
    Checked α :=
  match Json.Fields.get? name fields with
  | some j => check j
  | none => fieldError name "missing" (.obj fields)

/-- A field with a default. -/
def optional {α : Type} (fields : Json.Fields) (name : Text) (d : α) (check : Json → Checked α) :
    Checked α :=
  match Json.Fields.get? name fields with
  | some j => check j
  | none => .ok d

/-- A text that may be `null`. -/
def checkOptional (name : Text) : Json → Checked (Option Text)
  | .null => .ok none
  | j => (checkText name j).map some

/-- The input that the body of a request describes; there may be no body. -/
def inputOf (body : Option Json) : Checked Input :=
  match body with
  | none => bodyError "missing" .null
  | some (.obj fields) =>
    let path := required fields "path" (checkText "path")
    let content := required fields "content" (checkText "content")
    let arch := optional fields "arch" defaultArch (checkText "arch")
    let package := optional fields "package" none (checkOptional "package")
    let hot := optional fields "hmr" false (checkBool "hmr")
    (both path (both content (both arch (both package hot)))).map
      fun (path, content, arch, package, hot) =>
        Input.of path (some content) (some arch) (.ofName? package) hot
  | some j => bodyError "model_attributes_type" j

/-- The data in a body, if it is not empty; `none` if it cannot be told what is wrong with it. -/
def bodyOf (bytes : ByteArray) : Option (Checked (Option Json)) :=
  if bytes.isEmpty then some (.ok none)
  else
    match Json.textOfBytes? bytes with
    | none => none
    | some text =>
      match Json.parse text with
      | .ok j => some (.ok (some j))
      | .error e =>
        match e.problem with
        | .tooManyDigits _ => none
        | .tooDeep _ => none
        | _ => some (bodyError "json_invalid" (.obj []))

mutual

/-- Can the value be sent? Numbers that are not finite and texts without bytes cannot. -/
def canSend : Json → Bool
  | .float .nan => false
  | .float (.infinite _) => false
  | .str s => (encodeFault? s).isNone
  | .arr items => canSendItems items
  | .obj fields => canSendFields fields
  | _ => true

/-- Can all the items be sent? -/
def canSendItems : List Json → Bool
  | [] => true
  | j :: rest => canSend j && canSendItems rest

/-- Can all the fields be sent? -/
def canSendFields : List (Text × Json) → Bool
  | [] => true
  | (k, j) :: rest => (encodeFault? k).isNone && canSend j && canSendFields rest

end

mutual

/-- The value with nothing in the place of the numbers that are not finite. -/
def finite : Json → Json
  | .float .nan => .null
  | .float (.infinite _) => .null
  | .arr items => .arr (finiteItems items)
  | .obj fields => .obj (finiteFields fields)
  | j => j

/-- The same for all the items. -/
def finiteItems : List Json → List Json
  | [] => []
  | j :: rest => finite j :: finiteItems rest

/-- The same for all the fields. -/
def finiteFields : List (Text × Json) → List (Text × Json)
  | [] => []
  | (k, j) :: rest => (k, finite j) :: finiteFields rest

end

end Componentry.Service
