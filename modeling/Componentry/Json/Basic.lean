import Componentry.Number.Shortest
import Componentry.Text.Quoted

/-!
# Data values

Values of the data format that source maps, cache files and tool replies are written in. Integers
and floating point numbers are kept apart, and an object keeps its fields in the order in which
they were first set; reading never produces two fields of one name.
-/

namespace Componentry

/-- A data value. -/
inductive Json where
  | null
  | bool (value : Bool)
  | int (value : Int)
  | float (value : Binary64)
  | str (value : Text)
  | arr (items : List Json)
  | obj (fields : List (Text × Json))
  deriving Inhabited

namespace Json

/-- The fields of an object, in order. -/
abbrev Fields := List (Text × Json)

/-- The value of the field `key`. -/
def Fields.get? (key : Text) : Fields → Option Json
  | [] => none
  | (k, v) :: rest => if k = key then some v else Fields.get? key rest

/-- The field `key` set to `v`: in its place if there is one, else as the last field. -/
def Fields.set (key : Text) (v : Json) : Fields → Fields
  | [] => [(key, v)]
  | (k, w) :: rest => if k = key then (k, v) :: rest else (k, w) :: Fields.set key v rest

/-- The names of the fields. -/
def Fields.keys (fields : Fields) : List Text := fields.map Prod.fst

/-- The field `key` of an object. -/
def field? (key : Text) : Json → Option Json
  | .obj fields => Fields.get? key fields
  | _ => none

/-- The field `key` of an object, `null` if it has none. -/
def fieldD (key : Text) (j : Json) : Json := (j.field? key).getD .null

/-- Does the value count as present? `null`, `false`, zero and the empty values do not. -/
def truthy : Json → Bool
  | .null => false
  | .bool b => b
  | .int n => n != 0
  | .float x => !x.isZero
  | .str s => s != ""
  | .arr items => !items.isEmpty
  | .obj fields => !fields.isEmpty

/-- The value itself if it counts as present, else `other`. -/
def presentOr (j other : Json) : Json := if j.truthy then j else other

/-- `some` value, or nothing for `null`. -/
def toOption : Json → Option Json
  | .null => none
  | j => some j

/-- `null` for nothing. -/
def ofOption : Option Json → Json
  | none => .null
  | some j => j

/-- A string, or `null` for nothing. -/
def ofText? : Option Text → Json
  | none => .null
  | some s => .str s

/-- The text of a string value. -/
def asText? : Json → Option Text
  | .str s => some s
  | _ => none

/-- The word for the value's type in messages. -/
def typeName : Json → Text
  | .null => "NoneType"
  | .bool _ => "bool"
  | .int _ => "int"
  | .float _ => "float"
  | .str _ => "str"
  | .arr _ => "list"
  | .obj _ => "dict"

/-- Is the value a number equal to `k`? A truth value counts as `0` or `1`. -/
def equalsInt (k : Int) : Json → Bool
  | .bool b => (if b then 1 else 0) == k
  | .int n => n == k
  | .float x => x.equalsInt k
  | _ => false

/-- Is the value the string `s`? -/
def isStr (s : Text) : Json → Bool
  | .str t => t == s
  | _ => false

/-- Is the value `true`? -/
def isTrue : Json → Bool
  | .bool true => true
  | _ => false

mutual

/-- The value as it is shown inside a message, strings quoted. -/
def literal : Json → Text
  | .null => "None"
  | .bool true => "True"
  | .bool false => "False"
  | .int n => toString n
  | .float x => x.text
  | .str s => quote s
  | .arr items => '[' :: (literalItems items ++ "]")
  | .obj fields => '\x7b' :: (literalFields fields ++ "\x7d")

/-- The items of a list, with commas between them. -/
def literalItems : List Json → Text
  | [] => []
  | [j] => literal j
  | j :: rest => literal j ++ ", " ++ literalItems rest

/-- The fields of an object, with commas between them. -/
def literalFields : List (Text × Json) → Text
  | [] => []
  | [(k, j)] => quote k ++ ": " ++ literal j
  | (k, j) :: rest =>
    quote k ++ ": " ++ literal j ++ ", " ++ literalFields rest

end

/-- The value as text: a string is its own text, any other value as it is shown. -/
def shown : Json → Text
  | .str s => s
  | j => literal j

end Json

end Componentry
