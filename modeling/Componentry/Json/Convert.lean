import Componentry.Json.Printer
import Componentry.Number.Numeral

/-!
# Conversions of data values

Maps and payloads written by other programs hold numbers as strings, strings as lists and so on.
The conversions here accept what they can and say what is wrong with the rest.
-/

namespace Componentry.Json

/-- Why a value could not be used as what was needed. -/
inductive ConversionError where
  /-- The string is no integer. -/
  | integerText (s : Text)
  /-- The string is an integer with too many digits. -/
  | integerDigits (count : Nat)
  /-- A value of this type is no integer. -/
  | integerType (type : Text)
  /-- An infinity has no integer part. -/
  | infinite
  /-- NaN has no integer part. -/
  | nan
  /-- A value of this type has no items. -/
  | notIterable (type : Text)
  /-- A position outside the list. -/
  | indexRange
  /-- An object without the key that is shown. -/
  | missingKey (shown : Text)
  /-- A value of this type cannot do what was asked of it. -/
  | noMethod (type name : Text)
  /-- An item that is no pair: its position in the list. -/
  | notPair (position : Nat)
  /-- An item that has the wrong length for a pair. -/
  | pairLength (position length : Nat)
  /-- A value of this type cannot be a key. -/
  | notKey (type : Text)
  /-- Keys that cannot be compared. -/
  | noOrder
  /-- A value of this type has no length. -/
  | noLength (type : Text)
  /-- A value of this type holds nothing. -/
  | noContent (type : Text)
  /-- A value of this type is no path. -/
  | notPath (type : Text)
  /-- A value of this type is nothing to write. -/
  | notWritable (type : Text)
  /-- A value of this type among texts that are joined: its position. -/
  | notPart (position : Nat) (type : Text)
  deriving DecidableEq, Repr

/-- The wording of a conversion error. -/
def ConversionError.message : ConversionError → Text
  | .integerText s =>
    "invalid literal for int() with base 10: " ++ (quote s).take 200
  | .integerDigits count => Numeral.tooLongToRead count
  | .integerType type =>
    "int() argument must be a string, a bytes-like object or a real number, not '" ++ type ++ "'"
  | .infinite => "cannot convert float infinity to integer"
  | .nan => "cannot convert float NaN to integer"
  | .notIterable type => "'" ++ type ++ "' object is not iterable"
  | .indexRange => "list index out of range"
  | .missingKey shown => shown
  | .noMethod type name => "'" ++ type ++ "' object has no attribute '" ++ name ++ "'"
  | .notPair position =>
    "cannot convert dictionary update sequence element #" ++ toString position ++ " to a sequence"
  | .pairLength position length =>
    "dictionary update sequence element #" ++ toString position ++ " has length " ++
      toString length ++ "; 2 is required"
  | .notKey type => "unhashable type: '" ++ type ++ "'"
  | .noOrder => "'<' not supported"
  | .noLength type => "object of type '" ++ type ++ "' has no len()"
  | .noContent type => "argument of type '" ++ type ++ "' is not iterable"
  | .notPath type => "expected str, bytes or os.PathLike object, not " ++ type
  | .notWritable type => "data must be str, not " ++ type
  | .notPart position type =>
    "sequence item " ++ toString position ++ ": expected str instance, " ++ type ++ " found"

/-- The value as an integer: a number rounded toward zero, or the integer a string spells. -/
def toInteger : Json → Except ConversionError Int
  | .bool b => .ok (if b then 1 else 0)
  | .int n => .ok n
  | .float (.finite negative m e) => .ok (Binary64.truncate negative m e)
  | .float (.infinite _) => .error .infinite
  | .float .nan => .error .nan
  | .str s =>
    match Numeral.decimal s with
    | .ok n => .ok n
    | .error .malformed => .error (.integerText s)
    | .error (.tooManyDigits count) => .error (.integerDigits count)
  | j => .error (.integerType j.typeName)

/-- The items of a list, the characters of a string, the names of an object's fields. -/
def elements : Json → Except ConversionError (List Json)
  | .arr items => .ok items
  | .str s => .ok (s.map fun c => .str ([c]))
  | .obj fields => .ok (fields.map fun (k, _) => .str k)
  | j => .error (.notIterable j.typeName)

/-- The number of characters, items or fields. -/
def length : Json → Except ConversionError Nat
  | .str s => .ok s.length
  | .arr items => .ok items.length
  | .obj fields => .ok fields.length
  | j => .error (.noLength j.typeName)

/-- Does the value hold a text: as a part of it, as an item, or as the name of a field? -/
def holds (text : Text) : Json → Except ConversionError Bool
  | .str s => .ok (Text.contains text s)
  | .arr items => .ok (items.any fun j => j.asText? == some text)
  | .obj fields => .ok (fields.any fun (k, _) => k == text)
  | j => .error (.noContent j.typeName)

/-- The texts of a list in a row. -/
def joined : (position : Nat) → List Json → Except ConversionError Text
  | _, [] => .ok []
  | position, .str s :: rest => return s ++ (← joined (position + 1) rest)
  | position, j :: _ => .error (.notPart position j.typeName)

/-- The first item of a value that has items. -/
def firstItem : Json → Except ConversionError Json
  | .arr (j :: _) => .ok j
  | .str s =>
    match s with
    | c :: _ => .ok (.str ([c]))
    | [] => .error .indexRange
  | .obj _ => .error (.missingKey "0")
  | .arr [] => .error .indexRange
  | j => .error (.notIterable j.typeName)

/-- Pairs of a key, which may be any scalar, and a value. -/
abbrev Entries := List (Json × Json)

/-- Are two scalars one key? Numbers and truth values are compared by number. -/
def sameKey (a b : Json) : Bool :=
  match a, b with
  | .null, .null => true
  | .str a, .str b => a == b
  | .float a, .float b => a != .nan && (a == b || (a.isZero && b.isZero))
  | .float x, .bool k => x.equalsInt (if k then 1 else 0)
  | .float x, .int k => x.equalsInt k
  | .bool k, b => b.equalsInt (if k then 1 else 0)
  | .int k, b => b.equalsInt k
  | _, _ => false

/-- Sets a key: in its place if it is there, else as the last one. -/
def Entries.set (key value : Json) : Entries → Entries
  | [] => [(key, value)]
  | (k, v) :: rest =>
    if sameKey k key then (k, value) :: rest else (k, v) :: Entries.set key value rest

/-- Can the value be a key? -/
def isKey : Json → Bool
  | .arr _ => false
  | .obj _ => false
  | _ => true

/-- Every key of a list once, where it is first used. -/
def distinctKeys (acc : Entries) : List Json → Except ConversionError (List Json)
  | [] => .ok (acc.map Prod.fst)
  | k :: rest =>
    if k.isKey then distinctKeys (acc.set k .null) rest else .error (.notKey k.typeName)

/-- The entries that a list of pairs stands for, added to those before. -/
def entriesOfPairs (acc : Entries) : (position : Nat) → List Json → Except ConversionError Entries
  | _, [] => .ok acc
  | position, j :: rest =>
    match j.elements with
    | .error _ => .error (.notPair position)
    | .ok [k, v] =>
      if k.isKey then entriesOfPairs (acc.set k v) (position + 1) rest
      else .error (.notKey k.typeName)
    | .ok items => .error (.pairLength position items.length)

/-- The entries of an object, or of a list of pairs. A text is a list of characters, and these are
no pairs. -/
def toEntries : Json → Except ConversionError Entries
  | .obj fields => .ok (fields.map fun (k, v) => (.str k, v))
  | .arr items => entriesOfPairs [] 0 items
  | .str s => if s = "" then .ok [] else .error (.pairLength 0 1)
  | j => .error (.notIterable j.typeName)

/-- The name of a field that a key is written as. -/
def keyName : Json → Text
  | .str s => s
  | k => k.render

/-- Entries as the fields they are written as. -/
def Entries.toFields (entries : Entries) : Fields :=
  entries.foldl (fun fields (k, v) => Fields.set (keyName k) v fields) []

/-- The fields of an object, or of a list of pairs. -/
def toFields (j : Json) : Except ConversionError Fields := return (← j.toEntries).toFields

/-- The order of numbers. -/
def numberBefore (a b : Json) : Option Bool :=
  let ratio : Json → Option (Int × Nat)
    | .bool k => some (if k then 1 else 0, 1)
    | .int n => some (n, 1)
    | .float (.finite negative m e) => some (Binary64.signedRatio negative m e)
    | .float (.infinite negative) =>
      some (if negative then -(Nat.pow 2 2000 : Nat) else Nat.pow 2 2000, 1)
    | _ => none
  match ratio a, ratio b with
  | some (na, da), some (nb, db) => some (na * db ≤ nb * da)
  | _, _ => none

/-- Keys in increasing order: texts, or numbers. Others have no order, and of one key none is
needed. -/
def sortKeys (keys : List Json) : Except ConversionError (List Json) :=
  let isText : Json → Bool
    | .str _ => true
    | _ => false
  let isNumber (j : Json) : Bool := (numberBefore j j).isSome
  if keys.length ≤ 1 then .ok keys
  else if keys.all isText then
    .ok (keys.mergeSort fun a b => !decide (b.keyName < a.keyName))
  else if keys.all isNumber then .ok (keys.mergeSort fun a b => (numberBefore a b).getD true)
  else .error .noOrder

end Componentry.Json

/-- The item at position `i`, negative positions counting from the end. -/
def Componentry.itemAt? {α : Type} (xs : List α) (i : Int) : Option α :=
  if 0 ≤ i then xs[i.toNat]?
  else if i.natAbs ≤ xs.length then xs[xs.length - i.natAbs]?
  else none
