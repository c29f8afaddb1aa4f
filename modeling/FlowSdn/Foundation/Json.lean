import FlowSdn.Foundation.Text

/-! # JSON values

Values as a decoder leaves them: an object's fields in key order, integers apart
from other numbers. Accessors answer none on a value of another kind.
-/

namespace FlowSdn

/-- A number keeps its text where it is not an integer. -/
inductive JsonNumber
  | natural (value : Nat)
  | negative (magnitude : Nat)
  | float (text : String)
  deriving DecidableEq

inductive Json
  | null
  | bool (value : Bool)
  | number (value : JsonNumber)
  | string (value : String)
  | array (items : List Json)
  | object (fields : List (String × Json))

namespace JsonNumber

def text : JsonNumber → String
  | natural value => toString value
  | negative magnitude => "-" ++ toString magnitude
  | float text => text

def asU64 : JsonNumber → Option Nat
  | natural value => if value < 2 ^ 64 then some value else none
  | _ => none

end JsonNumber

namespace Json

def isNull : Json → Bool
  | null => true
  | _ => false

def asStr : Json → Option String
  | string value => some value
  | _ => none

def asBool : Json → Option Bool
  | bool value => some value
  | _ => none

def asArray : Json → Option (List Json)
  | array items => some items
  | _ => none

def asObject : Json → Option (List (String × Json))
  | object fields => some fields
  | _ => none

def asU64 : Json → Option Nat
  | number value => value.asU64
  | _ => none

def field (key : String) : List (String × Json) → Option Json
  | [] => none
  | (name, value) :: fields => if name = key then some value else field key fields

/-- The fields with one set, kept in key order. -/
def insertField (key : String) (value : Json) : List (String × Json) → List (String × Json)
  | [] => [(key, value)]
  | (name, old) :: fields =>
      if key = name then (key, value) :: fields
      else if key < name then (key, value) :: (name, old) :: fields
      else (name, old) :: insertField key value fields

@[simp] theorem field_insertField (key : String) (value : Json) (fields : List (String × Json)) :
    field key (insertField key value fields) = some value := by
  induction fields with
  | nil => simp [insertField, field]
  | cons head fields induction =>
      rcases head with ⟨name, old⟩
      unfold insertField
      split
      · simp [field]
      · rename_i different
        split
        · simp [field]
        · simp [field, Ne.symm different, induction]

def get (key : String) (value : Json) : Option Json :=
  value.asObject.bind (field key)

def present (key : String) (value : Json) : Option Json :=
  (value.get key).filter fun found => !found.isNull

def pointer : (path : List String) → Json → Option Json
  | [], value => some value
  | key :: path, value => (value.get key).bind (pointer path)

def textAt (path : List String) (value : Json) : String :=
  ((value.pointer path).bind asStr).getD ""

def hexDigit (value : Nat) : Char :=
  if value < 10 then Char.ofNat ('0'.toNat + value) else Char.ofNat ('a'.toNat + (value - 10))

def quotedChar (char : Char) : List Char :=
  if char = '"' ∨ char = '\\' then ['\\', char]
  else if char = '\n' then ['\\', 'n']
  else if char = '\r' then ['\\', 'r']
  else if char = '\t' then ['\\', 't']
  else if char.toNat = 8 then ['\\', 'b']
  else if char.toNat = 12 then ['\\', 'f']
  else if char.toNat < 32 then
    ['\\', 'u', '0', '0', hexDigit (char.toNat / 16), hexDigit (char.toNat % 16)]
  else [char]

def quoted (text : String) : String :=
  String.ofList ('"' :: text.toList.flatMap quotedChar ++ ['"'])

mutual

/-- The value without whitespace. -/
def text : Json → String
  | null => "null"
  | bool value => if value then "true" else "false"
  | number value => value.text
  | string value => quoted value
  | array items => "[" ++ String.intercalate "," (texts items) ++ "]"
  | object fields => "\x7b" ++ String.intercalate "," (fieldTexts fields) ++ "\x7d"

def texts : List Json → List String
  | [] => []
  | item :: items => text item :: texts items

def fieldTexts : List (String × Json) → List String
  | [] => []
  | (name, value) :: fields => (quoted name ++ ":" ++ text value) :: fieldTexts fields

end

example : (object [("port", number (.natural 80)), ("name", string "a\"b")]).text =
    "\x7b\"port\":80,\"name\":\"a\\\"b\"\x7d" := by
  decide

end Json

end FlowSdn
