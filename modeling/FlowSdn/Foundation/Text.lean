import Mathlib.Algebra.Group.Nat.Defs
import Mathlib.Data.List.Basic

/-! # Text

The string operations of the source's standard library that the model needs, over
character lists so that they evaluate.
-/

namespace FlowSdn.Text

def splitOnceChars (separator : Char) : List Char → Option (List Char × List Char)
  | [] => none
  | char :: rest =>
      if char = separator then some ([], rest)
      else (splitOnceChars separator rest).map fun parts => (char :: parts.1, parts.2)

def splitOnce (separator : Char) (text : String) : Option (String × String) :=
  (splitOnceChars separator text.toList).map fun parts =>
    (String.ofList parts.1, String.ofList parts.2)

def startsWith (leading text : String) : Bool :=
  leading.toList.isPrefixOf text.toList

def stripLeading (leading text : String) : Option String :=
  if startsWith leading text then some (String.ofList (text.toList.drop leading.length))
  else none

def containsChar (char : Char) (text : String) : Bool := text.toList.contains char

def digitValue (radix : Nat) (char : Char) : Option Nat :=
  let value :=
    if '0' ≤ char ∧ char ≤ '9' then some (char.toNat - '0'.toNat)
    else if 'a' ≤ char ∧ char ≤ 'z' then some (char.toNat - 'a'.toNat + 10)
    else if 'A' ≤ char ∧ char ≤ 'Z' then some (char.toNat - 'A'.toNat + 10)
    else none
  value.filter (· < radix)

def decimalChars : (value : Nat) → List Char → Option Nat
  | value, [] => some value
  | value, char :: rest =>
      match digitValue 10 char with
      | some digit => decimalChars (10 * value + digit) rest
      | none => none

/-- An unsigned integer below a bound: decimal digits after an optional plus sign. -/
def parseUnsigned (bound : Nat) (text : String) : Option Nat :=
  let digits := match text.toList with
    | '+' :: rest => rest
    | chars => chars
  if digits.isEmpty then none else (decimalChars 0 digits).filter (· < bound)

def isDigits (text : String) : Bool :=
  !text.isEmpty && text.toList.all fun char => '0' ≤ char ∧ char ≤ '9'

/-- Letters of ASCII in lower case. -/
def asciiLowercase (text : String) : String := String.ofList (text.toList.map Char.toLower)

/-- The characters that Unicode counts as white space. -/
def isWhitespace (char : Char) : Bool :=
  let code := char.toNat
  (9 ≤ code && code ≤ 13) || (0x2000 ≤ code && code ≤ 0x200a) ||
    [0x20, 0x85, 0xa0, 0x1680, 0x2028, 0x2029, 0x202f, 0x205f, 0x3000].contains code

/-- The bytes of a string in UTF-8. -/
def asBytes (text : String) : List UInt8 := text.toList.flatMap String.utf8EncodeChar

def debugChar (char : Char) : List Char :=
  if char = '"' ∨ char = '\\' then ['\\', char]
  else if char = '\n' then ['\\', 'n']
  else if char = '\r' then ['\\', 'r']
  else if char = '\t' then ['\\', 't']
  else if char = '\x00' then ['\\', '0']
  else [char]

def debug (text : String) : String :=
  String.ofList ('"' :: text.toList.flatMap debugChar ++ ['"'])

def debugOption : Option String → String
  | none => "None"
  | some text => "Some(" ++ text ++ ")"

end FlowSdn.Text
