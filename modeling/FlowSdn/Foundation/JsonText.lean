import FlowSdn.Foundation.Json

/-! # JSON text

A reader of the text of objects, plain strings, truth values and natural numbers, and a writer of
the values that it reads back.
-/

namespace FlowSdn.JsonText

open Json

/-! ## Reading -/

def isPlain (char : Char) : Bool := char ≠ '"' && char ≠ '\\' && 32 ≤ char.toNat

/-- The rest of a string after its opening quote, and what follows the closing one. -/
def unquote (input : List Char) : Option (String × List Char) :=
  match input.dropWhile isPlain with
  | '"' :: rest => some (.ofList (input.takeWhile isPlain), rest)
  | _ => none

def natural (input : List Char) : Option (Json × List Char) :=
  let digits := input.takeWhile Char.isDigit
  let value := Nat.ofDigitChars 10 digits 0
  if (toString value).toList = digits ∧ value < 2 ^ 64 then
    some (.number (.natural value), input.dropWhile Char.isDigit)
  else none

def fields (item : List Char → Option (Json × List Char)) :
    Nat → List Char → Option (List (String × Json) × List Char)
  | count + 1, '"' :: input => do
      let (name, rest) ← unquote input
      let (value, rest) ← match rest with
        | ':' :: rest => item rest
        | _ => none
      match rest with
      | ',' :: rest => (fields item count rest).map fun read => ((name, value) :: read.1, read.2)
      | '\x7d' :: rest => some ([(name, value)], rest)
      | _ => none
  | _, _ => none

/-- A value with at most so many objects around one another. -/
def value : Nat → List Char → Option (Json × List Char)
  | _, '"' :: rest => (unquote rest).map fun read => (.string read.1, read.2)
  | _, 't' :: 'r' :: 'u' :: 'e' :: rest => some (.bool true, rest)
  | _, 'f' :: 'a' :: 'l' :: 's' :: 'e' :: rest => some (.bool false, rest)
  | _ + 1, '\x7b' :: '\x7d' :: rest => some (.object [], rest)
  | depth + 1, '\x7b' :: rest =>
      (fields (value depth) rest.length rest).map fun read => (.object read.1, read.2)
  | _, input => natural input

def depthLimit : Nat := 127

def read (chars : List Char) : Option Json :=
  (value depthLimit chars).bind fun read => if read.2 = [] then some read.1 else none

def fromSlice (bytes : List UInt8) : Option Json :=
  bytes.toByteArray.utf8Decode?.bind fun chars => read chars.toList

/-! ## Writing -/

mutual

def same : Json → Json → Bool
  | .bool left, .bool right => left = right
  | .number left, .number right => left = right
  | .string left, .string right => left = right
  | .object left, .object right => sameFields left right
  | _, _ => false

def sameFields : List (String × Json) → List (String × Json) → Bool
  | [], [] => true
  | (leftName, left) :: lefts, (rightName, right) :: rights =>
      leftName = rightName && same left right && sameFields lefts rights
  | _, _ => false

end

def toVec (value : Json) : Except String (List UInt8) :=
  if (read value.text.toList).any (same value) then .ok (Text.asBytes value.text)
  else .error "value cannot be read back"

mutual

theorem eq_of_same {left right : Json} (equal : same left right = true) : left = right := by
  cases left <;> cases right <;> simp only [same, Bool.false_eq_true, decide_eq_true_eq] at equal
  · rw [equal]
  · rw [equal]
  · rw [equal]
  · rw [eq_of_sameFields equal]

theorem eq_of_sameFields {left right : List (String × Json)}
    (equal : sameFields left right = true) : left = right := by
  rcases left with - | ⟨⟨leftName, left⟩, lefts⟩ <;>
    rcases right with - | ⟨⟨rightName, right⟩, rights⟩ <;>
    simp only [sameFields, Bool.false_eq_true, Bool.and_eq_true, decide_eq_true_eq] at equal
  · rfl
  · rw [equal.1.1, eq_of_same equal.1.2, eq_of_sameFields equal.2]

end

/-- What was written is read as it was. -/
theorem fromSlice_toVec {value : Json} {bytes : List UInt8} (written : toVec value = .ok bytes) :
    fromSlice bytes = some value := by
  unfold toVec at written
  split at written
  · next readsBack =>
      cases written
      rw [Option.any_eq_true] at readsBack
      rcases readsBack with ⟨found, known, equal⟩
      have decoded : (Text.asBytes value.text).toByteArray.utf8Decode? =
          some value.text.toList.toArray := List.utf8Decode?_utf8Encode
      rw [fromSlice, decoded, Option.bind_some, known, eq_of_same equal]
  · cases written

end FlowSdn.JsonText
