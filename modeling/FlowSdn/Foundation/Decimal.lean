import FlowSdn.Foundation.Text
import Mathlib.Tactic

/-! # Decimal text

A number's text reads back as the number.
-/

namespace FlowSdn.Text

variable {char : Char} {chars : List Char}

theorem digitValue_of_isDigit (digit : char.isDigit = true) :
    digitValue 10 char = some (char.toNat - '0'.toNat) := by
  have bounds := Char.isDigit_iff_toNat.mp digit
  have inside : '0' ≤ char ∧ char ≤ '9' := by
    constructor
    · exact Char.le_def.mpr (UInt32.le_iff_toNat_le.mpr bounds.1)
    · exact Char.le_def.mpr (UInt32.le_iff_toNat_le.mpr bounds.2)
  have small : char.toNat - '0'.toNat < 10 := by
    have top : char.toNat ≤ '9'.toNat := bounds.2
    have nine : '9'.toNat = 57 := rfl
    have zero : '0'.toNat = 48 := rfl
    omega
  simp only [digitValue, if_pos inside, Option.filter_some, decide_eq_true small, if_true]

theorem decimalChars_of_isDigit (digits : ∀ char ∈ chars, char.isDigit = true) (value : Nat) :
    decimalChars value chars = some (Nat.ofDigitChars 10 chars value) := by
  induction chars generalizing value with
  | nil => rfl
  | cons head chars induction =>
      rw [decimalChars, digitValue_of_isDigit (digits head (List.mem_cons_self ..))]
      exact induction (fun char member => digits char (List.mem_cons_of_mem _ member)) _

theorem decimalChars_eq_none (member : char ∈ chars) (noDigit : digitValue 10 char = none)
    (value : Nat) : decimalChars value chars = none := by
  induction chars generalizing value with
  | nil => cases member
  | cons head chars induction =>
      rw [decimalChars]
      rcases List.mem_cons.mp member with same | later
      · rw [← same, noDigit]
      · split
        · exact induction later _
        · rfl

theorem toList_toString (number : Nat) : (toString number).toList = Nat.toDigits 10 number := by
  rw [Nat.toString_eq_repr, Nat.toList_repr]

theorem isDigit_of_mem_toString {number : Nat} (member : char ∈ (toString number).toList) :
    char.isDigit = true := by
  rw [toList_toString] at member
  exact Nat.isDigit_of_mem_toDigits (by decide) (by decide) member

theorem toString_ne_nil (number : Nat) : (toString number).toList ≠ [] := by
  rw [toList_toString, Nat.toDigits_eq_if (by decide)]
  split <;> simp

theorem ofDigitChars_toString (number : Nat) :
    Nat.ofDigitChars 10 (toString number).toList 0 = number := by
  rw [toList_toString, Nat.ofDigitChars_ten_toDigits]

theorem parseUnsigned_toString {bound number : Nat} (small : number < bound) :
    parseUnsigned bound (toString number) = some number := by
  have digits : ∀ char ∈ (toString number).toList, char.isDigit = true :=
    fun char => isDigit_of_mem_toString
  unfold parseUnsigned
  simp only
  split
  · rename_i rest start
    have sign : '+'.isDigit = true := digits '+' (start ▸ List.mem_cons_self ..)
    cases sign
  · rw [decimalChars_of_isDigit digits, ofDigitChars_toString, if_neg, Option.filter_some,
      if_pos (decide_eq_true small)]
    rw [List.isEmpty_iff]
    exact toString_ne_nil number

theorem parseUnsigned_eq_none {bound : Nat} {text : String}
    (member : char ∈ text.toList) (noSign : char ≠ '+') (noDigit : digitValue 10 char = none) :
    parseUnsigned bound text = none := by
  unfold parseUnsigned
  simp only
  split
  · rename_i rest start
    rw [start] at member
    rw [decimalChars_eq_none ((List.mem_cons.mp member).resolve_left noSign) noDigit]
    simp
  · rw [decimalChars_eq_none member noDigit]
    simp

end FlowSdn.Text
