import FlowSdn.Foundation.OrderedMap
import Mathlib.Data.Nat.Bitwise

/-! # Sparse bitmaps

A set of numbers as the words that have a bit set, 64 numbers to a word. A word
whose last bit is cleared goes.
-/

namespace FlowSdn

abbrev Bitmap := BTreeMap Nat (BitVec 64)

namespace Bitmap

open OrderedMap

def mask (offset : Nat) : BitVec 64 := 1#64 <<< (offset % 64)

def isSet (words : Bitmap) (offset : Nat) : Bool :=
  words[offset / 64]?.any fun bits => bits &&& mask offset ≠ 0

def set (words : Bitmap) (offset : Nat) : Bitmap :=
  words.insert (offset / 64) (words[offset / 64]?.getD 0 ||| mask offset)

def clear (words : Bitmap) (offset : Nat) : Bitmap :=
  match words[offset / 64]? with
  | none => words
  | some bits =>
      let left := bits &&& ~~~mask offset
      if left = 0 then words.erase (offset / 64) else words.insert (offset / 64) left

/-! ## Members -/

def word (words : Bitmap) (index : Nat) : BitVec 64 := words[index]?.getD 0

theorem getLsbD_mask (offset position : Nat) :
    (mask offset).getLsbD position = decide (position = offset % 64) := by
  have bound := Nat.mod_lt offset (show 0 < 64 by decide)
  unfold mask
  rw [BitVec.getLsbD_shiftLeft]
  by_cases same : position = offset % 64
  · subst same
    simp [bound]
  · by_cases below : position < offset % 64
    · simp [same, below]
    · have above : position - offset % 64 ≠ 0 := by omega
      simp [same, below, above]

theorem and_mask_ne_zero (bits : BitVec 64) (offset : Nat) :
    bits &&& mask offset ≠ 0 ↔ bits.getLsbD (offset % 64) = true := by
  have bound := Nat.mod_lt offset (show 0 < 64 by decide)
  constructor
  · intro some
    by_contra unset
    apply some
    apply BitVec.eq_of_getLsbD_eq
    intro position _
    rw [BitVec.getLsbD_and, getLsbD_mask]
    by_cases same : position = offset % 64
    · subst same
      rw [Bool.not_eq_true] at unset
      simp [unset]
    · simp [same]
  · intro set none
    have bit := congrArg (fun word : BitVec 64 => word.getLsbD (offset % 64)) none
    simp [BitVec.getLsbD_and, getLsbD_mask, set] at bit

theorem isSet_eq (words : Bitmap) (offset : Nat) :
    words.isSet offset = (words.word (offset / 64)).getLsbD (offset % 64) := by
  unfold isSet word
  cases words[offset / 64]? with
  | none => simp
  | some bits =>
      have bit := and_mask_ne_zero bits offset
      by_cases set : bits.getLsbD (offset % 64) = true
      · simpa [set] using bit
      · simpa [set] using bit

theorem word_set (words : Bitmap) (offset index : Nat) :
    (words.set offset).word index =
      if offset / 64 = index then words.word index ||| mask offset else words.word index := by
  unfold set word
  split
  · rename_i same
    subst same
    simp
  · rename_i different
    rw [getElem?_insert_of_ne different]

theorem word_clear (words : Bitmap) (offset index : Nat) :
    (words.clear offset).word index =
      if offset / 64 = index then words.word index &&& ~~~mask offset else words.word index := by
  by_cases same : offset / 64 = index
  · subst same
    rw [if_pos rfl]
    unfold clear word
    cases found : words[offset / 64]? with
    | none => simp [found]
    | some bits =>
        by_cases empty : bits &&& ~~~mask offset = 0#64
        · simp [empty]
        · simp [empty]
  · rw [if_neg same]
    unfold clear word
    cases found : words[offset / 64]? with
    | none => rfl
    | some bits =>
        by_cases empty : bits &&& ~~~mask offset = 0#64
        · simp [empty, getElem?_erase_of_ne same]
        · simp [empty, getElem?_insert_of_ne same]

theorem div_mod_inj {offset other : Nat} (word : offset / 64 = other / 64)
    (bit : offset % 64 = other % 64) : offset = other := by
  omega

@[simp] theorem isSet_empty (offset : Nat) : isSet ∅ offset = false := by
  simp [isSet]

theorem isSet_set (words : Bitmap) (offset other : Nat) :
    (words.set offset).isSet other = (decide (offset = other) || words.isSet other) := by
  rw [isSet_eq, isSet_eq, word_set]
  by_cases same : offset = other
  · subst same
    simp [BitVec.getLsbD_or, getLsbD_mask]
  · split
    · rename_i word
      have bit : other % 64 ≠ offset % 64 := fun bit => same (div_mod_inj word bit.symm)
      simp [BitVec.getLsbD_or, getLsbD_mask, same, bit]
    · simp [same]

theorem isSet_clear (words : Bitmap) (offset other : Nat) :
    (words.clear offset).isSet other = (decide (offset ≠ other) && words.isSet other) := by
  have bound := Nat.mod_lt other (show 0 < 64 by decide)
  rw [isSet_eq, isSet_eq, word_clear]
  by_cases same : offset = other
  · subst same
    simp [BitVec.getLsbD_and, getLsbD_mask]
  · split
    · rename_i word
      have bit : other % 64 ≠ offset % 64 := fun bit => same (div_mod_inj word bit.symm)
      rw [BitVec.getLsbD_and, BitVec.getLsbD_not, getLsbD_mask]
      simp [same, bit, bound]
    · simp [same]

end Bitmap

end FlowSdn
