import FlowSdn.Foundation.Words

/-! # Byte buffers

Byte strings, and words as bytes with the most significant one first.
-/

namespace FlowSdn.Buffer

open Words

abbrev Bytes := List U8

def beValue (bytes : List U8) : Nat := bytes.foldl (fun value byte => 256 * value + byte.toNat) 0

def wordBytes (value : BitVec width) : List U8 := beBytes (width / 8) value.toNat

theorem beValue_cons (byte : U8) (bytes : List U8) :
    beValue (byte :: bytes) = byte.toNat * 256 ^ bytes.length + beValue bytes := by
  have shift : ∀ (bytes : List U8) (start : Nat),
      bytes.foldl (fun value byte => 256 * value + byte.toNat) start =
        start * 256 ^ bytes.length + beValue bytes := by
    intro bytes
    induction bytes with
    | nil => simp [beValue]
    | cons head bytes induction =>
        intro start
        rw [beValue, List.foldl_cons, List.foldl_cons, induction, induction, List.length_cons,
          Nat.pow_succ]
        ring
  rw [beValue, List.foldl_cons, shift]
  simp

theorem beValue_beBytes {count value : Nat} (fits : value < 256 ^ count) :
    beValue (beBytes count value) = value := by
  induction count generalizing value with
  | zero =>
      have zero : value = 0 := by simpa using fits
      simp [beBytes, beValue, zero]
  | succ count induction =>
      have top : value / 256 ^ count < 256 := by
        rw [Nat.pow_succ] at fits
        exact Nat.div_lt_of_lt_mul fits
      have rest : value % 256 ^ count < 256 ^ count := Nat.mod_lt _ (by positivity)
      rw [beBytes, beValue_cons, beBytes_length, induction rest, BitVec.toNat_ofNat,
        Nat.mod_eq_of_lt top]
      exact Nat.div_add_mod' ..

end FlowSdn.Buffer
