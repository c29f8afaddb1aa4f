import Mathlib.Data.BitVec
import Mathlib.Tactic

/-! # Machine words, their bytes and their leading bits

Fixed-width words as the source's integer types, the byte orders that map keys use, and bit-prefix
agreement of byte strings.
-/

namespace FlowSdn

abbrev U8 := BitVec 8
abbrev U16 := BitVec 16
abbrev U32 := BitVec 32
abbrev U64 := BitVec 64
abbrev U128 := BitVec 128

namespace Words

def saturatingAdd (left right : BitVec width) : BitVec width :=
  if left.toNat + right.toNat < 2 ^ width then left + right else BitVec.allOnes width

def saturatingSub (left right : BitVec width) : BitVec width :=
  if right ≤ left then left - right else BitVec.ofNat width 0

variable {left right : BitVec width} {length count : Nat}

theorem toNat_saturatingAdd (fits : left.toNat + right.toNat < 2 ^ width) :
    (saturatingAdd left right).toNat = left.toNat + right.toNat := by
  rw [saturatingAdd, if_pos fits, BitVec.toNat_add, Nat.mod_eq_of_lt fits]

@[simp] theorem toNat_saturatingSub (left right : BitVec width) :
    (saturatingSub left right).toNat = left.toNat - right.toNat := by
  unfold saturatingSub
  by_cases order : right ≤ left
  · rw [if_pos order, BitVec.toNat_sub_of_le order]
  · rw [if_neg order]
    rw [BitVec.le_def] at order
    simp only [BitVec.toNat_zero]
    omega

/-! ## Leading bits of a word -/

def leadingBits (length : Nat) (word : BitVec width) : Nat :=
  word.toNat / 2 ^ (width - length)

/-- The mask of the first `length` bits, `MAX.checked_shl(width - length)` with
an exhausted shift read as zero. -/
def leadingMask (width length : Nat) : BitVec width :=
  BitVec.allOnes width <<< (width - length)

theorem leadingBits_eq_of_le {short long : Nat} (shorter : short ≤ long)
    (agree : leadingBits long left = leadingBits long right) :
    leadingBits short left = leadingBits short right := by
  have split : ∀ word : BitVec width, leadingBits short word =
      leadingBits long word / 2 ^ ((width - short) - (width - long)) := by
    intro word
    unfold leadingBits
    rw [Nat.div_div_eq_div_mul, ← Nat.pow_add]
    congr 2
    omega
  rw [split left, split right, agree]

theorem leadingBits_of_width_le (long : width ≤ length) :
    leadingBits length left = leadingBits length right ↔ left = right := by
  have exhausted : width - length = 0 := by omega
  simp [leadingBits, exhausted, BitVec.toNat_inj]

theorem leadingBits_zero (left right : BitVec width) :
    leadingBits 0 left = leadingBits 0 right := by
  have zero : ∀ word : BitVec width, leadingBits 0 word = 0 := by
    intro word
    exact Nat.div_eq_of_lt (by simpa using word.isLt)
  rw [zero left, zero right]

private theorem leadingBits_eq_iff_testBit :
    leadingBits length left = leadingBits length right ↔
      ∀ index, width - length ≤ index → left.getLsbD index = right.getLsbD index := by
  unfold leadingBits
  constructor
  · intro agree index high
    have bit := congrArg (fun value => value.testBit (index - (width - length))) agree
    simpa [Nat.testBit_div_two_pow, Nat.sub_add_cancel high, BitVec.getLsbD] using bit
  · intro agree
    apply Nat.eq_of_testBit_eq
    intro index
    simpa [Nat.testBit_div_two_pow, BitVec.getLsbD] using
      agree (index + (width - length)) (by omega)

theorem masked_eq_iff :
    left &&& leadingMask width length = right &&& leadingMask width length ↔
      leadingBits length left = leadingBits length right := by
  rw [leadingBits_eq_iff_testBit]
  constructor
  · intro agree index high
    by_cases inside : index < width
    · have kept : ¬index < width - length := by omega
      have bit := congrArg (fun word => word.getLsbD index) agree
      simpa [leadingMask, inside, kept] using bit
    · rw [BitVec.getLsbD_of_ge left index (by omega), BitVec.getLsbD_of_ge right index (by omega)]
  · intro agree
    apply BitVec.eq_of_getLsbD_eq
    intro index inside
    by_cases high : width - length ≤ index
    · simp [leadingMask, agree index high]
    · have cleared : index < width - length := by omega
      simp [leadingMask, cleared]

@[simp] theorem masked_masked (word : BitVec width) (length : Nat) :
    word &&& leadingMask width length &&& leadingMask width length =
      word &&& leadingMask width length := by
  rw [BitVec.and_assoc, BitVec.and_self]

theorem masked_eq_self {word : BitVec width} (aligned : 2 ^ (width - length) ∣ word.toNat) :
    word &&& leadingMask width length = word := by
  rcases aligned with ⟨factor, equal⟩
  apply BitVec.eq_of_getLsbD_eq
  intro index inside
  by_cases low : index < width - length
  · have clear : word.getLsbD index = false := by
      rw [BitVec.getLsbD, equal, Nat.testBit_two_pow_mul]
      simp [Nat.not_le.mpr low]
    simp [clear]
  · simp [leadingMask, inside, low]

def leBytes : (count value : Nat) → List U8
  | 0, _ => []
  | count + 1, value => BitVec.ofNat 8 value :: leBytes count (value / 256)

def beBytes : (count value : Nat) → List U8
  | 0, _ => []
  | count + 1, value =>
      BitVec.ofNat 8 (value / 256 ^ count) :: beBytes count (value % 256 ^ count)

def leValue : List U8 → Nat
  | [] => 0
  | byte :: rest => byte.toNat + 256 * leValue rest

@[simp] theorem leBytes_length (count value : Nat) : (leBytes count value).length = count := by
  induction count generalizing value with
  | zero => rfl
  | succ count induction => simp [leBytes, induction]

@[simp] theorem beBytes_length (count value : Nat) : (beBytes count value).length = count := by
  induction count generalizing value with
  | zero => rfl
  | succ count induction => simp [beBytes, induction]

theorem leValue_leBytes {value : Nat} (fits : value < 256 ^ count) :
    leValue (leBytes count value) = value := by
  induction count generalizing value with
  | zero =>
      have zero : value = 0 := by simpa using fits
      simp [leBytes, leValue, zero]
  | succ count induction =>
      have rest : value / 256 < 256 ^ count := by
        rw [Nat.pow_succ] at fits
        exact Nat.div_lt_of_lt_mul (by omega)
      simp only [leBytes, leValue, induction rest, BitVec.toNat_ofNat]
      omega

theorem leBytes_injective {left right : Nat} (leftFits : left < 256 ^ count)
    (rightFits : right < 256 ^ count)
    (equal : leBytes count left = leBytes count right) : left = right := by
  rw [← leValue_leBytes leftFits, ← leValue_leBytes rightFits, equal]

private theorem toNat_lt_bytes (word : BitVec (8 * count)) : word.toNat < 256 ^ count := by
  simpa [Nat.pow_mul] using word.isLt

theorem leBytes_word_inj (count : Nat) {left right : BitVec (8 * count)} :
    leBytes count left.toNat = leBytes count right.toNat ↔ left = right := by
  constructor
  · intro equal
    exact BitVec.eq_of_toNat_eq
      (leBytes_injective (toNat_lt_bytes left) (toNat_lt_bytes right) equal)
  · intro equal
    rw [equal]

/-! ## Agreement of byte strings on a number of leading bits -/

/-- Whether two byte strings agree on their first `length` bits, most
significant bit of each byte first. -/
def bitsAgree : (length : Nat) → List U8 → List U8 → Bool
  | length, left :: lefts, right :: rights =>
      if 8 ≤ length then left == right && bitsAgree (length - 8) lefts rights
      else leadingBits length left == leadingBits length right
  | _, _, _ => true

theorem bitsAgree_append (leading leading' rest rest' : List U8) (length : Nat)
    (sameLength : leading.length = leading'.length) :
    bitsAgree (8 * leading.length + length) (leading ++ rest) (leading' ++ rest') ↔
      leading = leading' ∧ bitsAgree length rest rest' := by
  induction leading generalizing leading' with
  | nil =>
      have empty : leading' = [] := List.length_eq_zero_iff.mp sameLength.symm
      simp [empty]
  | cons byte leading induction =>
      cases leading' with
      | nil => simp at sameLength
      | cons byte' leading' =>
          have sameRest : leading.length = leading'.length := by simpa using sameLength
          have inner := induction leading' sameRest
          have remaining : 8 * (byte :: leading).length + length - 8 =
              8 * leading.length + length := by
            simp only [List.length_cons]
            omega
          have whole : 8 ≤ 8 * (byte :: leading).length + length := by
            simp only [List.length_cons]
            omega
          simp only [List.cons_append, bitsAgree, if_pos whole, remaining,
            Bool.and_eq_true, beq_iff_eq, inner, List.cons.injEq, and_assoc]

theorem bitsAgree_self (length : Nat) (bytes : List U8) : bitsAgree length bytes bytes := by
  induction bytes generalizing length with
  | nil => simp [bitsAgree]
  | cons byte bytes induction => simp [bitsAgree, induction]

theorem bitsAgree_zero (left right : List U8) : bitsAgree 0 left right := by
  cases left with
  | nil => simp [bitsAgree]
  | cons byte left =>
      cases right with
      | nil => simp [bitsAgree]
      | cons byte' right => simp [bitsAgree, leadingBits_zero byte byte']

private theorem div_pow_eq_iff {high low high' low' place : Nat}
    (lowFits : low < 256 ^ place) (lowFits' : low' < 256 ^ place) {cut : Nat}
    (within : cut ≤ 8 * place) :
    (high * 256 ^ place + low) / 2 ^ cut = (high' * 256 ^ place + low') / 2 ^ cut ↔
      high = high' ∧ low / 2 ^ cut = low' / 2 ^ cut := by
  have power : 256 ^ place = 2 ^ (8 * place - cut) * 2 ^ cut := by
    rw [← Nat.pow_add, Nat.sub_add_cancel within, Nat.pow_mul]
  have split : ∀ top bottom, (top * 256 ^ place + bottom) / 2 ^ cut =
      top * 2 ^ (8 * place - cut) + bottom / 2 ^ cut := by
    intro top bottom
    rw [power, ← Nat.mul_assoc, Nat.add_comm, Nat.add_mul_div_right _ _ (Nat.two_pow_pos cut),
      Nat.add_comm]
  have bound : ∀ bottom, bottom < 256 ^ place → bottom / 2 ^ cut < 2 ^ (8 * place - cut) := by
    intro bottom fits
    rw [power] at fits
    exact Nat.div_lt_of_lt_mul (by rwa [Nat.mul_comm] at fits)
  rw [split, split]
  constructor
  · intro equal
    have lows := congrArg (· % 2 ^ (8 * place - cut)) equal
    simp only [Nat.mul_add_mod_of_lt (bound low lowFits),
      Nat.mul_add_mod_of_lt (bound low' lowFits')] at lows
    refine ⟨?_, ?_⟩
    · have positive : 0 < 2 ^ (8 * place - cut) := Nat.two_pow_pos _
      rw [lows] at equal
      exact Nat.eq_of_mul_eq_mul_right positive (Nat.add_right_cancel equal)
    · simpa [Nat.mul_add_mod_of_lt, Nat.mod_eq_of_lt, bound low lowFits,
        bound low' lowFits'] using lows
  · rintro ⟨rfl, equal⟩
    rw [equal]

private theorem byte_ofNat_eq_iff {left right : Nat} (leftFits : left < 256)
    (rightFits : right < 256) : (BitVec.ofNat 8 left = BitVec.ofNat 8 right) ↔ left = right := by
  rw [← BitVec.toNat_inj, BitVec.toNat_ofNat, BitVec.toNat_ofNat,
    Nat.mod_eq_of_lt leftFits, Nat.mod_eq_of_lt rightFits]

theorem bitsAgree_beBytes {left right : Nat}
    (leftFits : left < 256 ^ count) (rightFits : right < 256 ^ count)
    (within : length ≤ 8 * count) :
    bitsAgree length (beBytes count left) (beBytes count right) ↔
      left / 2 ^ (8 * count - length) = right / 2 ^ (8 * count - length) := by
  induction count generalizing length left right with
  | zero =>
      have leftZero : left = 0 := by simpa using leftFits
      have rightZero : right = 0 := by simpa using rightFits
      simp [leftZero, rightZero, bitsAgree_self]
  | succ count induction =>
      have topFits : ∀ value, value < 256 ^ (count + 1) → value / 256 ^ count < 256 := by
        intro value fits
        rw [Nat.pow_succ] at fits
        exact Nat.div_lt_of_lt_mul fits
      have restFits : ∀ value, value % 256 ^ count < 256 ^ count := fun value =>
        Nat.mod_lt _ (by positivity)
      have leftTop := topFits left leftFits
      have rightTop := topFits right rightFits
      by_cases whole : 8 ≤ length
      · have fewer : length - 8 ≤ 8 * count := by omega
        have inner := induction (restFits left) (restFits right) fewer
        have cut : 8 * (count + 1) - length = 8 * count - (length - 8) := by omega
        have parts := @div_pow_eq_iff (left / 256 ^ count) _ (right / 256 ^ count) _ _
          (restFits left) (restFits right) _ (Nat.sub_le (8 * count) (length - 8))
        rw [Nat.div_add_mod', Nat.div_add_mod'] at parts
        rw [cut, parts, ← inner]
        simp only [beBytes, bitsAgree, if_pos whole, Bool.and_eq_true, beq_iff_eq,
          byte_ofNat_eq_iff leftTop rightTop]
      · have cut : 8 * (count + 1) - length = 8 * count + (8 - length) := by omega
        rw [cut, Nat.pow_add, Nat.pow_mul, ← Nat.div_div_eq_div_mul, ← Nat.div_div_eq_div_mul]
        simp only [beBytes, bitsAgree, if_neg whole, beq_iff_eq, leadingBits, BitVec.toNat_ofNat]
        simp only [show 2 ^ 8 = 256 from rfl, Nat.mod_eq_of_lt leftTop, Nat.mod_eq_of_lt rightTop]

theorem bitsAgree_beBytes_word {count length : Nat} (left right : BitVec (8 * count))
    (within : length ≤ 8 * count) :
    bitsAgree length (beBytes count left.toNat) (beBytes count right.toNat) ↔
      leadingBits length left = leadingBits length right := by
  exact bitsAgree_beBytes (toNat_lt_bytes left) (toNat_lt_bytes right) within

end Words

end FlowSdn
