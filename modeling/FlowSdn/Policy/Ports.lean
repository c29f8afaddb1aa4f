import FlowSdn.Abi

/-! # Port ranges and their masked blocks

A range of ports becomes the aligned power-of-two blocks that a prefix match
can express. The blocks of a range match exactly its ports.
-/

namespace FlowSdn.Policy

open Words Abi

inductive Error
  | passWithAuthentication
  | invalidPriority
  | invalidPortRange
  | zeroStartRange
  | invalidProtocol
  | invalidRedirect
  | invalidName
  | revisionExhausted
  | oracleAuthenticationUnsupported
  deriving DecidableEq

def Error.text : Error → String
  | passWithAuthentication => "Pass and authentication cannot coexist for one subject"
  | invalidPriority => "policy priority must be finite and nonnegative"
  | invalidPortRange => "port range must be ordered"
  | zeroStartRange => "an explicit port range may not start at zero"
  | invalidProtocol => "protocol wildcard cannot constrain ports"
  | invalidRedirect => "listener priority requires a redirect port and must be at most 126"
  | invalidName => "policy resource or named-port selector name is empty"
  | revisionExhausted => "policy repository revision exhausted"
  | oracleAuthenticationUnsupported =>
      "oracle does not yet evaluate authentication inheritance"

structure PortRange where
  start : U16
  finish : U16
  ordered : start ≤ finish
  deriving DecidableEq

structure PortBlock where
  port : U16
  portPrefix : U8
  deriving DecidableEq

namespace PortRange

def any : PortRange where
  start := 0
  finish := BitVec.allOnes 16
  ordered := by decide

def fromApi (port : U16) (endPort : Option U16) : Except Error PortRange :=
  match endPort with
  | some finish =>
      if port = 0#16 then .error .zeroStartRange
      else if ordered : port ≤ finish then .ok ⟨port, finish, ordered⟩
      else .error .invalidPortRange
  | none =>
      if port = 0#16 then .ok any else .ok ⟨port, port, BitVec.le_refl port⟩

def contains (range : PortRange) (port : U16) : Bool :=
  range.start ≤ port && port ≤ range.finish

theorem contains_any (port : U16) : any.contains port := by
  have bound := port.isLt
  simp only [contains, any, Bool.and_eq_true, decide_eq_true_eq, BitVec.le_def,
    BitVec.toNat_allOnes]
  exact ⟨Nat.zero_le _, by omega⟩

end PortRange

/-! ## Blocks of a range -/

/-- Zeros below the lowest set bit, at most `limit` of them. -/
def trailingZeros : (limit value : Nat) → Nat
  | 0, _ => 0
  | limit + 1, value => if value % 2 = 0 then trailingZeros limit (value / 2) + 1 else 0

/-- Zeros above the highest set bit of a 32-bit number. -/
def leadingZeros (value : Nat) : Nat :=
  if value = 0 then 32 else 31 - value.log2

/-- How many low bits the block that starts at `cursor` leaves free. -/
def blockBits (cursor finish : Nat) : Nat :=
  let remaining := finish - cursor + 1
  let alignmentBits := if cursor = 0 then 16 else min (trailingZeros 32 cursor) 16
  let sizeBits := 31 - leadingZeros remaining
  min alignmentBits sizeBits

/-- The loop of `blocks`: every round moves the cursor, so a fuel of the range's
size is enough. -/
def blocksFrom (finish : Nat) : (fuel cursor : Nat) → List PortBlock
  | 0, _ => []
  | fuel + 1, cursor =>
      if cursor ≤ finish then
        { port := BitVec.ofNat 16 cursor
          portPrefix := BitVec.ofNat 8 (16 - blockBits cursor finish) } ::
            blocksFrom finish fuel (cursor + 2 ^ blockBits cursor finish)
      else []

def PortRange.blocks (range : PortRange) : List PortBlock :=
  blocksFrom range.finish.toNat (range.finish.toNat - range.start.toNat + 1) range.start.toNat

def PortBlock.matches (block : PortBlock) (port : U16) : Bool :=
  if block.portPrefix > 16#8 then false
  else port &&& portMask block.portPrefix = block.port &&& portMask block.portPrefix

/-- A block whose port has no bit below its prefix. -/
def PortBlock.Aligned (block : PortBlock) : Prop :=
  block.portPrefix ≤ 16#8 ∧ block.port &&& portMask block.portPrefix = block.port

theorem portMask_eq {portPrefix : U8} (short : portPrefix ≤ 16#8) :
    portMask portPrefix = leadingMask 16 portPrefix.toNat := by
  have bound : portPrefix.toNat ≤ 16 := short
  have length : 16 - (16 - portPrefix.toNat) = portPrefix.toNat := by omega
  simp [portMask, length]

theorem PortBlock.matches_iff {block : PortBlock} (short : block.portPrefix ≤ 16#8) {port : U16} :
    block.matches port ↔
      leadingBits block.portPrefix.toNat port = leadingBits block.portPrefix.toNat block.port := by
  have within : ¬block.portPrefix > 16#8 := BitVec.not_lt.mpr short
  rw [PortBlock.matches, if_neg within, portMask_eq short, decide_eq_true_eq, masked_eq_iff]

theorem two_pow_trailingZeros_dvd (limit value : Nat) : 2 ^ trailingZeros limit value ∣ value := by
  induction limit generalizing value with
  | zero => simp [trailingZeros]
  | succ limit induction =>
      by_cases even : value % 2 = 0
      · rcases induction (value / 2) with ⟨factor, half⟩
        have double : value = 2 * (value / 2) := by omega
        refine ⟨factor, ?_⟩
        rw [trailingZeros, if_pos even, Nat.pow_succ', Nat.mul_assoc, ← half]
        exact double
      · simp [trailingZeros, even]

section Blocks

variable {cursor finish : Nat}

theorem blockBits_le : blockBits cursor finish ≤ 16 := by
  unfold blockBits
  by_cases zero : cursor = 0
  · simp [zero]
  · simp only [if_neg zero]
    omega

theorem two_pow_blockBits_dvd : 2 ^ blockBits cursor finish ∣ cursor := by
  by_cases zero : cursor = 0
  · simp [zero]
  · have shorter : blockBits cursor finish ≤ trailingZeros 32 cursor := by
      simp only [blockBits, if_neg zero]
      omega
    exact (Nat.pow_dvd_pow 2 shorter).trans (two_pow_trailingZeros_dvd 32 cursor)

theorem cursor_add_two_pow_blockBits_le (within : cursor ≤ finish) (fits : finish < 2 ^ 16) :
    cursor + 2 ^ blockBits cursor finish ≤ finish + 1 := by
  have positive : finish - cursor + 1 ≠ 0 := by omega
  have small : (finish - cursor + 1).log2 < 17 := by
    rw [Nat.log2_lt positive]
    omega
  have sizeBits : blockBits cursor finish ≤ (finish - cursor + 1).log2 := by
    simp only [blockBits, leadingZeros, if_neg positive]
    omega
  have size : 2 ^ blockBits cursor finish ≤ finish - cursor + 1 :=
    (Nat.pow_le_pow_right (by decide) sizeBits).trans (Nat.log2_self_le positive)
  omega

theorem toNat_blockPrefix :
    (BitVec.ofNat 8 (16 - blockBits cursor finish)).toNat = 16 - blockBits cursor finish := by
  rw [BitVec.toNat_ofNat, Nat.mod_eq_of_lt (by omega)]

theorem blockPrefix_le : BitVec.ofNat 8 (16 - blockBits cursor finish) ≤ 16#8 := by
  rw [BitVec.le_def, toNat_blockPrefix]
  exact Nat.sub_le 16 _

section

variable (within : cursor ≤ finish) (fits : finish < 2 ^ 16)

include within fits

theorem toNat_blockPort : (BitVec.ofNat 16 cursor).toNat = cursor := by
  rw [BitVec.toNat_ofNat, Nat.mod_eq_of_lt (by omega)]

theorem head_matches_iff {port : U16} :
    (PortBlock.mk (BitVec.ofNat 16 cursor)
        (BitVec.ofNat 8 (16 - blockBits cursor finish))).matches port ↔
      cursor ≤ port.toNat ∧ port.toNat < cursor + 2 ^ blockBits cursor finish := by
  have bits := @blockBits_le cursor finish
  rw [PortBlock.matches_iff blockPrefix_le]
  simp only [leadingBits, toNat_blockPrefix, toNat_blockPort within fits]
  rw [show 16 - (16 - blockBits cursor finish) = blockBits cursor finish by omega]
  rcases @two_pow_blockBits_dvd cursor finish with ⟨factor, aligned⟩
  have positive : 0 < 2 ^ blockBits cursor finish := Nat.two_pow_pos _
  have quotient : cursor / 2 ^ blockBits cursor finish = factor :=
    Nat.div_eq_of_eq_mul_right positive aligned
  rw [quotient, Nat.div_eq_iff positive]
  constructor
  · intro between
    refine ⟨?_, ?_⟩
    · rw [aligned, Nat.mul_comm]
      exact between.1
    · have upper := between.2
      rw [Nat.mul_comm, ← aligned] at upper
      omega
  · intro between
    rw [Nat.mul_comm, ← aligned]
    omega

theorem head_aligned :
    (PortBlock.mk (BitVec.ofNat 16 cursor)
      (BitVec.ofNat 8 (16 - blockBits cursor finish))).Aligned := by
  have bits := @blockBits_le cursor finish
  refine ⟨blockPrefix_le, ?_⟩
  rw [portMask_eq blockPrefix_le, toNat_blockPrefix]
  apply masked_eq_self
  rw [toNat_blockPort within fits]
  rw [show 16 - (16 - blockBits cursor finish) = blockBits cursor finish by omega]
  exact two_pow_blockBits_dvd

end

theorem exists_mem_blocksFrom_matches {fuel : Nat} (fits : finish < 2 ^ 16)
    (enough : finish + 1 ≤ cursor + fuel) {port : U16} :
    (∃ block ∈ blocksFrom finish fuel cursor, block.matches port) ↔
      cursor ≤ port.toNat ∧ port.toNat ≤ finish := by
  induction fuel generalizing cursor with
  | zero =>
      simp only [blocksFrom, List.not_mem_nil, false_and, exists_false, false_iff]
      omega
  | succ fuel induction =>
      by_cases within : cursor ≤ finish
      · have advance := cursor_add_two_pow_blockBits_le within fits
        have positive : 0 < 2 ^ blockBits cursor finish := Nat.two_pow_pos _
        have rest := @induction (cursor + 2 ^ blockBits cursor finish) (by omega)
        simp only [blocksFrom, if_pos within, List.mem_cons, exists_eq_or_imp, rest,
          head_matches_iff within fits]
        omega
      · simp only [blocksFrom, if_neg within, List.not_mem_nil, false_and, exists_false, false_iff]
        omega

theorem aligned_of_mem_blocksFrom {fuel : Nat} (fits : finish < 2 ^ 16) {block : PortBlock}
    (member : block ∈ blocksFrom finish fuel cursor) : block.Aligned := by
  induction fuel generalizing cursor with
  | zero => cases member
  | succ fuel induction =>
      by_cases within : cursor ≤ finish
      · rw [blocksFrom, if_pos within, List.mem_cons] at member
        rcases member with same | later
        · rw [same]
          exact head_aligned within fits
        · exact induction later
      · rw [blocksFrom, if_neg within] at member
        cases member

end Blocks

namespace PortRange

theorem exists_mem_blocks_matches (range : PortRange) (port : U16) :
    (∃ block ∈ range.blocks, block.matches port) ↔ range.contains port := by
  have ordered : range.start.toNat ≤ range.finish.toNat := range.ordered
  rw [blocks, exists_mem_blocksFrom_matches range.finish.isLt (by omega)]
  simp [contains, BitVec.le_def]

theorem aligned_of_mem_blocks {range : PortRange} {block : PortBlock}
    (member : block ∈ range.blocks) : block.Aligned :=
  aligned_of_mem_blocksFrom range.finish.isLt member

end PortRange

end FlowSdn.Policy
