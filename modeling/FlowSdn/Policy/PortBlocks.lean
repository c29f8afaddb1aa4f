import FlowSdn.Foundation.AlignedIntervals
import FlowSdn.Policy.Ports

/-! # The decomposition of a port range

The loop that cuts a range into blocks with the checks of its machine arithmetic, and
what the blocks are: disjoint, exact, and as few as any aligned blocks with that union.
-/

namespace FlowSdn.Policy

open Words Abi AlignedIntervals

/-! ## The loop with its checks -/

/-- Why a run of the loop has no result. -/
inductive Stuck
  /-- It has not come to an end yet. -/
  | unfinished
  /-- A conversion or a shift is out of range. -/
  | failed (expectation : String)
  deriving DecidableEq

def saturating (value : Nat) : Nat := min value (2 ^ 32 - 1)

/-- So many rounds of the loop of `blocks`, in 32-bit arithmetic. -/
def blocksLoop (finish : Nat) : (rounds cursor : Nat) → Except Stuck (List PortBlock)
  | 0, cursor => if cursor ≤ finish then .error .unfinished else .ok []
  | rounds + 1, cursor =>
      if cursor ≤ finish then
        let remaining := saturating (finish - cursor + 1)
        let alignmentBits := if cursor = 0 then 16 else min (trailingZeros 32 cursor) 16
        let sizeBits := 31 - leadingZeros remaining
        let bits := min alignmentBits sizeBits
        if 2 ^ 16 ≤ cursor then .error (.failed "cursor is within u16 range")
        else if 2 ^ 8 ≤ 16 - bits then .error (.failed "prefix at most 16")
        else if 32 ≤ bits then .error (.failed "block fits in u32")
        else
          match blocksLoop finish rounds (saturating (cursor + 2 ^ bits)) with
          | .error stuck => .error stuck
          | .ok rest =>
              .ok ({ port := BitVec.ofNat 16 cursor,
                     portPrefix := BitVec.ofNat 8 (16 - bits) } :: rest)
      else .ok []

def PortRange.runBlocks (range : PortRange) (rounds : Nat) : Except Stuck (List PortBlock) :=
  blocksLoop range.finish.toNat rounds range.start.toNat

theorem saturating_of_le {value : Nat} (small : value ≤ 2 ^ 16) : saturating value = value := by
  unfold saturating
  omega

section Loop

variable {cursor finish : Nat}

theorem blocksLoop_succ (within : cursor ≤ finish) (fits : finish < 2 ^ 16) (rounds : Nat) :
    blocksLoop finish (rounds + 1) cursor =
      match blocksLoop finish rounds (cursor + 2 ^ blockBits cursor finish) with
      | .error stuck => .error stuck
      | .ok rest =>
          .ok ({ port := BitVec.ofNat 16 cursor
                 portPrefix := BitVec.ofNat 8 (16 - blockBits cursor finish) } :: rest) := by
  have bits := @blockBits_le cursor finish
  have advance := cursor_add_two_pow_blockBits_le within fits
  have remaining : saturating (finish - cursor + 1) = finish - cursor + 1 :=
    saturating_of_le (by omega)
  have moved : saturating (cursor + 2 ^ blockBits cursor finish) =
      cursor + 2 ^ blockBits cursor finish := saturating_of_le (by omega)
  have same : min (if cursor = 0 then 16 else min (trailingZeros 32 cursor) 16)
      (31 - leadingZeros (finish - cursor + 1)) = blockBits cursor finish := rfl
  rw [blocksLoop, if_pos within]
  simp only [remaining, same, moved]
  rw [if_neg (by omega), if_neg (by omega), if_neg (by omega)]

theorem blocksLoop_eq {rounds : Nat} (fits : finish < 2 ^ 16)
    (enough : finish + 1 ≤ cursor + rounds) :
    blocksLoop finish rounds cursor = .ok (blocksFrom finish rounds cursor) := by
  induction rounds generalizing cursor with
  | zero =>
      rw [blocksLoop, if_neg (by omega)]
      rfl
  | succ rounds induction =>
      by_cases within : cursor ≤ finish
      · have positive : 0 < 2 ^ blockBits cursor finish := Nat.two_pow_pos _
        rw [blocksLoop_succ within fits, induction (by omega), blocksFrom, if_pos within]
      · rw [blocksLoop, if_neg within, blocksFrom, if_neg within]

theorem blocksFrom_of_enough {rounds more : Nat}
    (enough : finish + 1 ≤ cursor + rounds) (later : rounds ≤ more) :
    blocksFrom finish more cursor = blocksFrom finish rounds cursor := by
  induction rounds generalizing cursor more with
  | zero =>
      cases more with
      | zero => rfl
      | succ more =>
          have beyond : ¬cursor ≤ finish := by omega
          simp only [blocksFrom, if_neg beyond]
  | succ rounds induction =>
      cases more with
      | zero => omega
      | succ more =>
          by_cases within : cursor ≤ finish
          · have positive : 0 < 2 ^ blockBits cursor finish := Nat.two_pow_pos _
            rw [blocksFrom, blocksFrom, if_pos within, if_pos within,
              induction (by omega) (by omega)]
          · rw [blocksFrom, blocksFrom, if_neg within, if_neg within]

/-! ## Blocks as intervals -/

theorem le_trailingZeros {limit value bits : Nat} (positive : value ≠ 0) (small : bits ≤ limit)
    (divides : 2 ^ bits ∣ value) : bits ≤ trailingZeros limit value := by
  induction limit generalizing value bits with
  | zero => omega
  | succ limit induction =>
      cases bits with
      | zero => exact Nat.zero_le _
      | succ bits =>
          rcases divides with ⟨factor, isValue⟩
          rw [Nat.pow_succ'] at isValue
          have even : value % 2 = 0 := by
            rw [isValue, Nat.mul_assoc]
            exact Nat.mul_mod_right 2 _
          have half : value / 2 = 2 ^ bits * factor := by
            rw [isValue, Nat.mul_assoc, Nat.mul_div_cancel_left _ (by decide)]
          rw [trailingZeros, if_pos even]
          have below := induction (by omega) (Nat.le_of_succ_le_succ small) ⟨factor, half⟩
          omega

theorem le_blockBits {bits : Nat} (fits : finish < 2 ^ 16) (aligned : 2 ^ bits ∣ cursor)
    (inside : cursor + 2 ^ bits ≤ finish + 1) : bits ≤ blockBits cursor finish := by
  have positive : 0 < 2 ^ bits := Nat.two_pow_pos bits
  have small : bits ≤ 16 := by
    by_contra large
    have huge : 2 ^ 17 ≤ 2 ^ bits := Nat.pow_le_pow_right (by decide) (by omega)
    omega
  have nonzero : finish - cursor + 1 ≠ 0 := by omega
  have size : bits ≤ (finish - cursor + 1).log2 := (Nat.le_log2 nonzero).mpr (by omega)
  have bounded : (finish - cursor + 1).log2 < 17 := (Nat.log2_lt nonzero).mpr (by omega)
  by_cases zero : cursor = 0
  · simp only [blockBits, leadingZeros, if_neg nonzero, if_pos zero]
    omega
  · have zeros : bits ≤ trailingZeros 32 cursor := le_trailingZeros zero (by omega) aligned
    simp only [blockBits, leadingZeros, if_neg nonzero, if_neg zero]
    omega

end Loop

/-- How many low bits a block leaves free. -/
def PortBlock.freeBits (block : PortBlock) : Nat := 16 - block.portPrefix.toNat

theorem PortBlock.Aligned.dvd {block : PortBlock} (aligned : block.Aligned) :
    2 ^ block.freeBits ∣ block.port.toNat := by
  rcases aligned with ⟨short, masked⟩
  rw [portMask_eq short] at masked
  apply Nat.dvd_of_mod_eq_zero
  apply Nat.eq_of_testBit_eq
  intro index
  rw [Nat.testBit_mod_two_pow, Nat.zero_testBit]
  by_cases low : index < block.freeBits
  · have bit := congrArg (fun word => word.getLsbD index) masked
    have clear : (leadingMask 16 block.portPrefix.toNat).getLsbD index = false := by
      have outside : index < 16 - block.portPrefix.toNat := low
      simp [leadingMask, outside]
    simp only [BitVec.getLsbD_and, clear, Bool.and_false] at bit
    rw [← BitVec.getLsbD, ← bit, Bool.and_false]
  · simp [low]

theorem PortBlock.Aligned.matches_iff {block : PortBlock} (aligned : block.Aligned) {port : U16} :
    block.matches port ↔ block.port.toNat ≤ port.toNat ∧
      port.toNat < block.port.toNat + 2 ^ block.freeBits := by
  rw [PortBlock.matches_iff aligned.1]
  unfold leadingBits
  rw [← PortBlock.freeBits]
  rcases aligned.dvd with ⟨factor, isPort⟩
  have positive : 0 < 2 ^ block.freeBits := Nat.two_pow_pos _
  have quotient : block.port.toNat / 2 ^ block.freeBits = factor :=
    Nat.div_eq_of_eq_mul_right positive isPort
  rw [quotient, Nat.div_eq_iff positive, isPort, Nat.mul_comm factor]
  omega

namespace PortRange

variable {range : PortRange}

variable {block : PortBlock}

theorem within_of_matches (aligned : block.Aligned)
    (inside : ∀ port, block.matches port → range.contains port) :
    Within range.start.toNat (range.finish.toNat + 1) block.port.toNat block.freeBits := by
  have positive : 0 < 2 ^ block.freeBits := Nat.two_pow_pos _
  have bounded : block.port.toNat + 2 ^ block.freeBits ≤ 2 ^ 16 := by
    rcases aligned.dvd with ⟨factor, isPort⟩
    have small : block.freeBits ≤ 16 := Nat.sub_le _ _
    have whole : 2 ^ 16 = 2 ^ block.freeBits * 2 ^ (16 - block.freeBits) := by
      rw [← Nat.pow_add, Nat.add_sub_cancel' small]
    have less := block.port.isLt
    rw [isPort, whole] at less
    have before : factor < 2 ^ (16 - block.freeBits) := Nat.lt_of_mul_lt_mul_left less
    calc block.port.toNat + 2 ^ block.freeBits = 2 ^ block.freeBits * (factor + 1) := by
          rw [isPort]; ring
      _ ≤ 2 ^ block.freeBits * 2 ^ (16 - block.freeBits) := Nat.mul_le_mul_left _ before
      _ = 2 ^ 16 := whole.symm
  have first := inside block.port (aligned.matches_iff.mpr ⟨Nat.le_refl _, by omega⟩)
  have last := inside (BitVec.ofNat 16 (block.port.toNat + 2 ^ block.freeBits - 1)) (by
    rw [aligned.matches_iff, BitVec.toNat_ofNat, Nat.mod_eq_of_lt (by omega)]
    omega)
  simp only [contains, Bool.and_eq_true, decide_eq_true_eq, BitVec.le_def, BitVec.toNat_ofNat]
    at first last
  rw [Nat.mod_eq_of_lt (by omega)] at last
  exact ⟨aligned.dvd, first.1, by omega⟩

/-! ## Disjoint and fewest -/

/-- Every block of the loop starts at a cut of the range, at or after the cursor. -/
theorem cut_of_mem_blocksFrom {low cursor finish rounds : Nat} (fits : finish < 2 ^ 16)
    (cut : Cut low (finish + 1) cursor) (member : block ∈ blocksFrom finish rounds cursor) :
    Cut low (finish + 1) block.port.toNat ∧ cursor ≤ block.port.toNat ∧
      block.port.toNat ≤ finish := by
  induction rounds generalizing cursor with
  | zero => cases member
  | succ rounds induction =>
      by_cases within : cursor ≤ finish
      · rw [blocksFrom, if_pos within, List.mem_cons] at member
        rcases member with same | later
        · rw [same, toNat_blockPort within fits]
          exact ⟨cut, Nat.le_refl _, within⟩
        · have next := cut.next two_pow_blockBits_dvd fun other => le_blockBits fits
          rcases induction next later with ⟨isCut, after, inside⟩
          exact ⟨isCut, Nat.le_trans (Nat.le_add_right _ _) after, inside⟩
      · rw [blocksFrom, if_neg within] at member
        cases member

/-- The blocks of the loop stand in the order of their ports, each after the one before. -/
theorem pairwise_blocksFrom {cursor finish rounds : Nat} (fits : finish < 2 ^ 16) :
    (blocksFrom finish rounds cursor).Pairwise fun block later =>
      ∀ port, block.matches port → port.toNat < later.port.toNat := by
  induction rounds generalizing cursor with
  | zero => exact List.Pairwise.nil
  | succ rounds induction =>
      by_cases within : cursor ≤ finish
      · rw [blocksFrom, if_pos within]
        refine List.pairwise_cons.mpr ⟨fun later member port held => ?_, induction⟩
        have next := cut_of_mem_blocksFrom fits
          ((cut_low cursor (finish + 1)).next two_pow_blockBits_dvd fun other => le_blockBits fits)
            member
        have upper := ((head_matches_iff within fits).mp held).2
        omega
      · rw [blocksFrom, if_neg within]
        exact List.Pairwise.nil

theorem start_of_matches (aligned : block.Aligned) : block.matches block.port := by
  rw [aligned.matches_iff]
  have positive : 0 < 2 ^ block.freeBits := Nat.two_pow_pos _
  omega

/-- Any aligned blocks with the range as their union have a block wherever the loop has
one start. -/
theorem length_blocks_le {other : List PortBlock} (aligned : ∀ block ∈ other, block.Aligned)
    (same : ∀ port, (∃ block ∈ other, block.matches port) ↔ range.contains port) :
    range.blocks.length ≤ other.length := by
  have fits : range.finish.toNat < 2 ^ 16 := range.finish.isLt
  have starts : range.blocks.map PortBlock.port ⊆ other.map PortBlock.port := by
    intro port listed
    rcases List.mem_map.mp listed with ⟨block, member, isPort⟩
    have cut := (cut_of_mem_blocksFrom fits (cut_low _ _) member).1
    have held := (exists_mem_blocks_matches range block.port).mp
      ⟨block, member, start_of_matches (aligned_of_mem_blocks member)⟩
    rcases (same block.port).mpr held with ⟨cover, isCover, holds⟩
    have within :
        Within range.start.toNat (range.finish.toNat + 1) cover.port.toNat cover.freeBits :=
      within_of_matches (aligned cover isCover) fun port matched =>
        (same port).mp ⟨cover, isCover, matched⟩
    have start := cut.start_eq within ((aligned cover isCover).matches_iff.mp holds)
    rw [← isPort]
    exact List.mem_map.mpr ⟨cover, isCover, BitVec.eq_of_toNat_eq start⟩
  have distinct : (range.blocks.map PortBlock.port).Nodup := by
    rw [List.nodup_iff_pairwise_ne, List.pairwise_map]
    refine (pairwise_blocksFrom fits).imp_of_mem fun {block later} member _ ordered equal => ?_
    have before := ordered block.port (start_of_matches (aligned_of_mem_blocks member))
    rw [equal] at before
    omega
  have count := (distinct.subperm starts).length_le
  simpa using count

/-- The decomposition of a range: the loop ends within as many rounds as the range has
ports, with every conversion and shift in range; its blocks are aligned and disjoint and
hold exactly the ports of the range; and no fewer aligned blocks do. -/
theorem blocks_exact_and_fewest (range : PortRange) :
    (∀ rounds, range.finish.toNat - range.start.toNat + 1 ≤ rounds →
      range.runBlocks rounds = .ok range.blocks) ∧
    (∀ block ∈ range.blocks, block.Aligned ∧ ∀ port, block.matches port ↔
      block.port.toNat ≤ port.toNat ∧
        port.toNat < block.port.toNat + 2 ^ (16 - block.portPrefix.toNat)) ∧
    (range.blocks.Pairwise fun block other => ∀ port, ¬(block.matches port ∧ other.matches port)) ∧
    (∀ port, (∃ block ∈ range.blocks, block.matches port) ↔ range.contains port) ∧
    ∀ other : List PortBlock, (∀ block ∈ other, block.Aligned) →
      (∀ port, (∃ block ∈ other, block.matches port) ↔ range.contains port) →
      range.blocks.length ≤ other.length := by
  have ordered : range.start.toNat ≤ range.finish.toNat := range.ordered
  have fits : range.finish.toNat < 2 ^ 16 := range.finish.isLt
  refine ⟨?_, ?_, ?_, exists_mem_blocks_matches range, fun other => length_blocks_le⟩
  · intro rounds enough
    rw [runBlocks, blocksLoop_eq fits (by omega), blocksFrom_of_enough (by omega) enough, blocks]
  · intro block member
    have aligned := aligned_of_mem_blocks member
    exact ⟨aligned, fun port => aligned.matches_iff⟩
  · refine (pairwise_blocksFrom fits).imp_of_mem fun {block other} _ member after port both => ?_
    have later := ((aligned_of_mem_blocks member).matches_iff.mp both.2).1
    have before := after port both.1
    omega

end PortRange

end FlowSdn.Policy
