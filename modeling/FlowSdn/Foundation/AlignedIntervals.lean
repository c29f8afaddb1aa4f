import Mathlib.Tactic

/-! # Aligned power-of-two intervals

An interval of `2 ^ bits` numbers that starts at a multiple of its size. Two of them are nested or
apart.
-/

namespace FlowSdn.AlignedIntervals

/-- The interval of `2 ^ bits` numbers from `start`, aligned to its size, within bounds. -/
structure Within (low high start bits : Nat) : Prop where
  aligned : 2 ^ bits ∣ start
  lower : low ≤ start
  upper : start + 2 ^ bits ≤ high

/-- An aligned interval that starts inside another one, after its start, ends inside it. -/
theorem end_le_of_start_lt {outer inner outerBits innerBits : Nat}
    (outerAligned : 2 ^ outerBits ∣ outer)
    (innerAligned : 2 ^ innerBits ∣ inner) (after : outer < inner)
    (inside : inner < outer + 2 ^ outerBits) : inner + 2 ^ innerBits ≤ outer + 2 ^ outerBits := by
  rcases Nat.le_total innerBits outerBits with smaller | larger
  · have endAligned : 2 ^ innerBits ∣ outer + 2 ^ outerBits :=
      dvd_add ((Nat.pow_dvd_pow 2 smaller).trans outerAligned) (Nat.pow_dvd_pow 2 smaller)
    rcases endAligned with ⟨count, isEnd⟩
    rcases innerAligned with ⟨position, isInner⟩
    rw [isEnd, isInner] at inside
    have before : position < count := Nat.lt_of_mul_lt_mul_left inside
    calc inner + 2 ^ innerBits = 2 ^ innerBits * (position + 1) := by rw [isInner]; ring
      _ ≤ 2 ^ innerBits * count := Nat.mul_le_mul_left _ before
      _ = outer + 2 ^ outerBits := isEnd.symm
  · -- A larger interval would start at a multiple of the outer size, but there is none inside.
    rcases (Nat.pow_dvd_pow 2 larger).trans innerAligned with ⟨position, isInner⟩
    rcases outerAligned with ⟨count, isOuter⟩
    rw [isInner, isOuter] at after
    have beyond : count < position := Nat.lt_of_mul_lt_mul_left after
    have reached : outer + 2 ^ outerBits ≤ inner := by
      calc outer + 2 ^ outerBits = 2 ^ outerBits * (count + 1) := by rw [isOuter]; ring
        _ ≤ 2 ^ outerBits * position := Nat.mul_le_mul_left _ beyond
        _ = inner := isInner.symm
    omega

/-- No aligned interval within the bounds has the number strictly inside. -/
def Cut (low high position : Nat) : Prop :=
  ∀ start bits, Within low high start bits → ¬(start < position ∧ position < start + 2 ^ bits)

theorem cut_low (low high : Nat) : Cut low high low := by
  intro start bits within crossed
  have lower := within.lower
  omega

theorem Cut.next {low high position bits : Nat} (cut : Cut low high position)
    (aligned : 2 ^ bits ∣ position)
    (largest : ∀ other, 2 ^ other ∣ position → position + 2 ^ other ≤ high → other ≤ bits) :
    Cut low high (position + 2 ^ bits) := by
  intro start other within crossed
  rcases Nat.lt_trichotomy start position with before | same | after
  · have positive : 0 < 2 ^ bits := Nat.two_pow_pos bits
    exact cut start other within ⟨before, by omega⟩
  · subst same
    have smaller :=
      Nat.pow_le_pow_right (n := 2) (by decide) (largest other within.aligned within.upper)
    omega
  · have ended := end_le_of_start_lt aligned within.aligned after crossed.1
    omega

theorem Cut.start_eq {low high position start bits : Nat} (cut : Cut low high position)
    (within : Within low high start bits) (holds : start ≤ position ∧ position < start + 2 ^ bits) :
    start = position := by
  by_contra different
  exact cut start bits within ⟨by omega, holds.2⟩

end FlowSdn.AlignedIntervals
