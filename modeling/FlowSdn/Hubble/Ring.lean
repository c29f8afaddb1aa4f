import FlowSdn.Foundation.Words

/-! # The flow ring

Events are written to the slots in turn and read by position. The newest one is not read before
the next is written, and a reader that was overtaken is told of one loss for each position.
-/

namespace FlowSdn.Hubble

open Words

inductive Read (α : Type u)
  | event (value : α)
  | lost (count : U64)
  | ended
  deriving DecidableEq

inductive InvalidCapacity
  | invalidCapacity
  deriving DecidableEq

structure MemoryRing (α : Type u) where
  slots : List (Option α)
  mask : U64
  next : U64
  filled : Nat
  deriving DecidableEq

namespace MemoryRing

variable {α : Type u}

def new (capacity : U32) : Except InvalidCapacity (MemoryRing α) :=
  if capacity = 0 ∨ 65535 < capacity ∨ capacity &&& saturatingAdd capacity 1 ≠ 0 then
    .error .invalidCapacity
  else .ok {
    slots := List.replicate (saturatingAdd capacity 1).toNat none
    mask := capacity.setWidth 64
    next := 0
    filled := 0 }

def slot (ring : MemoryRing α) (sequence : U64) : Nat := (sequence &&& ring.mask).toNat

def push (ring : MemoryRing α) (event : α) : U64 × MemoryRing α :=
  (ring.next, {
    slots := ring.slots.set (ring.slot ring.next) (some event)
    mask := ring.mask
    next := ring.next + 1
    filled := min (ring.filled + 1) ring.slots.length })

def read (ring : MemoryRing α) (sequence : U64) : Read α :=
  if ring.filled = 0 then .ended
  else
    let distance := ring.next - 1 - sequence
    if distance = 0 ∨ 2 ^ 63 ≤ distance.toNat then .ended
    else if ring.mask < distance then .lost 1
    else
      match ring.slots[ring.slot sequence]?.join with
      | some value => .event value
      | none => .lost 1

/-- The cursor stays at the end, and moves on after an event or a loss. -/
def readNext (ring : MemoryRing α) (cursor : U64) : Read α × U64 :=
  match ring.read cursor with
  | .ended => (.ended, cursor)
  | value => (value, cursor + 1)

/-! ## What the slots hold -/

/-- The ring after these events; the latest of them are in their slots. -/
structure Carries (ring : MemoryRing α) (capacity : Nat) (events : List α) : Prop where
  mask : ring.mask.toNat = capacity
  size : ∃ bits, capacity + 1 = 2 ^ bits
  length : ring.slots.length = capacity + 1
  next : ring.next = BitVec.ofNat 64 events.length
  filled : ring.filled = 0 ↔ events = []
  stored : ∀ position < events.length, events.length ≤ position + (capacity + 1) →
    ring.slots[position % (capacity + 1)]? = some events[position]?

section Carries

variable {ring : MemoryRing α} {capacity : Nat} {events : List α}

theorem Carries.slot_ofNat (carries : Carries ring capacity events) {position : Nat}
    (small : position < 2 ^ 64) :
    ring.slot (BitVec.ofNat 64 position) = position % (capacity + 1) := by
  rcases carries.size with ⟨bits, size⟩
  have mask : ring.mask.toNat = 2 ^ bits - 1 := by
    have same := carries.mask
    omega
  rw [slot, BitVec.toNat_and, BitVec.toNat_ofNat, Nat.mod_eq_of_lt small, mask,
    Nat.and_two_pow_sub_one_eq_mod, size]

theorem Carries.push (carries : Carries ring capacity events) (event : α)
    (small : events.length < 2 ^ 64) :
    Carries (ring.push event).2 capacity (events ++ [event]) := by
  have here : ring.slot ring.next = events.length % (capacity + 1) := by
    rw [carries.next, carries.slot_ofNat small]
  have room : events.length % (capacity + 1) < ring.slots.length := by
    rw [carries.length]
    exact Nat.mod_lt _ (Nat.succ_pos _)
  refine ⟨carries.mask, carries.size, ?_, ?_, ?_, ?_⟩
  · rw [MemoryRing.push, List.length_set, carries.length]
  · rw [MemoryRing.push, carries.next, List.length_append]
    exact (BitVec.ofNat_add ..).symm
  · simp [MemoryRing.push, carries.length]
  · intro position inside recent
    rw [List.length_append, List.length_singleton] at inside recent
    rw [MemoryRing.push, here]
    by_cases newest : position = events.length
    · rw [newest, List.getElem?_set_self room, List.getElem?_append_right (Nat.le_refl _)]
      simp
    · have older : position < events.length := by omega
      have apart : events.length % (capacity + 1) ≠ position % (capacity + 1) := by
        intro same
        have divides := (Nat.modEq_iff_dvd' (Nat.le_of_lt older)).mp same.symm
        have bound := Nat.le_of_dvd (by omega) divides
        omega
      rw [List.getElem?_set_ne apart, List.getElem?_append_left older]
      exact carries.stored position older (by omega)

end Carries

/-- What a position holds once these events were pushed. -/
def expected (capacity : Nat) (events : List α) (position : Nat) : Read α :=
  if events.length ≤ position + 1 then .ended
  else if position + 1 + capacity < events.length then .lost 1
  else
    match events[position]? with
    | some value => .event value
    | none => .lost 1

theorem expected_cases (capacity : Nat) (events : List α) (position : Nat) :
    (expected capacity events position = .ended ∧ events.length ≤ position + 1) ∨
    (expected capacity events position = .lost 1 ∧ position + 1 + capacity < events.length) ∨
    ∃ event, expected capacity events position = .event event ∧
      events[position]? = some event ∧ position + 1 < events.length ∧
      events.length ≤ position + 1 + capacity := by
  unfold expected
  split_ifs with unread late
  · exact .inl ⟨rfl, unread⟩
  · exact .inr (.inl ⟨rfl, late⟩)
  · have inside : position < events.length := by omega
    rw [List.getElem?_eq_getElem inside]
    exact .inr (.inr ⟨events[position], rfl, rfl, by omega, by omega⟩)

theorem Carries.read_eq {ring : MemoryRing α} {capacity : Nat} {events : List α}
    (carries : Carries ring capacity events) (few : events.length < 2 ^ 63) {position : Nat}
    (small : position < 2 ^ 63) :
    ring.read (BitVec.ofNat 64 position) = expected capacity events position := by
  unfold read expected
  by_cases empty : events = []
  · subst events
    rw [if_pos (carries.filled.mpr rfl)]
    rfl
  · rw [if_neg fun none => empty (carries.filled.mp none), carries.next]
    have filled : 0 < events.length := List.length_pos_iff.mpr empty
    generalize gap : BitVec.ofNat 64 events.length - 1 - BitVec.ofNat 64 position = distance
    by_cases unread : events.length ≤ position + 1
    · have ends : distance = 0 ∨ 2 ^ 63 ≤ distance.toNat := by bv_omega
      rw [if_pos unread]
      exact if_pos ends
    · have apart : distance.toNat = events.length - 1 - position := by bv_omega
      have follows : ¬(distance = 0 ∨ 2 ^ 63 ≤ distance.toNat) := by bv_omega
      have lapped : ring.mask < distance ↔ position + 1 + capacity < events.length := by
        rw [BitVec.lt_def, carries.mask, apart]
        omega
      simp only [if_neg follows, if_neg unread, lapped]
      split_ifs with late
      · rfl
      · rw [carries.slot_ofNat (by omega), carries.stored position (by omega) (by omega),
          Option.join_some]

/-! ## Runs with a reader -/

inductive Call (α : Type u)
  | push (event : α)
  | readNext
  deriving DecidableEq

/-- A ring with a reader, and what the reader was given before the end. -/
structure Observed (α : Type u) where
  ring : MemoryRing α
  cursor : U64 := 0
  given : List (Read α) := []
  deriving DecidableEq

def Observed.step (observed : Observed α) : Call α → Observed α
  | .push event => { observed with ring := (observed.ring.push event).2 }
  | .readNext =>
      match observed.ring.readNext observed.cursor with
      | (.ended, cursor) => { observed with cursor }
      | (value, cursor) => { observed with cursor, given := observed.given ++ [value] }

def Call.pushed : Call α → Option α
  | .push event => some event
  | .readNext => none

/-- The event that was pushed at a position, or one loss. -/
def Faithful (events : List α) (position : Nat) (value : Read α) : Prop :=
  value = .lost 1 ∨ ∃ event, events[position]? = some event ∧ value = .event event

/-- The reader has gone through the first positions one by one. -/
structure Observed.Follows (observed : Observed α) (capacity : Nat) (events : List α) : Prop where
  carries : Carries observed.ring capacity events
  cursor : observed.cursor = BitVec.ofNat 64 observed.given.length
  behind : observed.given.length ≤ events.length
  faithful : ∀ position value, observed.given[position]? = some value →
    Faithful events position value

section Follows

variable {observed : Observed α} {capacity : Nat} {events : List α}

section

variable (follows : observed.Follows capacity events)

include follows

theorem Observed.Follows.push (event : α) (few : events.length < 2 ^ 63) :
    (observed.step (.push event)).Follows capacity (events ++ [event]) := by
  refine ⟨follows.carries.push event (by omega), follows.cursor, ?_, ?_⟩
  · exact Nat.le_trans follows.behind (by simp)
  · intro position value found
    rcases follows.faithful position value found with lost | ⟨pushed, there, same⟩
    · exact .inl lost
    · have inside := (List.getElem?_eq_some_iff.mp there).1
      exact .inr ⟨pushed, (List.getElem?_append_left inside).trans there, same⟩

/-- A position that is past the end for good is given once. -/
theorem Observed.Follows.give {value : Read α} (before : observed.given.length < events.length)
    (faithful : Faithful events observed.given.length value) :
    Observed.Follows ⟨observed.ring, observed.cursor + 1, observed.given ++ [value]⟩
      capacity events := by
  refine ⟨follows.carries, ?_, ?_, ?_⟩
  · rw [follows.cursor, List.length_append]
    exact (BitVec.ofNat_add ..).symm
  · simpa using before
  · intro position other found
    rcases Nat.lt_or_ge position observed.given.length with older | newest
    · rw [List.getElem?_append_left older] at found
      exact follows.faithful position other found
    · rw [List.getElem?_append_right newest, List.getElem?_singleton] at found
      split_ifs at found with last
      cases found
      have here : position = observed.given.length := by omega
      exact here ▸ faithful

theorem Observed.Follows.readNext
    (few : events.length < 2 ^ 63) : (observed.step .readNext).Follows capacity events := by
  have behind := follows.behind
  have small : observed.given.length < 2 ^ 63 := by omega
  have found := follows.carries.read_eq few small
  rw [← follows.cursor] at found
  unfold Observed.step MemoryRing.readNext
  rcases expected_cases capacity events observed.given.length with
    ⟨ended, _⟩ | ⟨lost, late⟩ | ⟨event, read, pushed, before, _⟩
  · rw [found, ended]
    exact follows
  · rw [found, lost]
    exact follows.give (by omega) (.inl rfl)
  · rw [found, read]
    exact follows.give (by omega) (.inr ⟨event, pushed, rfl⟩)

theorem Observed.Follows.run (calls : List (Call α))
    (few : (events ++ calls.filterMap Call.pushed).length < 2 ^ 63) :
    (calls.foldl Observed.step observed).Follows capacity
      (events ++ calls.filterMap Call.pushed) := by
  induction calls generalizing observed events with
  | nil => simpa using follows
  | cons call calls induction =>
      cases call with
      | push event =>
          have cons : (Call.push event :: calls).filterMap Call.pushed =
              [event] ++ calls.filterMap Call.pushed := rfl
          rw [cons, ← List.append_assoc] at few ⊢
          refine induction (follows.push event ?_) few
          simp only [List.length_append] at few
          omega
      | readNext =>
          refine induction (follows.readNext ?_) few
          rw [List.length_append] at few
          omega

end

end Follows

end MemoryRing

end FlowSdn.Hubble
