import FlowSdn.Foundation.FiniteMap
import FlowSdn.Ipam.HostScope

/-! # What a host scope allocates

The scope as a set of addresses: the range, and the free ones in it. The bitmap, the
owners and the exclusions are updated one by one; the invariant says how they agree
between operations.
-/

namespace FlowSdn.HostIpam.HostScope

open Net OrderedMap

theorem isIpv4_fromNumber (value : Nat) (ipv4 : Bool) : (fromNumber value ipv4).isIpv4 = ipv4 := by
  cases ipv4 <;> rfl

theorem hostBits_fromNumber (value : Nat) (address : IpAddr) :
    (fromNumber value address.isIpv4).hostBits = address.hostBits := by
  cases address <;> rfl

variable {address : IpAddr} {offset start : Nat} {after : HostScope} {prefixLen : Nat}
  {options : RangeOptions} {random : Nat → Nat → Nat}

theorem number_fromNumber {value : Nat} (small : value < 2 ^ address.hostBits) :
    number (fromNumber value address.isIpv4) = value := by
  cases address with
  | v4 address => exact Nat.mod_eq_of_lt small
  | v6 address => exact Nat.mod_eq_of_lt small

theorem fromNumber_number {ipv4 : Bool} (family : address.isIpv4 = ipv4) :
    fromNumber (number address) ipv4 = address := by
  subst family
  cases address <;> simp [fromNumber, number, IpAddr.toNat, IpAddr.isIpv4]

/-! ## Shape -/

/-- The range is not empty and lies among the addresses of its family. -/
structure Shape (scope : HostScope) : Prop where
  positive : 0 < scope.capacity
  last : scope.last + 1 = scope.first + scope.capacity
  bound : scope.first + scope.capacity ≤ 2 ^ scope.network.hostBits

theorem shape_new {scope : HostScope} (made : new address prefixLen options random = .ok scope) :
    scope.Shape := by
  unfold new at made
  split at made
  · cases made
  · rename_i supported
    simp only at made
    split at made
    · cases made
    · cases made
      have whole : 2 ^ address.hostBits = 2 ^ prefixLen * 2 ^ (address.hostBits - prefixLen) := by
        rw [← Nat.pow_add]
        congr 1
        omega
      have inside : number address / 2 ^ (address.hostBits - prefixLen) + 1 ≤ 2 ^ prefixLen := by
        apply Nat.succ_le_of_lt
        apply Nat.div_lt_of_lt_mul
        rw [Nat.mul_comm, ← whole]
        exact address.toNat_lt
      have above : number address / 2 ^ (address.hostBits - prefixLen) *
          2 ^ (address.hostBits - prefixLen) + 2 ^ (address.hostBits - prefixLen) ≤
          2 ^ address.hostBits := by
        rw [whole, ← Nat.succ_mul]
        exact Nat.mul_le_mul_right _ inside
      have large : 1 < address.hostBits - prefixLen → 4 ≤ 2 ^ (address.hostBits - prefixLen) := by
        intro wide
        exact Nat.pow_le_pow_right (show 0 < 2 by decide) wide
      have some : 0 < 2 ^ (address.hostBits - prefixLen) := Nat.two_pow_pos _
      have reserved : ∀ allow : Bool,
          ((decide (1 < address.hostBits - prefixLen) && !allow).toNat = 0) ∨
          ((decide (1 < address.hostBits - prefixLen) && !allow).toNat = 1 ∧
            1 < address.hostBits - prefixLen) := by
        intro allow
        by_cases wide : 1 < address.hostBits - prefixLen
        · cases allow <;> simp [wide]
        · simp [wide]
      rcases reserved options.allowFirstIp with low | ⟨low, wide⟩ <;>
        rcases reserved options.allowLastIp with high | ⟨high, wider⟩ <;>
        constructor <;> simp only [low, high, hostBits_fromNumber] <;> omega

variable {scope : HostScope} {owner : String} {result : Except Error IpAddr}

theorem isIpv4_addressAt (scope : HostScope) (offset : Nat) :
    (scope.addressAt offset).isIpv4 = scope.network.isIpv4 :=
  isIpv4_fromNumber _ _

theorem number_addressAt (shape : scope.Shape) (inside : offset < scope.capacity) :
    number (scope.addressAt offset) = scope.first + offset := by
  apply number_fromNumber
  have bound := shape.bound
  omega

theorem offset_eq_some_iff (shape : scope.Shape) :
    scope.offset address = some offset ↔
      offset < scope.capacity ∧ address = scope.addressAt offset := by
  have last := shape.last
  constructor
  · intro found
    unfold HostScope.offset at found
    split at found
    · cases found
    · rename_i family
      rw [ne_eq, not_not] at family
      split at found
      · cases found
      · rename_i inside
        cases found
        refine ⟨by omega, ?_⟩
        have same : scope.first + (number address - scope.first) = number address := by omega
        rw [addressAt, same, fromNumber_number family]
  · intro at_
    rcases at_ with ⟨inside, same⟩
    subst same
    have value := number_addressAt shape inside
    have position : scope.first + offset - scope.first = offset := by omega
    rw [HostScope.offset, if_neg (not_not_intro (isIpv4_addressAt scope offset)), value,
      if_neg (by omega), position]

theorem addressAt_injective (shape : scope.Shape) {other : Nat}
    (inside : offset < scope.capacity) (otherInside : other < scope.capacity)
    (same : scope.addressAt offset = scope.addressAt other) : offset = other := by
  have values := congrArg number same
  rw [number_addressAt shape inside, number_addressAt shape otherInside] at values
  exact Nat.add_left_cancel values

def range (scope : HostScope) : Finset IpAddr :=
  (Finset.range scope.capacity).image scope.addressAt

theorem mem_range (shape : scope.Shape) :
    address ∈ scope.range ↔ ∃ offset, scope.offset address = some offset := by
  simp only [range, Finset.mem_image, Finset.mem_range, offset_eq_some_iff shape]
  constructor
  · intro found
    rcases found with ⟨offset, inside, same⟩
    exact ⟨offset, inside, same.symm⟩
  · intro found
    rcases found with ⟨offset, inside, same⟩
    exact ⟨offset, inside, same.symm⟩

theorem card_range (shape : scope.Shape) : scope.range.card = scope.capacity := by
  rw [range, Finset.card_image_of_injOn, Finset.card_range]
  intro offset inside other otherInside same
  exact addressAt_injective shape (Finset.mem_range.mp inside)
    (Finset.mem_range.mp otherInside) same

def free (scope : HostScope) : Finset IpAddr :=
  scope.range.filter fun address => address ∉ scope.owners ∧ address ∉ scope.excluded

/-! ## Invariant -/

/-- Every bit stands for an owner, every owner for an address of the range, and every
exclusion marked as taken is one. -/
structure Sound (scope : HostScope) : Prop where
  shape : scope.Shape
  marked : ∀ offset < scope.capacity,
    scope.isSet offset = true ↔ scope.addressAt offset ∈ scope.owners
  inside : ∀ address ∈ scope.owners, address ∈ scope.range
  materialized : ∀ address ∈ scope.materializedExclusions,
    address ∈ scope.owners ∧ address ∈ scope.excluded

theorem sound_new (made : new address prefixLen options random = .ok scope) : scope.Sound := by
  have shape := shape_new made
  have fresh : scope.words = ∅ ∧ scope.owners = ∅ ∧ scope.materializedExclusions = ∅ := by
    unfold new at made
    split at made
    · cases made
    · simp only at made
      split at made
      · cases made
      · cases made
        exact ⟨rfl, rfl, rfl⟩
  rcases fresh with ⟨words, owners, materialized⟩
  constructor
  · exact shape
  · intro offset _
    simp [isSet, words, owners]
  · intro owned there
    simp [owners] at there
  · intro excluded there
    simp [materialized] at there

theorem sound_reserve (sound : scope.Sound) (inside : offset < scope.capacity)
    (owner : String) : (scope.reserve offset (scope.addressAt offset) owner).Sound := by
  constructor
  · exact ⟨sound.shape.positive, sound.shape.last, sound.shape.bound⟩
  · intro other otherInside
    change (scope.words.set offset).isSet other = true ↔
      scope.addressAt other ∈ scope.owners.insert (scope.addressAt offset) owner
    have before := sound.marked other otherInside
    rw [isSet] at before
    rw [Bitmap.isSet_set, Bool.or_eq_true, decide_eq_true_eq, before, mem_insert_iff]
    constructor
    · intro cases
      rcases cases with same | owned
      · exact .inl (congrArg scope.addressAt same)
      · exact .inr owned
    · intro cases
      rcases cases with same | owned
      · exact .inl (addressAt_injective sound.shape inside otherInside same)
      · exact .inr owned
  · intro address owned
    change address ∈ scope.range
    rcases mem_insert_iff.mp owned with same | before
    · subst same
      exact (mem_range sound.shape).mpr ⟨offset, (offset_eq_some_iff sound.shape).mpr ⟨inside, rfl⟩⟩
    · exact sound.inside address before
  · intro address there
    have before := sound.materialized address there
    exact ⟨mem_insert_iff.mpr (.inr before.1), before.2⟩

theorem sound_release (sound : scope.Sound) (address : IpAddr) : (scope.release address).Sound := by
  unfold release
  split
  · exact sound
  · rename_i offset found
    rcases (offset_eq_some_iff sound.shape).mp found with ⟨inside, same⟩
    subst same
    constructor
    · exact ⟨sound.shape.positive, sound.shape.last, sound.shape.bound⟩
    · intro other otherInside
      change (scope.words.clear offset).isSet other = true ↔
        scope.addressAt other ∈ scope.owners.erase (scope.addressAt offset)
      have before := sound.marked other otherInside
      rw [isSet] at before
      rw [Bitmap.isSet_clear, Bool.and_eq_true, decide_eq_true_eq, before, mem_erase_iff]
      constructor
      · intro both
        exact ⟨fun equal => both.1 (addressAt_injective sound.shape inside otherInside equal),
          both.2⟩
      · intro both
        exact ⟨fun equal => both.1 (congrArg scope.addressAt equal), both.2⟩
    · intro owned there
      change owned ∈ scope.range
      exact sound.inside owned (mem_erase_iff.mp there).2
    · intro excluded there
      rcases mem_set_erase_iff.mp there with ⟨different, before⟩
      have both := sound.materialized excluded before
      exact ⟨mem_erase_iff.mpr ⟨different, both.1⟩, both.2⟩

theorem sound_excludeIp (sound : scope.Sound) (address : IpAddr) (owner : String) :
    (scope.excludeIp address owner).Sound := by
  constructor
  · exact ⟨sound.shape.positive, sound.shape.last, sound.shape.bound⟩
  · exact sound.marked
  · exact sound.inside
  · intro excluded there
    have both := sound.materialized excluded there
    exact ⟨both.1, mem_insert_iff.mpr (.inr both.2)⟩

theorem sound_allocate (sound : scope.Sound) (address : IpAddr) (owner : String) :
    (scope.allocate address owner).2.Sound := by
  unfold allocate
  split
  · exact sound
  · rename_i offset found
    rcases (offset_eq_some_iff sound.shape).mp found with ⟨inside, same⟩
    subst same
    split
    · exact sound
    · split
      · exact sound
      · exact sound_reserve sound inside owner

/-! ## The scan -/

/-- Nothing has changed but exclusions, some of which are marked as taken now. -/
structure Materialized (before after : HostScope) : Prop where
  network : after.network = before.network
  first : after.first = before.first
  capacity : after.capacity = before.capacity
  excluded : after.excluded = before.excluded
  kept : ∀ (address : IpAddr) (owner : String),
    before.owners[address]? = some owner → after.owners[address]? = some owner
  gained : ∀ address ∈ after.owners, address ∈ before.owners ∨ address ∈ before.excluded

namespace Materialized

theorem refl (scope : HostScope) : Materialized scope scope :=
  ⟨rfl, rfl, rfl, rfl, fun _ _ => id, fun _ => .inl⟩

variable {after before : HostScope}

theorem trans {middle : HostScope} (first : Materialized before middle)
    (second : Materialized middle after) : Materialized before after where
  network := second.network.trans first.network
  first := second.first.trans first.first
  capacity := second.capacity.trans first.capacity
  excluded := second.excluded.trans first.excluded
  kept address owner found := second.kept address owner (first.kept address owner found)
  gained address owned := by
    rcases second.gained address owned with owned | excluded
    · exact first.gained address owned
    · exact .inr (first.excluded ▸ excluded)

section

variable (materialized : Materialized before after)

include materialized

theorem mem_owners
    {address : IpAddr} (owned : address ∈ before.owners) : address ∈ after.owners := by
  rcases exists_of_mem owned with ⟨owner, found⟩
  exact mem_of_getElem? (materialized.kept address owner found)

theorem addressAt (offset : Nat) : after.addressAt offset = before.addressAt offset := by
  rw [HostScope.addressAt, HostScope.addressAt, materialized.first, materialized.network]

theorem range : after.range = before.range := by
  rw [HostScope.range, HostScope.range, materialized.capacity]
  exact Finset.image_congr fun offset _ => materialized.addressAt offset

theorem free : after.free = before.free := by
  ext address
  simp only [HostScope.free, Finset.mem_filter, materialized.range, materialized.excluded]
  constructor
  · intro free
    exact ⟨free.1, fun owned => free.2.1 (materialized.mem_owners owned), free.2.2⟩
  · intro free
    refine ⟨free.1, fun owned => ?_, free.2.2⟩
    rcases materialized.gained address owned with before | excluded
    · exact free.2.1 before
    · exact free.2.2 excluded

end

end Materialized

section

variable (sound : scope.Sound) (inside : offset < scope.capacity)

include sound inside

theorem not_mem_owners
    (unset : scope.isSet offset = false) : scope.addressAt offset ∉ scope.owners := by
  intro owned
  rw [(sound.marked offset inside).mpr owned] at unset
  exact Bool.noConfusion unset

theorem addressAt_mem_range :
    scope.addressAt offset ∈ scope.range :=
  (mem_range sound.shape).mpr ⟨offset, (offset_eq_some_iff sound.shape).mpr ⟨inside, rfl⟩⟩

/-- A visit hands out the address there when it is free; otherwise the address is taken
afterwards and only exclusions have been marked. -/
theorem visit_cases (owner : String) :
    (scope.addressAt offset ∈ scope.free ∧ scope.visit owner offset =
      (some (scope.addressAt offset), scope.reserve offset (scope.addressAt offset) owner)) ∨
    ∃ after, scope.visit owner offset = (none, after) ∧ after.Sound ∧ Materialized scope after ∧
      after.isSet offset = true := by
  by_cases set : scope.isSet offset = true
  · exact .inr ⟨scope, by simp [visit, set], sound, .refl scope, set⟩
  · rw [Bool.not_eq_true] at set
    have unowned := not_mem_owners sound inside set
    cases excluded : scope.excluded[scope.addressAt offset]? with
    | none =>
        refine .inl ⟨?_, by simp [visit, set, excluded]⟩
        rw [free, Finset.mem_filter]
        refine ⟨addressAt_mem_range sound inside, unowned, ?_⟩
        rw [Std.ExtTreeMap.mem_iff_isSome_getElem?, excluded]
        exact Bool.noConfusion
    | some excludedOwner =>
        have listed : scope.addressAt offset ∈ scope.excluded := by
          exact mem_of_getElem? excluded
        have reserved := sound_reserve sound inside (excludedOwner ++ " (excluded)")
        refine .inr ⟨_, by simp only [visit, set, excluded]; rfl, ?_, ?_, ?_⟩
        · constructor
          · exact ⟨sound.shape.positive, sound.shape.last, sound.shape.bound⟩
          · exact reserved.marked
          · exact reserved.inside
          · intro address there
            rcases mem_set_insert_iff.mp there with same | before
            · subst same
              exact ⟨mem_insert_iff.mpr (.inl rfl), listed⟩
            · exact reserved.materialized address before
        · refine ⟨rfl, rfl, rfl, rfl, ?_, ?_⟩
          · intro address known found
            have different : scope.addressAt offset ≠ address := by
              intro same
              exact unowned (same ▸ mem_of_getElem? found)
            exact (getElem?_insert_of_ne different).trans found
          · intro address owned
            rcases mem_insert_iff.mp owned with same | before
            · exact .inr (same ▸ listed)
            · exact .inl before
        · change (scope.words.set offset).isSet offset = true
          simp [Bitmap.isSet_set]

end

/-- How an allocation ends: with a free address, now its owner's, or with none free. In
both cases nothing else is touched but exclusions. -/
def Ends (scope : HostScope) (owner : String) (result : Except Error IpAddr)
    (after : HostScope) : Prop :=
  (∃ middle offset, Materialized scope middle ∧ middle.Sound ∧ offset < middle.capacity ∧
    middle.addressAt offset ∈ scope.free ∧ result = .ok (middle.addressAt offset) ∧
    after = middle.reserve offset (middle.addressAt offset) owner) ∨
  (result = .error .full ∧ scope.free = ∅ ∧ Materialized scope after ∧ after.Sound)

theorem Ends.of_materialized {before middle : HostScope}
    (materialized : Materialized before middle) (ends : middle.Ends owner result after) :
    before.Ends owner result after := by
  rcases ends with
    ⟨last, offset, more, sound, inside, free, given, same⟩ | ⟨full, none, more, sound⟩
  · exact .inl ⟨last, offset, materialized.trans more, sound, inside,
      materialized.free ▸ free, given, same⟩
  · exact .inr ⟨full, materialized.free ▸ none, materialized.trans more, sound⟩

theorem free_eq_empty_of_isSet (sound : scope.Sound)
    (all : ∀ offset < scope.capacity, scope.isSet offset = true) : scope.free = ∅ := by
  rw [Finset.eq_empty_iff_forall_notMem]
  intro address member
  rw [free, Finset.mem_filter, mem_range sound.shape] at member
  rcases member with ⟨⟨offset, found⟩, unowned, _⟩
  rcases (offset_eq_some_iff sound.shape).mp found with ⟨inside, same⟩
  subst same
  exact unowned ((sound.marked offset inside).mp (all offset inside))

theorem free_eq_empty_of_size (sound : scope.Sound) (full : scope.owners.size = scope.capacity) :
    scope.free = ∅ := by
  have everything : keySet scope.owners = scope.range := by
    apply Finset.eq_of_subset_of_card_le
    · intro address owned
      exact sound.inside address (mem_keySet.mp owned)
    · rw [card_range sound.shape, card_keySet, full]
  rw [Finset.eq_empty_iff_forall_notMem]
  intro address member
  rw [free, Finset.mem_filter, ← everything, mem_keySet] at member
  exact member.2.1 member.1

/-- The offset that many steps after a start, around the range. -/
def around (scope : HostScope) (start steps : Nat) : Nat := (start + steps) % scope.capacity

theorem following_around (shape : scope.Shape) (start steps : Nat) :
    scope.following (scope.around start steps) = scope.around start (steps + 1) := by
  have positive := shape.positive
  have inside := Nat.mod_lt (start + steps) positive
  unfold following around
  rw [← Nat.add_assoc, Nat.add_mod (start + steps) 1]
  split
  · rename_i lastOne
    by_cases one : scope.capacity = 1
    · rw [one, Nat.mod_one]
    · have small : 1 % scope.capacity = 1 := Nat.mod_eq_of_lt (by omega)
      rw [lastOne, small, Nat.sub_add_cancel positive, Nat.mod_self]
  · have small : 1 % scope.capacity = 1 := Nat.mod_eq_of_lt (by omega)
    rw [small,
      Nat.mod_eq_of_lt (show (start + steps) % scope.capacity + 1 < scope.capacity by omega)]

theorem exists_around (begun : start < scope.capacity) (inside : offset < scope.capacity) :
    ∃ steps < scope.capacity, scope.around start steps = offset := by
  unfold around
  by_cases later : start ≤ offset
  · refine ⟨offset - start, by omega, ?_⟩
    rw [Nat.add_sub_cancel' later, Nat.mod_eq_of_lt inside]
  · refine ⟨scope.capacity + offset - start, by omega, ?_⟩
    have whole : start + (scope.capacity + offset - start) = offset + scope.capacity := by omega
    rw [whole, Nat.add_mod_right, Nat.mod_eq_of_lt inside]

theorem isSet_of_materialized {before : HostScope} (sound : before.Sound)
    (soundAfter : after.Sound) (materialized : Materialized before after)
    (inside : offset < before.capacity) (set : before.isSet offset = true) :
    after.isSet offset = true := by
  rw [soundAfter.marked offset (materialized.capacity ▸ inside), materialized.addressAt]
  exact materialized.mem_owners ((sound.marked offset inside).mp set)

/-- The scan ends within as many visits as there are offsets left: those before it have
all been found taken. -/
theorem scan_ends (owner : String) {fuel done : Nat} (sound : scope.Sound)
    (begun : start < scope.capacity) (left : 0 < fuel) (total : done + fuel = scope.capacity)
    (before : ∀ steps < done, scope.isSet (scope.around start steps) = true) :
    ∃ result after, scan owner start fuel (scope.around start done) scope = some (result, after) ∧
      scope.Ends owner result after := by
  induction fuel generalizing done scope with
  | zero => exact absurd left (Nat.lt_irrefl 0)
  | succ fuel induction =>
      have positive := sound.shape.positive
      have inside : scope.around start done < scope.capacity := Nat.mod_lt _ positive
      rcases visit_cases sound inside owner with ⟨free, visited⟩ |
        ⟨after, visited, soundAfter, materialized, set⟩
      · exact ⟨_, _, by simp only [scan, visited], .inl ⟨scope, _, .refl scope, sound, inside, free,
          rfl, rfl⟩⟩
      · have around : ∀ steps, after.around start steps = scope.around start steps := by
          intro steps
          rw [HostScope.around, HostScope.around, materialized.capacity]
        have next : after.following (scope.around start done) = after.around start (done + 1) := by
          rw [← around done, following_around soundAfter.shape]
        have taken : ∀ steps < done + 1, after.isSet (after.around start steps) = true := by
          intro steps earlier
          rw [around]
          by_cases last : steps = done
          · exact last ▸ set
          · exact isSet_of_materialized sound soundAfter materialized (Nat.mod_lt _ positive)
              (before steps (by omega))
        by_cases ended : after.following (scope.around start done) = start ∨
            after.owners.size = after.capacity
        · refine ⟨_, after, by simp only [scan, visited, if_pos ended], .inr ⟨rfl, ?_, materialized,
            soundAfter⟩⟩
          rw [← materialized.free]
          rcases ended with back | full
          · -- Back at the start, every offset has been visited.
            have complete : done + 1 = after.capacity := by
              rw [materialized.capacity]
              by_contra short
              have within : done + 1 < scope.capacity := by omega
              rw [next, around, HostScope.around] at back
              by_cases wrapped : start + (done + 1) < scope.capacity
              · rw [Nat.mod_eq_of_lt wrapped] at back
                omega
              · rw [Nat.mod_eq_sub_mod (by omega), Nat.mod_eq_of_lt (by omega)] at back
                omega
            apply free_eq_empty_of_isSet soundAfter
            intro offset offsetInside
            rcases exists_around (materialized.capacity ▸ begun) offsetInside with
              ⟨steps, few, same⟩
            exact same ▸ taken steps (complete ▸ few)
          · exact free_eq_empty_of_size soundAfter full
        · have left : 0 < fuel := by
            by_contra none
            apply ended
            left
            have complete : done + 1 = after.capacity := by
              rw [materialized.capacity]
              omega
            rw [next, complete, HostScope.around, Nat.add_mod_right,
              Nat.mod_eq_of_lt (materialized.capacity ▸ begun)]
          have remaining : done + 1 + fuel = after.capacity := by
            rw [materialized.capacity]
            omega
          rcases induction soundAfter (materialized.capacity ▸ begun) left remaining taken with
            ⟨result, final, scanned, ends⟩
          refine ⟨result, final, ?_, ends.of_materialized materialized⟩
          simp only [scan, visited, if_neg ended]
          rw [next]
          exact scanned

theorem Ends.sound (ends : scope.Ends owner result after) : after.Sound := by
  rcases ends with ⟨middle, offset, _, sound, inside, _, _, same⟩ | ⟨_, _, _, sound⟩
  · exact same ▸ sound_reserve sound inside owner
  · exact sound

theorem startOffset_lt (shape : scope.Shape) : scope.startOffset < scope.capacity := by
  unfold startOffset
  exact Nat.mod_lt _ shape.positive

theorem around_zero (begun : start < scope.capacity) : scope.around start 0 = start := by
  rw [around, Nat.add_zero, Nat.mod_eq_of_lt begun]

theorem sound_counted (sound : scope.Sound) : scope.counted.Sound :=
  ⟨⟨sound.shape.positive, sound.shape.last, sound.shape.bound⟩, sound.marked, sound.inside,
    sound.materialized⟩

theorem allocateNext_ends (sound : scope.Sound) (owner : String) :
    ∃ result after, scope.allocateNext owner = some (result, after) ∧
      scope.Ends owner result after := by
  have positive := sound.shape.positive
  unfold allocateNext
  split
  · rename_i full
    exact ⟨_, _, rfl, .inr ⟨rfl, free_eq_empty_of_size sound full, .refl scope, sound⟩⟩
  · rw [if_neg (Nat.ne_of_gt positive)]
    -- Counting the call changes neither the range nor what is taken.
    have counted : Materialized scope scope.counted :=
      ⟨rfl, rfl, rfl, rfl, fun _ _ => id, fun _ => .inl⟩
    have soundCounted := sound_counted sound
    have begun := startOffset_lt soundCounted.shape
    rcases scan_ends owner soundCounted begun positive (Nat.zero_add _)
      (fun _ earlier => absurd earlier (Nat.not_lt_zero _)) with ⟨result, after, scanned, ends⟩
    rw [around_zero begun] at scanned
    exact ⟨result, after, scanned, ends.of_materialized counted⟩

def excludedRange (scope : HostScope) : Finset IpAddr :=
  (keySet scope.excluded).filter fun address => (scope.offset address).isSome

theorem card_free (sound : scope.Sound) :
    scope.free.card = scope.capacity - (keySet scope.owners ∪ scope.excludedRange).card := by
  have inside : keySet scope.owners ∪ scope.excludedRange ⊆ scope.range := by
    intro address member
    rcases Finset.mem_union.mp member with owned | excluded
    · exact sound.inside address (mem_keySet.mp owned)
    · rw [excludedRange, Finset.mem_filter] at excluded
      exact (mem_range sound.shape).mpr (Option.isSome_iff_exists.mp excluded.2)
  have rest : scope.free = scope.range \ (keySet scope.owners ∪ scope.excludedRange) := by
    ext address
    simp only [free, excludedRange, Finset.mem_filter, Finset.mem_sdiff, Finset.mem_union,
      mem_keySet, not_or, not_and]
    constructor
    · intro member
      exact ⟨member.1, member.2.1, fun excluded => absurd excluded member.2.2⟩
    · intro member
      refine ⟨member.1, member.2.1, fun excluded => member.2.2 excluded ?_⟩
      exact Option.isSome_iff_exists.mpr ((mem_range sound.shape).mp member.1)
  rw [rest, Finset.card_sdiff_of_subset inside, card_range sound.shape]

theorem summary_available (sound : scope.Sound) : scope.summary.available = scope.free.card := by
  have both : elements scope.materializedExclusions ⊆
      keySet scope.owners ∩ scope.excludedRange := by
    intro address member
    rcases sound.materialized address (mem_elements.mp member) with ⟨owned, excluded⟩
    have offset := (mem_range sound.shape).mp (sound.inside address owned)
    rw [Finset.mem_inter, excludedRange, Finset.mem_filter, mem_keySet, mem_keySet]
    exact ⟨owned, excluded, Option.isSome_iff_exists.mpr offset⟩
  have overlap : (keySet scope.owners).filter (fun address => (scope.excluded.contains address &&
      !scope.materializedExclusions.contains address) = true) =
      (keySet scope.owners ∩ scope.excludedRange) \ elements scope.materializedExclusions := by
    ext address
    simp only [Finset.mem_filter, Finset.mem_sdiff, Finset.mem_inter, excludedRange, mem_keySet,
      mem_elements, Bool.and_eq_true, Bool.not_eq_true', Std.ExtTreeMap.contains_iff_mem]
    rw [← Bool.not_eq_true, Std.ExtTreeSet.contains_iff_mem]
    constructor
    · intro member
      have offset := (mem_range sound.shape).mp (sound.inside address member.1)
      exact ⟨⟨member.1, member.2.1, Option.isSome_iff_exists.mpr offset⟩, member.2.2⟩
    · intro member
      exact ⟨member.1.1, member.1.2.1, member.2⟩
  have smaller := Finset.card_le_card both
  have smallerStill : (keySet scope.owners ∩ scope.excludedRange).card ≤
      (keySet scope.owners).card := Finset.card_le_card Finset.inter_subset_left
  have union := Finset.card_union_add_card_inter (keySet scope.owners) scope.excludedRange
  have difference := Finset.card_sdiff_of_subset both
  rw [card_free sound]
  simp only [summary, countP_keys, overlap, ← card_keySet scope.owners,
    ← card_elements scope.materializedExclusions]
  rw [difference, ← excludedRange]
  omega

/-! ## Runs -/

theorem sound_perform (sound : scope.Sound) (request : Request) :
    ∃ after, scope.perform request = some after ∧ after.Sound := by
  cases request with
  | allocate address owner => exact ⟨_, rfl, sound_allocate sound address owner⟩
  | exclude address owner => exact ⟨_, rfl, sound_excludeIp sound address owner⟩
  | release address => exact ⟨_, rfl, sound_release sound address⟩
  | allocateNext owner =>
      rcases allocateNext_ends sound owner with ⟨result, after, ended, ends⟩
      exact ⟨after, by rw [perform, ended]; rfl, ends.sound⟩

theorem sound_performAll (sound : scope.Sound) (requests : List Request) :
    ∃ after, scope.performAll requests = some after ∧ after.Sound := by
  induction requests generalizing scope with
  | nil => exact ⟨scope, rfl, sound⟩
  | cons request requests induction =>
      rcases sound_perform sound request with ⟨next, performed, soundNext⟩
      rcases induction soundNext with ⟨after, rest, soundAfter⟩
      refine ⟨after, ?_, soundAfter⟩
      rw [performAll, List.foldlM_cons, performed]
      exact rest

theorem owned_iff (scope : HostScope) (address : IpAddr) :
    address ∈ scope.owners ↔ ∃! entry, entry ∈ scope.owners.toList ∧ entry.1 = address := by
  rw [Std.ExtTreeMap.mem_iff_isSome_getElem?, Option.isSome_iff_exists]
  constructor
  · intro found
    rcases found with ⟨owner, found⟩
    refine ⟨(address, owner), ⟨Std.ExtTreeMap.mem_toList_iff_getElem?_eq_some.mpr found, rfl⟩, ?_⟩
    intro other listed
    have same := Std.ExtTreeMap.mem_toList_iff_getElem?_eq_some.mp listed.1
    rw [listed.2, found, Option.some.injEq] at same
    exact Prod.ext listed.2 same.symm
  · intro unique
    rcases unique with ⟨entry, ⟨listed, same⟩, _⟩
    rw [← same]
    exact ⟨entry.2, Std.ExtTreeMap.mem_toList_iff_getElem?_eq_some.mp listed⟩

theorem isAllocated_iff (sound : scope.Sound) (address : IpAddr) :
    scope.isAllocated address = true ↔
      (∃! entry, entry ∈ scope.owners.toList ∧ entry.1 = address) ∧ address ∈ scope.range := by
  rw [← owned_iff, isAllocated, Option.any_eq_true, mem_range sound.shape]
  constructor
  · intro set
    rcases set with ⟨offset, found, bit⟩
    rcases (offset_eq_some_iff sound.shape).mp found with ⟨inside, same⟩
    exact ⟨same ▸ (sound.marked offset inside).mp bit, offset, found⟩
  · intro owned
    rcases owned with ⟨owned, offset, found⟩
    rcases (offset_eq_some_iff sound.shape).mp found with ⟨inside, same⟩
    exact ⟨offset, found, (sound.marked offset inside).mpr (same ▸ owned)⟩

/-- Host-scope allocation: after any requests to a new scope, an address is marked exactly
when it has its one owner in the range; the summary counts the addresses that are
neither allocated nor excluded; and the next allocation ends, with one of these or, if
there is none, with the range full. -/
theorem hostScope_allocates {address : IpAddr} {prefixLen : Nat} {options : RangeOptions}
    {random : Nat → Nat → Nat} {scope : HostScope}
    (made : new address prefixLen options random = .ok scope) (requests : List Request) :
    ∃ reached, scope.performAll requests = some reached ∧
      (∀ address, reached.isAllocated address = true ↔
        (∃! entry, entry ∈ reached.owners.toList ∧ entry.1 = address) ∧ address ∈ reached.range) ∧
      reached.summary.available = reached.free.card ∧
      ∀ owner, ∃ result after, reached.allocateNext owner = some (result, after) ∧
        (result = .error .full ↔ reached.free.card = 0) ∧
        ∀ given, result = .ok given → given ∈ reached.range ∧
          reached.isAllocated given = false ∧ given ∉ reached.excluded ∧
          after.owners[given]? = some owner := by
  rcases sound_performAll (sound_new made) requests with ⟨reached, performed, sound⟩
  refine ⟨reached, performed, isAllocated_iff sound, summary_available sound, ?_⟩
  intro owner
  rcases allocateNext_ends sound owner with ⟨result, after, ended, ends⟩
  refine ⟨result, after, ended, ?_⟩
  rw [Finset.card_eq_zero]
  rcases ends with ⟨middle, offset, _, _, _, free, given, same⟩ | ⟨full, none, _, _⟩
  · rw [given]
    have some : reached.free ≠ ∅ := Finset.ne_empty_of_mem free
    refine ⟨⟨(nomatch ·), fun none => absurd none some⟩, ?_⟩
    intro address equal
    rw [Except.ok.injEq] at equal
    rw [HostScope.free, Finset.mem_filter, equal] at free
    refine ⟨free.1, ?_, free.2.2, ?_⟩
    · rw [← Bool.not_eq_true, isAllocated_iff sound, ← owned_iff reached]
      exact fun allocated => free.2.1 allocated.1
    · rw [same, equal]
      exact Std.ExtTreeMap.getElem?_insert_self
  · exact ⟨⟨fun _ => none, fun _ => full⟩, fun given equal => by rw [full] at equal; cases equal⟩

def smallScope : HostScope where
  network := .v4 0x0a000000
  prefixLen := 30
  first := 0x0a000001
  last := 0x0a000002
  capacity := 2
  random := fun _ _ => 1

theorem new_smallScope : new (.v4 0x0a000003) 30 {} (fun _ _ => 1) = .ok smallScope := rfl

theorem smallScope_allocates :
    new (.v4 0x0a000003) 30 {} (fun _ _ => 1) = .ok smallScope ∧
    ∃ reached, smallScope.performAll [.exclude (.v4 0x0a000002) "router", .allocateNext "web/one"] =
        some reached ∧ reached.summary.available = reached.free.card ∧
      ∃ result after, reached.allocateNext "web/two" = some (result, after) ∧
        (result = .error .full ↔ reached.free.card = 0) := by
  refine ⟨new_smallScope, ?_⟩
  rcases hostScope_allocates new_smallScope
    [.exclude (.v4 0x0a000002) "router", .allocateNext "web/one"] with
    ⟨reached, performed, _, counted, next⟩
  rcases next "web/two" with ⟨result, after, ended, full, _⟩
  exact ⟨reached, performed, counted, result, after, ended, full⟩

example : (smallScope.performAll [.exclude (.v4 0x0a000002) "router", .allocateNext "web/one"]).map
    (fun scope => (scope.summary.available, scope.dump.toList)) =
    some (0, [(.v4 0x0a000001, "web/one"), (.v4 0x0a000002, "router (excluded)")]) := by
  decide +kernel

end FlowSdn.HostIpam.HostScope
