import FlowSdn.Lb.Stores

/-! # Assigned IDs

IDs are kept where the current maps hold them and new ones are none of those.
The assignment stays injective and nonzero however many are handed out.
-/

namespace FlowSdn.Lb

open Abi Net OrderedMap

theorem Ids.advance_spec {used : BTreeSet U32} {remaining : Nat} {next id : U32}
    (bound : next.toNat + remaining ≤ 2 ^ 32) (found : advance used remaining next = some id) :
    id ∉ used ∧ next.toNat ≤ id.toNat := by
  induction remaining generalizing next with
  | zero => cases found
  | succ remaining induction =>
      rw [advance] at found
      split at found
      · cases remaining with
        | zero => cases found
        | succ remaining =>
            have step : (next + 1).toNat = next.toNat + 1 := by
              rw [BitVec.toNat_add]
              exact Nat.mod_eq_of_lt (by simp; omega)
            rcases induction (by omega) found with ⟨unused, above⟩
            exact ⟨unused, by omega⟩
      · rename_i unused
        cases found
        exact ⟨fun member => unused (Std.ExtTreeSet.contains_iff_mem.mpr member), Nat.le_refl _⟩

theorem Ids.allocate_spec {ids pool : Ids} {id : U32} (allocated : ids.allocate = some (id, pool)) :
    id ∉ ids.used ∧ ids.next.toNat ≤ id.toNat ∧ id ≤ ids.max ∧ pool.used = ids.used.insert id ∧
      pool.next = id ∧ pool.max = ids.max := by
  unfold Ids.allocate at allocated
  split at allocated
  · cases allocated
  · rename_i next found
    split at allocated
    · cases allocated
    · rename_i within
      cases allocated
      rcases Ids.advance_spec (by omega) found with ⟨unused, above⟩
      exact ⟨unused, above, BitVec.not_lt.mp within, rfl, rfl, rfl⟩

/-! ## Assignments -/

/-- IDs found in the current maps: all taken, none zero, no two alike. -/
structure Recovered (recovered : κ → Option U32) (taken : BTreeSet U32) : Prop where
  taken : ∀ key id, recovered key = some id → id ∈ taken
  nonzero : ∀ key id, recovered key = some id → id ≠ 0
  injective : ∀ left right id, recovered left = some id → recovered right = some id →
    left = right

/-- IDs handed out: a recovered one is kept, a new one is not among the taken. -/
structure Assigned (recovered : κ → Option U32) (taken : BTreeSet U32)
    (assigned : κ → Option U32) (pool : Ids) : Prop where
  source : ∀ key id, assigned key = some id →
    recovered key = some id ∨ recovered key = none ∧ id ∉ taken
  used : ∀ key id, assigned key = some id → id ∈ pool.used
  nonzero : ∀ key id, assigned key = some id → id ≠ 0
  injective : ∀ left right id, assigned left = some id → assigned right = some id → left = right
  takenUsed : ∀ id ∈ taken, id ∈ pool.used
  next : 0 < pool.next.toNat

section Assigned

variable [DecidableEq κ] {recovered assigned : κ → Option U32} {taken : BTreeSet U32}
  {pool : Ids} {key : κ} {id : U32}

theorem update_eq_some_iff {other : κ} {value : U32} :
    Function.update assigned key (some id) other = some value ↔
      other = key ∧ id = value ∨ other ≠ key ∧ assigned other = some value := by
  by_cases same : other = key
  · simp [same]
  · simp [same]

section

variable (good : Assigned recovered taken assigned pool)

include good

theorem Assigned.insert {next : Ids}
    (source : recovered key = some id ∨ recovered key = none ∧ id ∉ taken) (nonzero : id ≠ 0)
    (isNew : ∀ other, assigned other = some id → other = key)
    (grows : ∀ other ∈ pool.used, other ∈ next.used) (isUsed : id ∈ next.used)
    (positive : 0 < next.next.toNat) :
    Assigned recovered taken (Function.update assigned key (some id)) next where
  source other value found := by
    rcases update_eq_some_iff.mp found with ⟨rfl, rfl⟩ | ⟨_, before⟩
    · exact source
    · exact good.source other value before
  used other value found := by
    rcases update_eq_some_iff.mp found with ⟨rfl, rfl⟩ | ⟨_, before⟩
    · exact isUsed
    · exact grows _ (good.used other value before)
  nonzero other value found := by
    rcases update_eq_some_iff.mp found with ⟨rfl, rfl⟩ | ⟨_, before⟩
    · exact nonzero
    · exact good.nonzero other value before
  injective left right shared leftFound rightFound := by
    rcases update_eq_some_iff.mp leftFound with ⟨leftSame, rfl⟩ | ⟨_, leftBefore⟩
    · rcases update_eq_some_iff.mp rightFound with ⟨rightSame, _⟩ | ⟨_, rightBefore⟩
      · rw [leftSame, rightSame]
      · rw [leftSame, isNew right rightBefore]
    · rcases update_eq_some_iff.mp rightFound with ⟨rightSame, rfl⟩ | ⟨_, rightBefore⟩
      · rw [rightSame, isNew left leftBefore]
      · exact good.injective left right shared leftBefore rightBefore
  takenUsed other member := grows other (good.takenUsed other member)
  next := positive

theorem Assigned.allocate {next : Ids}
    (unknown : recovered key = none) (allocated : pool.allocate = some (id, next)) :
    Assigned recovered taken (Function.update assigned key (some id)) next := by
  rcases Ids.allocate_spec allocated with ⟨unused, above, _, grown, isNext, _⟩
  have positive := good.next
  apply good.insert
  · exact .inr ⟨unknown, fun isTaken => unused (good.takenUsed id isTaken)⟩
  · intro zero
    rw [zero] at above
    simp at above
    omega
  · intro other found
    exact absurd (good.used other id found) unused
  · intro other member
    rw [grown]
    exact Std.ExtTreeSet.mem_insert.mpr (.inr member)
  · rw [grown]
    exact Std.ExtTreeSet.mem_insert_self
  · rw [isNext]
    omega

theorem Assigned.keep (valid : Recovered recovered taken) (known : recovered key = some id) :
    Assigned recovered taken (Function.update assigned key (some id)) pool := by
  apply good.insert (.inl known) (valid.nonzero key id known)
  · intro other found
    rcases good.source other id found with recoveredOther | ⟨_, isNew⟩
    · exact valid.injective other key id recoveredOther known
    · exact absurd (valid.taken key id known) isNew
  · exact fun other member => member
  · exact good.takenUsed id (valid.taken key id known)
  · exact good.next

end

end Assigned

/-! ## IDs of reachable maps -/

/-- No two masters have one service ID, no two addresses one backend ID, no
address two, and no ID is zero. -/
structure Maps.Distinct (maps : Maps) : Prop where
  masterNonzero : ∀ front master, maps.service front 0#16 = some master →
    master.revNatIndex ≠ 0
  masters : ∀ left right leftMaster rightMaster, maps.service left 0#16 = some leftMaster →
    maps.service right 0#16 = some rightMaster →
    leftMaster.revNatIndex = rightMaster.revNatIndex → left = right
  backendNonzero : ∀ ipv4 id address, maps.backend ipv4 id = some address → id ≠ 0
  backendIds : ∀ left right id leftAddress rightAddress,
    maps.backend left id = some leftAddress → maps.backend right id = some rightAddress →
    leftAddress = rightAddress
  addresses : ∀ left right leftId rightId address, maps.backend left leftId = some address →
    maps.backend right rightId = some address → leftId = rightId

theorem distinct_empty : Maps.Distinct {} := by
  constructor <;> simp

theorem mem_backendList {maps : Maps} {address : Address} {id : U32} :
    (address, id) ∈ maps.backendList ↔ ∃ ipv4, maps.backend ipv4 id = some address := by
  simp only [Maps.backendList, List.mem_append, List.mem_map, Prod.exists, Prod.mk.injEq,
    Std.ExtTreeMap.mem_toList_iff_getElem?_eq_some]
  constructor
  · intro found
    rcases found with ⟨_, value, held, equal, rfl⟩ | ⟨_, value, held, equal, rfl⟩
    · exact ⟨true, by simp [Maps.backend, held, equal]⟩
    · exact ⟨false, by simp [Maps.backend, held, equal]⟩
  · intro found
    rcases found with ⟨ipv4, found⟩
    cases ipv4 with
    | true =>
        rcases Option.map_eq_some_iff.mp found with ⟨value, held, equal⟩
        exact .inl ⟨id, value, held, equal, rfl⟩
    | false =>
        rcases Option.map_eq_some_iff.mp found with ⟨value, held, equal⟩
        exact .inr ⟨id, value, held, equal, rfl⟩

theorem mem_serviceList {maps : Maps} {front : Front} {slot : U16} {value : LbService} :
    (front, slot, value) ∈ maps.serviceList ↔ maps.service front slot = some value := by
  simp only [Maps.serviceList, List.mem_append, List.mem_map, Prod.exists, Prod.mk.injEq,
    Std.ExtTreeMap.mem_toList_iff_getElem?_eq_some]
  constructor
  · intro found
    rcases found with ⟨key, _, held, rfl, rfl, rfl⟩ | ⟨key, _, held, rfl, rfl, rfl⟩
    · exact held
    · exact held
  · intro found
    rcases front with ⟨⟨ip, port, proto⟩, scope⟩
    cases ip with
    | v4 address => exact .inl ⟨⟨address, port, slot, proto, scope⟩, value, found, rfl, rfl, rfl⟩
    | v6 address => exact .inr ⟨⟨address, port, slot, proto, scope⟩, value, found, rfl, rfl, rfl⟩

section Recovery

variable {maps : Maps}

theorem recoverBackends_eq_some (distinct : maps.Distinct) {address : Address} {id : U32} :
    (recoverBackends maps)[address]? = some id ↔ ∃ ipv4, maps.backend ipv4 id = some address := by
  rw [recoverBackends, getElem?_insertNew_empty_iff, mem_backendList]
  intro listed other otherListed
  rcases mem_backendList.mp listed with ⟨ipv4, held⟩
  rcases mem_backendList.mp otherListed with ⟨otherIpv4, otherHeld⟩
  exact distinct.addresses otherIpv4 ipv4 other id address otherHeld held

theorem recovered_backends (distinct : maps.Distinct) :
    Recovered (fun address : Address => (recoverBackends maps)[address]?) (usedBackends maps) where
  taken := by
    intro address id found
    rw [usedBackends, mem_collect]
    exact List.mem_map.mpr
      ⟨(address, id), mem_backendList.mpr ((recoverBackends_eq_some distinct).mp found), rfl⟩
  nonzero := by
    intro address id found
    rcases (recoverBackends_eq_some distinct).mp found with ⟨ipv4, held⟩
    exact distinct.backendNonzero ipv4 id address held
  injective := by
    intro left right id leftFound rightFound
    rcases (recoverBackends_eq_some distinct).mp leftFound with ⟨leftIpv4, leftHeld⟩
    rcases (recoverBackends_eq_some distinct).mp rightFound with ⟨rightIpv4, rightHeld⟩
    exact distinct.backendIds leftIpv4 rightIpv4 id left right leftHeld rightHeld

theorem recoverServices_eq_some (distinct : maps.Distinct) {front : Front} {id : U16} :
    (recoverServices maps)[front]? = some id ↔
      ∃ master, maps.service front 0#16 = some master ∧ master.revNatIndex = id := by
  have listed : ∀ id, (front, id) ∈ ((maps.serviceList.filter fun entry =>
        entry.2.1 = 0#16 ∧ entry.2.2.revNatIndex ≠ 0#16).map fun entry =>
          (entry.1, entry.2.2.revNatIndex)) ↔
      ∃ master, maps.service front 0#16 = some master ∧ master.revNatIndex = id := by
    intro id
    simp only [List.mem_map, List.mem_filter, Prod.exists, Prod.mk.injEq, decide_eq_true_eq]
    constructor
    · intro found
      rcases found with ⟨_, slot, value, ⟨member, isMaster, _⟩, rfl, equal⟩
      subst isMaster
      exact ⟨value, mem_serviceList.mp member, equal⟩
    · intro found
      rcases found with ⟨master, held, equal⟩
      exact ⟨front, 0#16, master, ⟨mem_serviceList.mpr held, rfl,
        distinct.masterNonzero front master held⟩, rfl, equal⟩
  rw [recoverServices, getElem?_insertNew_empty_iff, listed]
  intro member other otherMember
  rcases (listed id).mp member with ⟨master, held, rfl⟩
  rcases (listed other).mp otherMember with ⟨otherMaster, otherHeld, rfl⟩
  rw [held, Option.some.injEq] at otherHeld
  rw [otherHeld]

def wide (id : U16) : U32 := id.setWidth 32

theorem wide_injective {left right : U16} (equal : wide left = wide right) : left = right := by
  unfold wide at equal
  bv_omega

theorem recovered_services (distinct : maps.Distinct) :
    Recovered (fun front : Front => (recoverServices maps)[front]?.map wide)
      (usedServices maps) where
  taken := by
    intro front id found
    rcases Option.map_eq_some_iff.mp found with ⟨narrow, held, equal⟩
    rcases (recoverServices_eq_some distinct).mp held with ⟨master, isMaster, isId⟩
    rw [usedServices, mem_collect, ← equal, ← isId]
    exact List.mem_map.mpr ⟨_, mem_serviceList.mpr isMaster, rfl⟩
  nonzero := by
    intro front id found zero
    rcases Option.map_eq_some_iff.mp found with ⟨narrow, held, equal⟩
    rcases (recoverServices_eq_some distinct).mp held with ⟨master, isMaster, isId⟩
    have narrowZero : narrow = 0 := wide_injective (equal.trans zero)
    exact distinct.masterNonzero front master isMaster (isId.trans narrowZero)
  injective := by
    intro left right id leftFound rightFound
    rcases Option.map_eq_some_iff.mp leftFound with ⟨leftId, leftHeld, leftEqual⟩
    rcases Option.map_eq_some_iff.mp rightFound with ⟨rightId, rightHeld, rightEqual⟩
    rcases (recoverServices_eq_some distinct).mp leftHeld with ⟨leftMaster, isLeft, leftIs⟩
    rcases (recoverServices_eq_some distinct).mp rightHeld with ⟨rightMaster, isRight, rightIs⟩
    apply distinct.masters left right leftMaster rightMaster isLeft isRight
    rw [leftIs, rightIs, wide_injective (leftEqual.trans rightEqual.symm)]

end Recovery

end FlowSdn.Lb
