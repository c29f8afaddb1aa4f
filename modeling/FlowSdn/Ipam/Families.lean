import FlowSdn.Ipam.Allocation

/-! # Both families of addresses

What the operations on a pair of pools leave alone: which families there are, and the
addresses that are allocated.
-/

namespace FlowSdn.HostIpam

open Net OrderedMap

namespace HostScope

variable {scope : HostScope}

variable {address : IpAddr} {other : IpAddr}

theorem isAllocated_iff_mem (sound : scope.Sound) :
    scope.isAllocated address = true ↔ address ∈ scope.owners := by
  rw [isAllocated_iff sound, ← owned_iff]
  exact ⟨fun both => both.1, fun owned => ⟨owned, sound.inside address owned⟩⟩

theorem isIpv4_of_mem (sound : scope.Sound) (owned : address ∈ scope.owners) :
    address.isIpv4 = scope.network.isIpv4 := by
  rcases (mem_range sound.shape).mp (sound.inside address owned) with ⟨offset, found⟩
  rcases (offset_eq_some_iff sound.shape).mp found with ⟨_, same⟩
  rw [same, isIpv4_addressAt]

@[simp] theorem network_allocate (address : IpAddr) (owner : String) :
    (scope.allocate address owner).2.network = scope.network := by
  unfold allocate
  repeat' split
  all_goals rfl

@[simp] theorem network_release (address : IpAddr) :
    (scope.release address).network = scope.network := by
  unfold release
  split <;> rfl

theorem mem_owners_allocate (owner : String) (owned : other ∈ scope.owners) :
    other ∈ (scope.allocate address owner).2.owners := by
  unfold allocate
  repeat' split
  · exact owned
  · exact owned
  · exact owned
  · exact mem_insert_iff.mpr (.inr owned)

theorem allocate_eq_ok (sound : scope.Sound) {owner : String}
    (allocated : (scope.allocate address owner).1 = .ok ()) :
    address ∉ scope.owners ∧ address ∈ (scope.allocate address owner).2.owners := by
  unfold allocate at allocated ⊢
  split at allocated
  · cases allocated
  · rename_i offset found
    split at allocated
    · cases allocated
    · split at allocated
      · cases allocated
      · rename_i unset
        rcases (offset_eq_some_iff sound.shape).mp found with ⟨inside, same⟩
        rw [Bool.not_eq_true] at unset
        refine ⟨same ▸ not_mem_owners sound inside unset, ?_⟩
        simp only [unset]
        exact mem_insert_iff.mpr (.inl rfl)

theorem mem_owners_release (different : address ≠ other) (owned : other ∈ scope.owners) :
    other ∈ (scope.release address).owners := by
  unfold release
  split
  · exact owned
  · exact mem_erase_iff.mpr ⟨different, owned⟩

namespace Ends

variable {owner : String} {result : Except Error IpAddr} {after : HostScope}

theorem network (ends : scope.Ends owner result after) : after.network = scope.network := by
  rcases ends with ⟨middle, offset, materialized, _, _, _, _, same⟩ | ⟨_, _, materialized, _⟩
  · rw [same]
    exact materialized.network
  · exact materialized.network

theorem mem_owners (ends : scope.Ends owner result after) {other : IpAddr}
    (owned : other ∈ scope.owners) : other ∈ after.owners := by
  rcases ends with ⟨middle, offset, materialized, _, _, _, _, same⟩ | ⟨_, _, materialized, _⟩
  · rw [same]
    exact mem_insert_iff.mpr (.inr (materialized.mem_owners owned))
  · exact materialized.mem_owners owned

theorem given (ends : scope.Ends owner result after) {address : IpAddr}
    (given : result = .ok address) : address ∉ scope.owners ∧ address ∈ after.owners := by
  rcases ends with ⟨middle, offset, _, _, _, free, found, same⟩ | ⟨full, _⟩
  · rw [found, Except.ok.injEq] at given
    rw [given, HostScope.free, Finset.mem_filter] at free
    rw [same, given]
    exact ⟨free.2.1, mem_insert_iff.mpr (.inl rfl)⟩
  · rw [full] at given
    cases given

end Ends

variable {before after : HostScope} {owner : String}

/-- What an allocation does to a pool: the address it gave, if any, was free and has its
owner, and nothing else has changed but that exclusions are marked as taken. -/
structure Took (owner : String) (given : Option IpAddr) (before after : HostScope) : Prop where
  range : after.range = before.range
  excluded : after.excluded = before.excluded
  fresh : ∀ address, given = some address → address ∈ before.free
  owned : ∀ address, given = some address → after.owners[address]? = some owner
  kept : ∀ (address : IpAddr) (name : String),
    before.owners[address]? = some name → after.owners[address]? = some name
  others : ∀ address : IpAddr, address ∉ before.excluded → given ≠ some address →
    after.owners[address]? = before.owners[address]?

theorem not_mem_of_free (free : address ∈ scope.free) :
    address ∉ scope.owners ∧ address ∉ scope.excluded := by
  rw [HostScope.free, Finset.mem_filter] at free
  exact free.2

theorem Took.of_materialized (materialized : Materialized before after) :
    Took owner none before after where
  range := materialized.range
  excluded := materialized.excluded
  fresh _ absent := (Option.some_ne_none _ absent.symm).elim
  owned _ absent := (Option.some_ne_none _ absent.symm).elim
  kept := materialized.kept
  others address plain _ := by
    cases found : before.owners[address]? with
    | some name => exact materialized.kept address name found
    | none =>
        by_contra gained
        have owned : address ∈ after.owners :=
          Std.ExtTreeMap.mem_iff_isSome_getElem?.mpr (Option.isSome_iff_ne_none.mpr gained)
        rcases materialized.gained address owned with earlier | isExcluded
        · rw [Std.ExtTreeMap.mem_iff_isSome_getElem?, found] at earlier
          cases earlier
        · exact plain isExcluded

theorem Took.reserve (took : Took owner none before after) {offset : Nat}
    (free : after.addressAt offset ∈ before.free) :
    Took owner (some (after.addressAt offset)) before
      (after.reserve offset (after.addressAt offset) owner) where
  range := took.range
  excluded := took.excluded
  fresh address same := Option.some.inj same ▸ free
  owned address same := by
    rw [← Option.some.inj same]
    exact Std.ExtTreeMap.getElem?_insert_self
  kept address name found := by
    have different : address ≠ after.addressAt offset := by
      rintro rfl
      apply (not_mem_of_free free).1
      exact mem_of_getElem? found
    exact (getElem?_insert_of_ne different.symm).trans (took.kept address name found)
  others address plain apart := by
    have different : address ≠ after.addressAt offset := fun same => apart (congrArg some same.symm)
    exact (getElem?_insert_of_ne different.symm).trans (took.others address plain (by simp))

theorem Took.release (sound : after.Sound) (took : Took owner (some address) before after) :
    Took owner none before (after.release address) := by
  have fresh := took.fresh address rfl
  rcases not_mem_of_free fresh with ⟨unowned, plain⟩
  have listed : address ∈ after.range := by
    rw [HostScope.free, Finset.mem_filter] at fresh
    exact took.range ▸ fresh.1
  rcases (mem_range sound.shape).mp listed with ⟨offset, found⟩
  have owners : (after.release address).owners = after.owners.erase address := by
    rw [HostScope.release, found]
  have rest : (after.release address).range = after.range ∧
      (after.release address).excluded = after.excluded := by
    rw [HostScope.release, found]
    exact ⟨rfl, rfl⟩
  refine ⟨rest.1.trans took.range, rest.2.trans took.excluded,
    fun _ absent => (Option.some_ne_none _ absent.symm).elim,
    fun _ absent => (Option.some_ne_none _ absent.symm).elim,
    fun other name held => ?_, fun other isPlain _ => ?_⟩
  · have different : other ≠ address := by
      rintro rfl
      apply unowned
      exact mem_of_getElem? held
    rw [owners, getElem?_erase_of_ne different.symm]
    exact took.kept other name held
  · rw [owners]
    by_cases same : other = address
    · subst same
      have absent : before.owners[other]? = none := by
        rw [← Option.not_isSome_iff_eq_none, ← Std.ExtTreeMap.mem_iff_isSome_getElem?]
        exact unowned
      rw [Std.ExtTreeMap.getElem?_erase_self, absent]
    · rw [getElem?_erase_of_ne (Ne.symm same)]
      exact took.others other isPlain fun equal => same (Option.some.inj equal).symm

theorem Took.mem_owners {given : Option IpAddr} (took : Took owner given before after)
    (owned : address ∈ before.owners) : address ∈ after.owners := by
  rcases exists_of_mem owned with ⟨name, found⟩
  exact mem_of_getElem? (took.kept address name found)

theorem Ends.took {result : Except Error IpAddr} (ends : scope.Ends owner result after) :
    Took owner result.toOption scope after := by
  rcases ends with ⟨middle, offset, materialized, _, _, free, rfl, rfl⟩ | ⟨rfl, _, materialized, _⟩
  · exact (Took.of_materialized materialized).reserve free
  · exact Took.of_materialized materialized

end HostScope

namespace Ipam

variable {ipam : Ipam}

def pool (ipam : Ipam) (ipv4 : Bool) : Option HostScope := if ipv4 then ipam.ipv4 else ipam.ipv6

theorem family_eq_pool (address : IpAddr) : ipam.family address = ipam.pool address.isIpv4 := rfl

@[simp] theorem pool_setFamily_self (ipv4 : Bool) (scope : HostScope) :
    (ipam.setFamily ipv4 scope).pool ipv4 = some scope := by
  cases ipv4 <;> rfl

variable {ipv4 : Bool} {scope : HostScope} {address : IpAddr} {after : Ipam} {owner : String}
  {gone : IpAddr → Prop}

theorem pool_setFamily_of_ne {other : Bool} (different : ipv4 ≠ other) (scope : HostScope) :
    (ipam.setFamily ipv4 scope).pool other = ipam.pool other := by
  cases ipv4 <;> cases other <;> first | rfl | exact absurd rfl different

def SameFamilies (before after : Ipam) : Prop :=
  ∀ ipv4, (after.pool ipv4).isSome = (before.pool ipv4).isSome

theorem SameFamilies.refl (ipam : Ipam) : SameFamilies ipam ipam := fun _ => rfl

theorem sameFamilies_setFamily (found : ipam.pool ipv4 = some scope)
    (after : HostScope) : SameFamilies ipam (ipam.setFamily ipv4 after) := by
  intro other
  by_cases same : ipv4 = other
  · subst same
    rw [pool_setFamily_self, found]
    rfl
  · rw [pool_setFamily_of_ne same]

theorem sameFamilies_release (address : IpAddr) : SameFamilies ipam (ipam.release address).2 := by
  unfold release
  split
  · exact .refl ipam
  · rename_i scope found
    exact sameFamilies_setFamily found _

theorem release_eq_ok (enabled : (ipam.family address).isSome) :
    (ipam.release address).1 = .ok () := by
  rcases Option.isSome_iff_exists.mp enabled with ⟨scope, found⟩
  rw [release, found]

theorem allocateNextFamily_cases {ipv6 : Bool} {result : Except Error IpAddr}
    (allocated : ipam.allocateNextFamily ipv6 owner = some (result, after)) :
    after = ipam ∧ result = .error .familyDisabled ∨
    ∃ scope next, ipam.pool (!ipv6) = some scope ∧ scope.allocateNext owner = some (result, next) ∧
      after = ipam.setFamily (!ipv6) next := by
  unfold allocateNextFamily at allocated
  have chosen : (if ipv6 then ipam.ipv6 else ipam.ipv4) = ipam.pool (!ipv6) := by
    cases ipv6 <;> rfl
  rw [chosen] at allocated
  split at allocated
  · simp only [Option.some.injEq, Prod.mk.injEq] at allocated
    exact .inl ⟨allocated.2.symm, allocated.1.symm⟩
  · rename_i scope found
    rw [Option.map_eq_some_iff] at allocated
    rcases allocated with ⟨⟨given, next⟩, allocated, same⟩
    simp only [Prod.mk.injEq] at same
    exact .inr ⟨scope, next, found, same.1 ▸ allocated, same.2.symm⟩

/-! ## Allocated addresses -/

def Sound (ipam : Ipam) : Prop :=
  ∀ ipv4 scope, ipam.pool ipv4 = some scope → scope.Sound ∧ scope.network.isIpv4 = ipv4

def isAllocated (ipam : Ipam) (address : IpAddr) : Bool :=
  (ipam.family address).any fun scope => scope.isAllocated address

theorem isAllocated_iff (sound : ipam.Sound) :
    ipam.isAllocated address = true ↔
      ∃ scope, ipam.pool address.isIpv4 = some scope ∧ address ∈ scope.owners := by
  rw [isAllocated, family_eq_pool, Option.any_eq_true]
  constructor
  · intro found
    rcases found with ⟨scope, found, allocated⟩
    exact ⟨scope, found, (HostScope.isAllocated_iff_mem (sound _ _ found).1).mp allocated⟩
  · intro found
    rcases found with ⟨scope, found, owned⟩
    exact ⟨scope, found, (HostScope.isAllocated_iff_mem (sound _ _ found).1).mpr owned⟩

theorem isSome_family_of_isAllocated (allocated : ipam.isAllocated address = true) :
    (ipam.family address).isSome := by
  rw [isAllocated, Option.any_eq_true] at allocated
  rcases allocated with ⟨scope, found, _⟩
  exact Option.isSome_iff_exists.mpr ⟨scope, found⟩

/-- Whatever was allocated before is so after, but for what is gone. -/
structure Evolves (gone : IpAddr → Prop) (before after : Ipam) : Prop where
  sound : after.Sound
  kept : ∀ address, before.isAllocated address = true → ¬gone address →
    after.isAllocated address = true

theorem Evolves.refl (sound : ipam.Sound) (gone : IpAddr → Prop) : Evolves gone ipam ipam :=
  ⟨sound, fun _ allocated _ => allocated⟩

theorem Evolves.trans {before middle : Ipam} (first : Evolves gone before middle)
    (second : Evolves gone middle after) :
    Evolves gone before after :=
  ⟨second.sound, fun address allocated left =>
    second.kept address (first.kept address allocated left) left⟩

theorem sound_setFamily (sound : ipam.Sound) {after : HostScope}
    (found : ipam.pool ipv4 = some scope) (soundAfter : after.Sound)
    (network : after.network = scope.network) : (ipam.setFamily ipv4 after).Sound := by
  intro other pool
  by_cases same : ipv4 = other
  · subst same
    rw [pool_setFamily_self, Option.some.injEq]
    intro equal
    exact equal ▸ ⟨soundAfter, network ▸ (sound _ _ found).2⟩
  · rw [pool_setFamily_of_ne same]
    exact sound other pool

theorem evolves_setFamily (sound : ipam.Sound) {after : HostScope}
    (found : ipam.pool ipv4 = some scope) (soundAfter : after.Sound)
    (network : after.network = scope.network)
    (kept : ∀ address, address ∈ scope.owners → ¬gone address → address ∈ after.owners) :
    Evolves gone ipam (ipam.setFamily ipv4 after) := by
  have soundSet := sound_setFamily sound found soundAfter network
  refine ⟨soundSet, fun address allocated left => ?_⟩
  rw [isAllocated_iff sound] at allocated
  rw [isAllocated_iff soundSet]
  rcases allocated with ⟨held, heldFound, owned⟩
  by_cases same : ipv4 = address.isIpv4
  · subst same
    rw [found, Option.some.injEq] at heldFound
    exact ⟨after, pool_setFamily_self _ _, kept address (heldFound ▸ owned) left⟩
  · exact ⟨held, (pool_setFamily_of_ne same _).trans heldFound, owned⟩

theorem evolves_allocate (sound : ipam.Sound) (address : IpAddr) (owner : String) :
    Evolves (fun _ => False) ipam (ipam.allocate address owner).2 := by
  unfold allocate
  split
  · exact .refl sound _
  · rename_i scope found
    exact evolves_setFamily sound found
      (HostScope.sound_allocate (sound _ _ found).1 address owner) (HostScope.network_allocate _ _)
      fun _ owned _ => HostScope.mem_owners_allocate owner owned

theorem allocate_eq_ok (sound : ipam.Sound) (allocated : (ipam.allocate address owner).1 = .ok ()) :
    ipam.isAllocated address = false ∧
      (ipam.allocate address owner).2.isAllocated address = true := by
  have soundAfter := (evolves_allocate sound address owner).sound
  rw [← Bool.not_eq_true, isAllocated_iff sound, isAllocated_iff soundAfter]
  unfold allocate at allocated ⊢
  split at allocated
  · cases allocated
  · rename_i scope found
    rcases HostScope.allocate_eq_ok (sound _ _ found).1 allocated with ⟨free, owned⟩
    refine ⟨fun held => ?_, _, pool_setFamily_self _ _, owned⟩
    rcases held with ⟨other, otherFound, held⟩
    rw [← family_eq_pool, found, Option.some.injEq] at otherFound
    exact free (otherFound ▸ held)

theorem evolves_release (sound : ipam.Sound) (address : IpAddr) :
    Evolves (· = address) ipam (ipam.release address).2 := by
  unfold release
  split
  · exact .refl sound _
  · rename_i scope found
    exact evolves_setFamily sound found (HostScope.sound_release (sound _ _ found).1 address)
      (HostScope.network_release _)
      fun _ owned different => HostScope.mem_owners_release (Ne.symm different) owned

def Given (before after : Ipam) (address : IpAddr) : Prop :=
  before.isAllocated address = false ∧ after.isAllocated address = true

theorem evolves_next (sound : ipam.Sound) {next : HostScope}
    {given : Except Error IpAddr} (found : ipam.pool ipv4 = some scope)
    (taken : scope.allocateNext owner = some (given, next)) :
    Evolves (fun _ => False) ipam (ipam.setFamily ipv4 next) ∧
      ∀ address, given = .ok address → Given ipam (ipam.setFamily ipv4 next) address := by
  rcases sound _ _ found with ⟨soundScope, family⟩
  rcases HostScope.allocateNext_ends soundScope owner with ⟨result, after, ended, ends⟩
  rw [taken, Option.some.injEq, Prod.mk.injEq] at ended
  rcases ended with ⟨rfl, rfl⟩
  have evolves : Evolves (fun _ => False) ipam (ipam.setFamily ipv4 next) :=
    evolves_setFamily sound found ends.sound ends.network fun _ owned _ => ends.mem_owners owned
  refine ⟨evolves, fun address same => ?_⟩
  rcases ends.given same with ⟨free, owned⟩
  have own : address.isIpv4 = ipv4 :=
    ((HostScope.isIpv4_of_mem ends.sound owned).trans (congrArg _ ends.network)).trans family
  rw [Given, ← Bool.not_eq_true, isAllocated_iff sound, isAllocated_iff evolves.sound, own]
  refine ⟨fun held => ?_, next, pool_setFamily_self _ _, owned⟩
  rcases held with ⟨other, otherFound, held⟩
  rw [found, Option.some.injEq] at otherFound
  exact free (otherFound ▸ held)

theorem evolves_allocateNextFamily (sound : ipam.Sound) {ipv6 : Bool} {result : Except Error IpAddr}
    (allocated : ipam.allocateNextFamily ipv6 owner = some (result, after)) :
    Evolves (fun _ => False) ipam after ∧
      ∀ address, result = .ok address → Given ipam after address := by
  rcases allocateNextFamily_cases allocated with ⟨same, failed⟩ | ⟨scope, next, found, taken, same⟩
  · subst same
    exact ⟨.refl sound _, fun address given => by rw [failed] at given; cases given⟩
  · subst same
    exact evolves_next sound found taken

end Ipam

def AddressPair.address (pair : AddressPair) (ipv4 : Bool) : Option IpAddr :=
  if ipv4 then pair.ipv4.map .v4 else pair.ipv6.map .v6

/-- A pool that takes back an IPv6 address. -/
def giveBack (ipv6 : Option U128) (scope : HostScope) : HostScope :=
  ipv6.elim scope fun address => scope.release (.v6 address)

namespace Ipam

variable {ipam : Ipam}

open HostScope

inductive SecondHalf (owner : String) (ipv6 : Option U128) (before after : Ipam) :
    Except Error AddressPair → Prop
  | given (ipv4 : Option U32) (same : after.pool false = before.pool false)
      (took : Option.Rel (Took owner (ipv4.map .v4)) (before.pool true) (after.pool true))
      (enabled : ipv4.isSome = (before.pool true).isSome) :
      SecondHalf owner ipv6 before after (.ok ⟨ipv4, ipv6⟩)
  | refused (error : Error) (back : after.pool false = (before.pool false).map (giveBack ipv6))
      (took : Option.Rel (Took owner none) (before.pool true) (after.pool true)) :
      SecondHalf owner ipv6 before after (.error error)

theorem allocateIpv4_secondHalf (sound : ipam.Sound) (owner : String) (ipv6 : Option U128) :
    ∃ result after, ipam.allocateIpv4 owner ipv6 = some (result, after) ∧
      SecondHalf owner ipv6 ipam after result ∧ after.Sound := by
  unfold allocateIpv4
  cases found : ipam.ipv4 with
  | none =>
      have absent : ipam.pool true = none := found
      refine ⟨_, ipam, rfl, .given none rfl ?_ ?_, sound⟩
      · rw [absent]
        exact .none
      · rw [absent]
        rfl
  | some scope =>
      have present : ipam.pool true = some scope := found
      rcases sound true scope present with ⟨soundScope, family⟩
      rcases allocateNext_ends soundScope owner with ⟨result, next, ended, ends⟩
      have took := ends.took
      have soundNext := sound_setFamily sound present ends.sound ends.network
      simp only [ended, Option.bind_eq_bind, Option.bind_some]
      cases result with
      | ok address =>
          have isIpv4 : address.isIpv4 = true := by
            have owned := (ends.given rfl).2
            rw [isIpv4_of_mem ends.sound owned, ends.network, family]
          cases address with
          | v6 address => cases isIpv4
          | v4 address =>
              refine ⟨_, _, rfl, .given (some address) rfl ?_ ?_, soundNext⟩
              · rw [pool_setFamily_self, present]
                exact .some took
              · rw [present]
                rfl
      | error error =>
          refine ⟨_, _, rfl, .refused error ?_ ?_, ?_⟩
          · cases ipv6 with
            | none =>
                cases other : ipam.ipv6 <;> simp [setFamily, pool, other, giveBack]
            | some address =>
                cases other : ipam.ipv6 <;> simp [setFamily, pool, other, giveBack]
          · rw [present]
            split
            · exact .some took
            · exact .some took
          · split
            · rename_i other found
              have held : (ipam.setFamily true next).pool false = some other := found
              exact sound_setFamily soundNext held
                (HostScope.sound_release (soundNext _ _ held).1 _) (HostScope.network_release _)
            · exact soundNext

/-- How an allocation of a pair ends: every enabled family has given an address, or none
has. -/
inductive Paired (owner : String) (before after : Ipam) : Except Error AddressPair → Prop
  | given (pair : AddressPair)
      (took : ∀ ipv4, Option.Rel (Took owner (pair.address ipv4)) (before.pool ipv4)
        (after.pool ipv4))
      (enabled : ∀ ipv4, (pair.address ipv4).isSome = (before.pool ipv4).isSome) :
      Paired owner before after (.ok pair)
  | refused (error : Error)
      (took : ∀ ipv4, Option.Rel (Took owner none) (before.pool ipv4) (after.pool ipv4)) :
      Paired owner before after (.error error)

theorem rel_refl (scope : Option HostScope) : Option.Rel (Took owner none) scope scope := by
  cases scope with
  | none => exact .none
  | some scope => exact .some (.of_materialized (.refl scope))

theorem allocateNext_paired (sound : ipam.Sound) (owner : String) :
    ∃ result after, ipam.allocateNext owner = some (result, after) ∧
      Paired owner ipam after result ∧ after.Sound := by
  unfold allocateNext
  split
  · exact ⟨_, ipam, rfl, .refused _ fun ipv4 => rel_refl _, sound⟩
  · cases found : ipam.ipv6 with
    | none =>
        have absent : ipam.pool false = none := found
        rcases allocateIpv4_secondHalf sound owner none with
          ⟨result, after, ended, half, soundAfter⟩
        refine ⟨result, after, ended, ?_, soundAfter⟩
        cases half with
        | given ipv4 same took enabled =>
            refine .given _ (fun family => ?_) fun family => ?_
            · cases family with
              | true => exact took
              | false =>
                  rw [same]
                  exact rel_refl _
            · cases family with
              | true => rw [← enabled, AddressPair.address, if_pos rfl, Option.isSome_map]
              | false =>
                  rw [absent]
                  rfl
        | refused error back took =>
            refine .refused error fun family => ?_
            cases family with
            | true => exact took
            | false =>
                rw [back, absent]
                exact .none
    | some scope =>
        have present : ipam.pool false = some scope := found
        rcases sound false scope present with ⟨soundScope, family⟩
        rcases allocateNext_ends soundScope owner with ⟨result, next, ended, ends⟩
        have took := ends.took
        have soundNext := sound_setFamily sound present ends.sound ends.network
        simp only [ended, Option.bind_eq_bind, Option.bind_some]
        cases result with
        | error error =>
            refine ⟨_, _, rfl, .refused error fun family => ?_, soundNext⟩
            cases family with
            | true => exact rel_refl _
            | false =>
                rw [pool_setFamily_self, present]
                exact .some took
        | ok address =>
            have isIpv6 : address.isIpv4 = false := by
              have owned := (ends.given rfl).2
              rw [isIpv4_of_mem ends.sound owned, ends.network, family]
            cases address with
            | v4 address => cases isIpv6
            | v6 address =>
                rcases allocateIpv4_secondHalf soundNext owner (some address) with
                  ⟨result, after, ended, half, soundAfter⟩
                refine ⟨result, after, ended, ?_, soundAfter⟩
                cases half with
                | given ipv4 same tookIpv4 enabled =>
                    refine .given _ (fun family => ?_) fun family => ?_
                    · cases family with
                      | true => exact tookIpv4
                      | false =>
                          rw [same, pool_setFamily_self, present]
                          exact .some took
                    · cases family with
                      | true =>
                          rw [AddressPair.address, if_pos rfl, Option.isSome_map, enabled]
                          rfl
                      | false =>
                          rw [present]
                          rfl
                | refused error back tookIpv4 =>
                    refine .refused error fun family => ?_
                    cases family with
                    | true => exact tookIpv4
                    | false =>
                        rw [back, pool_setFamily_self, present]
                        exact .some (Took.release ends.sound took)

theorem exists_of_rel {related : α → β → Prop} {left : Option α} {right : Option β} {value : α}
    (rel : Option.Rel related left right) (found : left = some value) :
    ∃ other, right = some other ∧ related value other := by
  subst found
  cases rel with
  | some holds => exact ⟨_, rfl, holds⟩

section Rel

variable {after : Ipam} (sound : ipam.Sound) (soundAfter : after.Sound)

include sound soundAfter

theorem evolves_of_rel {given : Bool → Option IpAddr}
    (took : ∀ ipv4, Option.Rel (Took owner (given ipv4)) (ipam.pool ipv4) (after.pool ipv4)) :
    Evolves (fun _ => False) ipam after := by
  refine ⟨soundAfter, fun address allocated _ => ?_⟩
  rcases (isAllocated_iff sound).mp allocated with ⟨scope, found, owned⟩
  rcases exists_of_rel (took address.isIpv4) found with ⟨next, kept, taken⟩
  exact (isAllocated_iff soundAfter).mpr ⟨next, kept, taken.mem_owners owned⟩

theorem given_of_rel {given : Option IpAddr} {address : IpAddr}
    (took : Option.Rel (Took owner given) (ipam.pool address.isIpv4) (after.pool address.isIpv4))
    (enabled : given.isSome = (ipam.pool address.isIpv4).isSome) (chosen : given = some address) :
    Given ipam after address := by
  rw [chosen] at enabled
  rcases Option.isSome_iff_exists.mp enabled.symm with ⟨scope, found⟩
  rcases exists_of_rel took found with ⟨next, kept, taken⟩
  rw [Given, ← Bool.not_eq_true, isAllocated_iff sound, isAllocated_iff soundAfter]
  refine ⟨?_, next, kept, mem_of_getElem? (taken.owned address chosen)⟩
  rintro ⟨other, otherFound, held⟩
  rw [found, Option.some.injEq] at otherFound
  exact (not_mem_of_free (taken.fresh address chosen)).1 (otherFound ▸ held)

end Rel

/-- A pair of addresses is taken from what is free, and a failure takes nothing. -/
theorem evolves_allocateNext (sound : ipam.Sound) {owner : String}
    {result : Except Error AddressPair} {after : Ipam}
    (allocated : ipam.allocateNext owner = some (result, after)) :
    Evolves (fun _ => False) ipam after ∧ ∀ pair, result = .ok pair →
      (∀ address, pair.ipv6 = some address → Given ipam after (.v6 address)) ∧
      ∀ address, pair.ipv4 = some address → Given ipam after (.v4 address) := by
  rcases allocateNext_paired sound owner with ⟨_, _, ended, paired, soundAfter⟩
  rw [allocated, Option.some.injEq, Prod.mk.injEq] at ended
  rcases ended with ⟨rfl, rfl⟩
  cases paired with
  | refused error took => exact ⟨evolves_of_rel sound soundAfter took, nofun⟩
  | given pair took enabled =>
      refine ⟨evolves_of_rel sound soundAfter took, ?_⟩
      intro _ same
      cases same
      constructor
      · intro address chosen
        exact given_of_rel sound soundAfter (took false) (enabled false)
          (by simp [AddressPair.address, chosen])
      · intro address chosen
        exact given_of_rel sound soundAfter (took true) (enabled true)
          (by simp [AddressPair.address, chosen])

/-- A pool that was made from a prefix and has answered any requests since. -/
def Reached (scope : HostScope) : Prop :=
  ∃ address prefixLen options random made requests,
    HostScope.new address prefixLen options random = .ok made ∧
      made.performAll requests = some scope

theorem sound_of_reached {scope : HostScope} (reached : Reached scope) : scope.Sound := by
  rcases reached with ⟨address, prefixLen, options, random, made, requests, new, performed⟩
  rcases HostScope.sound_performAll (HostScope.sound_new new) requests with ⟨after, same, sound⟩
  rw [performed, Option.some.injEq] at same
  exact same ▸ sound

def Made (ipam : Ipam) : Prop :=
  ∃ ipv4 ipv6, new ipv4 ipv6 = .ok ipam ∧ (∀ scope, ipv4 = some scope → Reached scope) ∧
    ∀ scope, ipv6 = some scope → Reached scope

theorem sound_of_made (made : ipam.Made) : ipam.Sound := by
  rcases made with ⟨ipv4, ipv6, new, reached4, reached6⟩
  unfold Ipam.new at new
  split at new
  · cases new
  · rename_i families
    cases new
    simp only [Bool.or_eq_true, Option.any_eq_true, not_or, not_exists, not_and, Bool.not_eq_true',
      Bool.not_eq_false, Bool.not_eq_true] at families
    intro family scope found
    cases family with
    | true => exact ⟨sound_of_reached (reached4 scope found), families.1 scope found⟩
    | false => exact ⟨sound_of_reached (reached6 scope found), families.2 scope found⟩

end Ipam

end FlowSdn.HostIpam
