import FlowSdn.Lb.Replay

/-! # Rounds of updates

A round plans from the current maps and applies as much of the plan as succeeds.
Every state of an update is that after some rounds, the last one cut there, so
what holds after all rounds holds at every moment.
-/

namespace FlowSdn.Lb

open Abi Net OrderedMap Checked

/-- The services of a round, and how many of its writes are made. -/
structure Round where
  services : List Service
  count : Nat

def Maps.round (maps : Maps) (round : Round) : Maps :=
  match desired maps round.services with
  | .error _ => maps
  | .ok result => maps.apply ((plan maps result.maps).take round.count)

def runRounds (rounds : List Round) : Maps := rounds.foldl Maps.round {}

theorem runRounds_concat (rounds : List Round) (round : Round) :
    runRounds (rounds ++ [round]) = (runRounds rounds).round round := by
  simp [runRounds]

section Assigned

variable {recovered assigned : κ → Option U32} {taken : BTreeSet U32} {pool : Ids}

theorem Assigned.eq_of_held (good : Assigned recovered taken assigned pool)
    (valid : Recovered recovered taken) {left right : κ} {id : U32}
    (leftHeld : recovered left = some id ∨ assigned left = some id)
    (rightHeld : recovered right = some id ∨ assigned right = some id) : left = right := by
  have mixed : ∀ old fresh, recovered old = some id → assigned fresh = some id →
      old = fresh := by
    intro old fresh isOld isFresh
    rcases good.source fresh id isFresh with recoveredToo | ⟨_, unused⟩
    · exact valid.injective old fresh id isOld recoveredToo
    · exact absurd (valid.taken old id isOld) unused
  rcases leftHeld with leftOld | leftFresh
  · rcases rightHeld with rightOld | rightFresh
    · exact valid.injective left right id leftOld rightOld
    · exact mixed left right leftOld rightFresh
  · rcases rightHeld with rightOld | rightFresh
    · exact (mixed right left rightOld leftFresh).symm
    · exact good.injective left right id leftFresh rightFresh

theorem Assigned.eq_of_recovered (good : Assigned recovered taken assigned pool) {key : κ}
    {id other : U32} (old : recovered key = some id) (fresh : assigned key = some other) :
    other = id := by
  rcases good.source key other fresh with same | ⟨missing, _⟩
  · exact Option.some.inj (same.symm.trans old)
  · rw [old] at missing
    cases missing

end Assigned

section Midway

variable {current state : Maps} {services : List Service} {draft : Draft} {cut : Nat}

variable (start : current.Distinct) (laid : Laid services draft)
  (midway : Midway current draft.maps state cut)

include start laid midway

/-- A service ID that a master has at any moment of a round is recovered or assigned. -/
theorem Midway.service_held {front : Front} {master : LbService}
    (held : state.service front 0#16 = some master) :
    (recoverServices current)[front]?.map wide = some (wide master.revNatIndex) ∨
      draft.ids[front]?.map wide = some (wide master.revNatIndex) := by
  rcases (midway.master front).either with same | same
  · rw [same] at held
    exact .inl (by rw [(recoverServices_eq_some start).mpr ⟨master, held, rfl⟩]; rfl)
  · rw [same] at held
    exact .inr (by rw [(laid.master front master held).1]; rfl)

variable (valid : draft.Valid current)

include valid

theorem Midway.backend_held {ipv4 : Bool}
    {id : U32} {address : Address} (held : state.backend ipv4 id = some address) :
    draft.backendIds[address]? = some id := by
  rcases (midway.backend ipv4 id).either with same | same
  · rw [same] at held
    exact valid.recovered address id ((recoverBackends_eq_some start).mpr ⟨ipv4, held⟩)
  · rw [same] at held
    exact (laid.filed ipv4 id address held).1

theorem Midway.distinct :
    state.Distinct where
  masterNonzero := by
    intro front master held zero
    have recovered := recovered_services start
    rcases midway.service_held start laid held with old | fresh
    · exact recovered.nonzero front _ old (by rw [zero]; rfl)
    · exact valid.services.nonzero front _ fresh (by rw [zero]; rfl)
  masters := by
    intro left right leftMaster rightMaster leftHeld rightHeld same
    have leftIs := midway.service_held start laid leftHeld
    rw [same] at leftIs
    exact valid.services.eq_of_held (recovered_services start) leftIs
      (midway.service_held start laid rightHeld)
  backendNonzero := by
    intro ipv4 id address held
    exact valid.backends.nonzero address id (midway.backend_held start laid valid held)
  backendIds := by
    intro left right id leftAddress rightAddress leftHeld rightHeld
    exact valid.backends.injective leftAddress rightAddress id
      (midway.backend_held start laid valid leftHeld)
      (midway.backend_held start laid valid rightHeld)
  addresses := by
    intro left right leftId rightId address leftHeld rightHeld
    have leftIs := midway.backend_held start laid valid leftHeld
    have rightIs := midway.backend_held start laid valid rightHeld
    exact Option.some.inj (leftIs.symm.trans rightIs)

end Midway

variable {maps : Maps}

/-- What a round can do: nothing, or a part of the way to what the services lay out. -/
theorem round_cases (distinct : maps.Distinct) (round : Round) :
    maps.round round = maps ∨ ∃ draft cut, draft.Valid maps ∧
      Laid (sortedServices round.services) draft ∧
      Midway maps draft.maps (maps.round round) cut := by
  unfold Maps.round
  split
  · exact .inl rfl
  · rename_i result made
    rcases desired_laid distinct made with ⟨draft, valid, laid, rfl⟩
    rcases exists_midway maps draft.maps round.count with ⟨cut, midway⟩
    exact .inr ⟨draft, cut, valid, laid, midway⟩

theorem round_distinct (distinct : maps.Distinct) (round : Round) :
    (maps.round round).Distinct := by
  rcases round_cases distinct round with same | ⟨draft, cut, valid, laid, midway⟩
  · rw [same]
    exact distinct
  · exact midway.distinct distinct laid valid

theorem distinct_runRounds (rounds : List Round) : (runRounds rounds).Distinct := by
  induction rounds using List.reverseRecOn with
  | nil => exact distinct_empty
  | append_singleton rounds round induction =>
      rw [runRounds_concat]
      exact round_distinct induction round

/-! ## References -/

/-- The slots that a master's count announces are there, and every backend that a
slot or a table names is in a backend map. -/
structure NoDangling (maps : Maps) : Prop where
  slots : ∀ front master slot, maps.service front 0#16 = some master → slot ≠ 0#16 →
    slot ≤ master.count → ∃ entry, maps.service front slot = some entry
  entries : ∀ front slot entry, slot ≠ 0#16 → maps.service front slot = some entry →
    ∃ ipv4 address, maps.backend ipv4 entry.backendId = some address
  tables : ∀ ipv4 id ids, maps.table ipv4 id = some ids → ∀ backend ∈ ids,
    ∃ family address, maps.backend family backend = some address

theorem noDangling_empty : NoDangling {} := by
  constructor <;> simp

section Midway

variable {current state : Maps} {services : List Service} {draft : Draft} {cut : Nat}

/-- A reference to a backend, from a cell written after the backends and removed
before them, is kept when it is the current one and made when it is the desired one. -/
theorem Midway.refers (midway : Midway current draft.maps state cut)
    {before wanted now : Option α} {early written kept done : Nat}
    (passage : Passage before wanted now cut early written kept done) (order : early ≤ done)
    (afterBackends : 2 ≤ early) (beforeBackends : done ≤ 16) {value : α} (held : now = some value)
    (families : Bool → Prop) (id : U32)
    (old : before = some value → ∃ ipv4 address, families ipv4 ∧
      current.backend ipv4 id = some address)
    (fresh : wanted = some value → ∃ ipv4 address, families ipv4 ∧
      draft.maps.backend ipv4 id = some address) :
    ∃ ipv4 address, families ipv4 ∧ state.backend ipv4 id = some address := by
  rcases passage.cases order with ⟨within, same⟩ | ⟨after, same⟩
  · rcases old (same.symm.trans held) with ⟨ipv4, _, isFamily, present⟩
    rcases (midway.backend ipv4 id).present (by omega) present with ⟨address, found⟩
    exact ⟨ipv4, address, isFamily, found⟩
  · rcases fresh (same.symm.trans held) with ⟨ipv4, address, isFamily, present⟩
    exact ⟨ipv4, address, isFamily, (midway.backend ipv4 id).wanted (by omega) present⟩

theorem Midway.noDangling (laid : Laid services draft)
    (midway : Midway current draft.maps state cut) (sound : NoDangling current) :
    NoDangling state where
  slots := by
    intro front master slot isMaster isSlot within
    have slots := midway.slot front slot isSlot
    rcases (midway.master front).cases (by omega) with ⟨before, same⟩ | ⟨after, same⟩
    · rcases sound.slots front master slot (same.symm.trans isMaster) isSlot within with
        ⟨entry, held⟩
      exact slots.present before held
    · rcases laid.slots front master slot (same.symm.trans isMaster) isSlot within with
        ⟨entry, held⟩
      exact ⟨entry, slots.wanted after held⟩
  entries := by
    intro front slot entry isSlot held
    have found := midway.refers (midway.slot front slot isSlot) (by omega) (by omega) (by omega)
      held (fun _ => True) entry.backendId
      (fun old => by simpa using sound.entries front slot entry isSlot old)
      (fun fresh => by
        rcases laid.entry front slot entry isSlot fresh with ⟨_, address, _, _, present⟩
        exact ⟨_, address, trivial, present⟩)
    simpa using found
  tables := by
    intro ipv4 id ids held backend member
    have found := midway.refers (midway.table ipv4 id) (by omega) (by omega) (by omega) held
      (fun _ => True) backend
      (fun old => by simpa using sound.tables ipv4 id ids old backend member)
      (fun fresh => by simpa using laid.table ipv4 id ids fresh backend member)
    simpa using found

end Midway

/-- At every moment of every run of rounds, each of them cut anywhere, no service
entry and no table refers to what is not there. -/
theorem noDangling_runRounds (rounds : List Round) : NoDangling (runRounds rounds) := by
  induction rounds using List.reverseRecOn with
  | nil => exact noDangling_empty
  | append_singleton rounds round induction =>
      rw [runRounds_concat]
      rcases round_cases (distinct_runRounds rounds) round with
        same | ⟨draft, cut, _, laid, midway⟩
      · rw [same]
        exact induction
      · exact midway.noDangling laid induction

/-! ## Families -/

/-- Each backend in a slot that a master announces is in the backend map of the
family that the master's flags direct a lookup to. -/
def FamilyCorrect (maps : Maps) : Prop :=
  ∀ front master slot entry, maps.service front 0#16 = some master → slot ≠ 0#16 →
    slot ≤ master.count → maps.service front slot = some entry →
    ∃ address, maps.backend (family front master) entry.backendId = some address

/-- No service with backends flips the family flag of a master that has slots. -/
def Steady (maps : Maps) (services : List Service) : Prop :=
  ∀ service ∈ services, ∀ master, maps.service service.front 0#16 = some master →
    master.count ≠ 0#16 → service.chosen.size ≠ 0 → master.isNat46x64 = service.nat46x64

theorem Midway.familyCorrect {current state : Maps} {services : List Service} {draft : Draft}
    {cut : Nat} (laid : Laid services draft) (midway : Midway current draft.maps state cut)
    (steady : Steady current services) (correct : FamilyCorrect current) : FamilyCorrect state := by
  intro front master slot entry isMaster isSlot within held
  have slots := midway.slot front slot isSlot
  have counts : ∀ count : U16, slot ≤ count → count ≠ 0#16 := by
    rintro _ least rfl
    exact isSlot (BitVec.eq_of_toNat_eq (Nat.le_zero.mp (BitVec.le_def.mp least)))
  have laidFamily : draft.maps.service front slot = some entry →
      draft.maps.service front 0#16 = some master ∨ current.service front 0#16 = some master →
      ∃ address, draft.maps.backend (family front master) entry.backendId = some address := by
    intro fresh whose
    rcases laid.entry front slot entry isSlot fresh with
      ⟨owner, address, isOwner, ownerWithin, present⟩
    rcases whose with desiredToo | old
    · cases isOwner.symm.trans desiredToo
      exact ⟨address, present⟩
    · rcases laid.master front owner isOwner with ⟨_, service, isService, rfl, size, flag⟩
      have filled : service.chosen.size ≠ 0 := by
        rw [← size]
        exact fun zero => counts _ ownerWithin (BitVec.eq_of_toNat_eq zero)
      have same := steady service isService master old (counts _ within) filled
      rw [family, flag, ← same] at present
      exact ⟨address, present⟩
  rcases (midway.master front).cases (by omega) with ⟨before, same⟩ | ⟨after, same⟩
  · have old := same.symm.trans isMaster
    have found := midway.refers slots (by omega) (by omega) (by omega) held
      (· = family front master) entry.backendId
      (fun isOld => by simpa using correct front master slot entry old isSlot within isOld)
      (fun isFresh => by simpa using laidFamily isFresh (.inr old))
    simpa using found
  · have fresh := same.symm.trans isMaster
    rcases laid.slots front master slot fresh isSlot within with ⟨wanted, isWanted⟩
    have written := slots.wanted after isWanted
    cases held.symm.trans written
    rcases laidFamily isWanted (.inl fresh) with ⟨address, present⟩
    exact ⟨address, (midway.backend _ _).wanted (by omega) present⟩

/-- Rounds that each find the family flags of their services steady. -/
def SteadyRun (maps : Maps) : List Round → Prop
  | [] => True
  | round :: rounds => Steady maps round.services ∧ SteadyRun (maps.round round) rounds

theorem Steady.sorted {services : List Service} (steady : Steady maps services) :
    Steady maps (sortedServices services) := by
  intro service member
  exact steady service ((List.perm_insertionSort _ services).mem_iff.mp member)

theorem familyCorrect_of_steadyRun {rounds : List Round} (distinct : maps.Distinct)
    (correct : FamilyCorrect maps) (steady : SteadyRun maps rounds) :
    FamilyCorrect (rounds.foldl Maps.round maps) := by
  induction rounds generalizing maps with
  | nil => exact correct
  | cons round rounds induction =>
      rcases steady with ⟨first, rest⟩
      apply induction (round_distinct distinct round) _ rest
      rcases round_cases distinct round with same | ⟨draft, cut, _, laid, midway⟩
      · rw [same]
        exact correct
      · exact midway.familyCorrect laid first.sorted correct

/-- At every moment of a run whose rounds never flip the family flag of a master
with slots, the slots' backends are those of the family that a lookup is
directed to. -/
theorem familyCorrect_runRounds (rounds : List Round) (steady : SteadyRun {} rounds) :
    FamilyCorrect (runRounds rounds) := by
  apply familyCorrect_of_steadyRun distinct_empty _ steady
  simp [FamilyCorrect]

def webService : Service where
  frontend := ⟨.v4 0x0a000001, 80, protoTcp⟩
  backends := [⟨.v4 0x0a000101, 8080, protoTcp⟩]
  scope := scopeNodeLocal

def webService2 : Service :=
  { webService with
    backends := [⟨.v4 0x0a000101, 8080, protoTcp⟩, ⟨.v4 0x0a000102, 8080, protoTcp⟩] }

theorem grown_familyCorrect :
    SteadyRun {} [⟨[webService], 100⟩, ⟨[webService2], 2⟩] ∧
      FamilyCorrect (runRounds [⟨[webService], 100⟩, ⟨[webService2], 2⟩]) := by
  have steady : SteadyRun {} [⟨[webService], 100⟩, ⟨[webService2], 2⟩] := by
    refine ⟨by simp [Steady], ?_, trivial⟩
    intro service member master held _ _
    rw [List.mem_singleton.mp member] at held ⊢
    have isMaster : (Maps.round {} ⟨[webService], 100⟩).service webService2.front 0#16 =
        some { count := 1, revNatIndex := 1, flags := 0x40 } := by decide +kernel
    cases held.symm.trans isMaster
    decide
  exact ⟨steady, familyCorrect_runRounds _ steady⟩

def webService46 : Service :=
  { webService with backends := [⟨.v6 5, 8080, protoTcp⟩], nat46x64 := true }

theorem flipped_not_familyCorrect :
    ¬ FamilyCorrect (runRounds [⟨[webService], 100⟩, ⟨[webService46], 2⟩]) := by
  intro correct
  rcases correct webService.front { count := 1, revNatIndex := 1, flags := 0x40 } 1#16
    { unionRaw := 2, revNatIndex := 1 } (by decide +kernel) (by decide) (by decide)
    (by decide +kernel) with ⟨address, present⟩
  have missing : (runRounds [⟨[webService], 100⟩, ⟨[webService46], 2⟩]).backend true 2 = none := by
    decide +kernel
  exact nomatch missing.symm.trans present

/-! ## Convergence -/

theorem changed_self [Ord κ] [Std.TransOrd κ] [Std.LawfulEqOrd κ] [DecidableEq ν]
    (map : BTreeMap κ ν) : changed map map = [] := by
  apply List.eq_nil_iff_forall_not_mem.mpr
  intro pair member
  rcases mem_changed.mp member with ⟨held, different⟩
  exact different held

theorem stale_self [Ord κ] [Std.TransOrd κ] [Std.LawfulEqOrd κ] (map : BTreeMap κ ν) :
    stale map map = [] := by
  apply List.eq_nil_iff_forall_not_mem.mpr
  intro key member
  rcases mem_stale.mp member with ⟨held, missing⟩
  exact held missing

theorem difference_self [Ord κ] [Std.TransOrd κ] [Std.LawfulEqOrd κ] (set : BTreeSet κ) :
    difference set set = [] := by
  apply List.eq_nil_iff_forall_not_mem.mpr
  intro key member
  rcases mem_difference.mp member with ⟨held, missing⟩
  exact missing held

theorem plan_self (maps : Maps) : plan maps maps = [] := by
  simp [plan, phases, changed_self, stale_self, difference_self]

section Convergence

variable {current : Maps} {services : List Service} {result : Desired}

theorem desired_again (distinct : current.Distinct) (made : desired current services = .ok result) :
    desired result.maps services = .ok result := by
  rcases desired_eq_ok.mp made with ⟨draft, planned, rfl⟩
  have started := startDraft_valid distinct
  rcases Laid.run distinct started (startDraft_laid current) planned with ⟨valid, _, laid⟩
  have planDistinct : draft.maps.Distinct := by
    rcases exists_midway current draft.maps (plan current draft.maps).length with ⟨cut, midway⟩
    rw [List.take_length, apply_plan] at midway
    exact midway.distinct distinct laid valid
  have sameId : ∀ service ∈ sortedServices services,
      (recoverServices draft.maps)[service.front]? = draft.ids[service.front]? := by
    intro service member
    rcases laid.present service member with ⟨master, held⟩
    rw [(laid.master service.front master held).1]
    exact (recoverServices_eq_some planDistinct).mpr ⟨master, held, rfl⟩
  have sameIds : ∀ service ∈ sortedServices services, ∀ address ∈ service.chosen,
      (startDraft draft.maps).backendIds[address]? = draft.backendIds[address]? := by
    intro service member address isChosen
    rcases laid.chosen service member address isChosen with ⟨id, named, held⟩
    rw [named]
    exact (recoverBackends_eq_some planDistinct).mpr ⟨_, held⟩
  rcases foldlM_planService_replay distinct started (startDraft_laid current) planned
    (⟨rfl, rfl, rfl⟩ : (startDraft current).Alike (startDraft draft.maps)) sameId sameIds with
    ⟨again, repeated, alike⟩
  exact desired_eq_ok.mpr ⟨again, repeated, by rw [alike.maps, alike.ids]⟩

theorem master_keeps_id (distinct : current.Distinct)
    (made : desired current services = .ok result) {front : Front} {before after : LbService}
    (old : current.service front 0#16 = some before)
    (fresh : result.maps.service front 0#16 = some after) :
    after.revNatIndex = before.revNatIndex := by
  rcases desired_laid distinct made with ⟨draft, valid, laid, rfl⟩
  apply wide_injective
  apply valid.services.eq_of_recovered
  · rw [(recoverServices_eq_some distinct).mpr ⟨before, old, rfl⟩]
    rfl
  · rw [(laid.master front after fresh).1]
    rfl

theorem backend_keeps_id (distinct : current.Distinct)
    (made : desired current services = .ok result) {address : Address} {left right : Bool}
    {before after : U32} (old : current.backend left before = some address)
    (fresh : result.maps.backend right after = some address) : after = before := by
  rcases desired_laid distinct made with ⟨draft, valid, laid, rfl⟩
  exact valid.backends.eq_of_recovered ((recoverBackends_eq_some distinct).mpr ⟨left, old⟩)
    (laid.filed right after address fresh).1

end Convergence

/-- From every state of every run, a whole plan leads to the desired maps, where
planning again finds the same maps and IDs and nothing to write. IDs are distinct
and nonzero at every moment, and a complete round keeps those of what it keeps. -/
theorem runRounds_converge (rounds : List Round) :
    (runRounds rounds).Distinct ∧
      ∀ services result, desired (runRounds rounds) services = .ok result →
        (runRounds rounds).apply (plan (runRounds rounds) result.maps) = result.maps ∧
        desired result.maps services = .ok result ∧
        plan result.maps result.maps = [] ∧
        (∀ front before after, (runRounds rounds).service front 0#16 = some before →
          result.maps.service front 0#16 = some after →
          after.revNatIndex = before.revNatIndex) ∧
        ∀ address left right before after,
          (runRounds rounds).backend left before = some address →
          result.maps.backend right after = some address → after = before := by
  have distinct := distinct_runRounds rounds
  refine ⟨distinct, fun services result made => ⟨apply_plan _ _, desired_again distinct made,
    plan_self _, fun front before after old fresh => ?_,
    fun address left right before after old fresh => ?_⟩⟩
  · exact master_keeps_id distinct made old fresh
  · exact backend_keeps_id distinct made old fresh

theorem flipped_converges : ∃ result,
    desired (runRounds [⟨[webService], 100⟩, ⟨[webService46], 2⟩]) [webService46] = .ok result ∧
      desired result.maps [webService46] = .ok result := by
  cases made : desired (runRounds [⟨[webService], 100⟩, ⟨[webService46], 2⟩]) [webService46] with
  | error message =>
      have succeeds : (desired (runRounds [⟨[webService], 100⟩, ⟨[webService46], 2⟩])
          [webService46]).isOk = true := by decide +kernel
      rw [made] at succeeds
      cases succeeds
  | ok result => exact ⟨result, rfl, ((runRounds_converge _).2 _ result made).2.1⟩

end FlowSdn.Lb
