import FlowSdn.Foundation.FiniteMap
import FlowSdn.Lb.Rounds

/-! # New service IDs

A new service ID is none that a service entry has. A Maglev table or an affinity match may
still have one that no entry has any more, and those are exactly the IDs that can be given
out again too early.
-/

namespace FlowSdn.Lb

open Abi Net OrderedMap Checked

/-- A service ID that some map is keyed or valued by. -/
def Maps.refersTo (maps : Maps) (id : U16) : Prop :=
  (∃ front slot entry, maps.service front slot = some entry ∧ entry.revNatIndex = id) ∨
    (∃ key ∈ maps.affinityMatch, key.revNatId = id) ∨
    ∃ ipv4 table, maps.table ipv4 id = some table

/-- A service ID in the affinity matches or tables that no service entry has. -/
structure Maps.Orphaned (maps : Maps) (id : U16) : Prop where
  nonzero : id ≠ 0
  referred : maps.refersTo id
  unserved : ∀ front slot entry, maps.service front slot = some entry → entry.revNatIndex ≠ id

variable {id : U16} {maps : Maps} {fronts : List Front} {known : BTreeMap Front U16}
  {draft : Draft}

theorem mem_usedServices :
    wide id ∈ usedServices maps ↔
      ∃ front slot entry, maps.service front slot = some entry ∧ entry.revNatIndex = id := by
  rw [usedServices, mem_collect, List.mem_map]
  constructor
  · rintro ⟨⟨front, slot, entry⟩, member, same⟩
    exact ⟨front, slot, entry, mem_serviceList.mp member, wide_injective same⟩
  · rintro ⟨front, slot, entry, held, rfl⟩
    exact ⟨(front, slot, entry), mem_serviceList.mpr held, rfl⟩

section Assigned

variable {current : Maps} {services : List Service} {result : Desired} {front : Front}

theorem recoverServices_eq_none (distinct : current.Distinct) :
    (recoverServices current)[front]? = none ↔ current.service front 0#16 = none := by
  rw [Option.eq_none_iff_forall_ne_some, Option.eq_none_iff_forall_ne_some]
  constructor
  · intro unknown master held
    exact unknown _ ((recoverServices_eq_some distinct).mpr ⟨master, held, rfl⟩)
  · intro absent id found
    rcases (recoverServices_eq_some distinct).mp found with ⟨master, held, _⟩
    exact absent master held

theorem fresh_of_desired (distinct : current.Distinct)
    (made : desired current services = .ok result) {id : U16}
    (absent : current.service front 0#16 = none) (assigned : result.ids[front]? = some id) :
    id ≠ 0 ∧ ∀ other slot entry, current.service other slot = some entry →
      entry.revNatIndex ≠ id := by
  rcases desired_laid distinct made with ⟨draft, valid, _, rfl⟩
  have isAssigned : (draft.ids[front]?).map wide = some (wide id) := by
    rw [assigned]
    rfl
  refine ⟨?_, ?_⟩
  · rintro rfl
    exact valid.services.nonzero front _ isAssigned rfl
  · intro other slot entry held same
    rcases valid.services.source front _ isAssigned with recovered | ⟨_, unused⟩
    · rw [(recoverServices_eq_none distinct).mpr absent] at recovered
      cases recovered
    · exact unused (mem_usedServices.mpr ⟨other, slot, entry, held, same⟩)

end Assigned

/-! ## Every unused ID is given out -/

theorem Ids.exists_advance {used : BTreeSet U32} {remaining : Nat} {next id : U32}
    (unused : id ∉ used) (above : next.toNat ≤ id.toNat)
    (within : id.toNat < next.toNat + remaining) (bound : next.toNat + remaining ≤ 2 ^ 32) :
    ∃ found, advance used remaining next = some found ∧ found.toNat ≤ id.toNat := by
  induction remaining generalizing next with
  | zero => omega
  | succ remaining induction =>
      rw [advance]
      by_cases taken : used.contains next
      · rw [if_pos taken]
        have different : next.toNat ≠ id.toNat := by
          intro same
          rw [BitVec.eq_of_toNat_eq same] at taken
          exact unused (Std.ExtTreeSet.mem_iff_contains.mpr taken)
        have small := id.isLt
        have step : (next + 1).toNat = next.toNat + 1 := by
          rw [BitVec.toNat_add]
          exact Nat.mod_eq_of_lt (by simp; omega)
        exact induction (by omega) (by omega) (by omega)
      · rw [if_neg taken]
        exact ⟨next, rfl, above⟩

theorem Ids.exists_allocate {ids : Ids} {id : U32} (unused : id ∉ ids.used)
    (above : ids.next.toNat ≤ id.toNat) (within : id ≤ ids.max) :
    ∃ found pool, ids.allocate = some (found, pool) ∧ found.toNat ≤ id.toNat := by
  have small := id.isLt
  have reached : id.toNat < ids.next.toNat + (2 ^ 32 - ids.next.toNat) := by omega
  rcases exists_advance unused above reached (by omega) with ⟨found, advanced, below⟩
  refine ⟨found, { ids with used := ids.used.insert found, next := found }, ?_, below⟩
  have inside : ¬found > ids.max := by
    rw [BitVec.le_def] at within
    rw [gt_iff_lt, BitVec.lt_def]
    omega
  rw [Ids.allocate, advanced]
  simp only [if_neg inside]

def bare (front : Front) : Service where
  frontend := front.address
  backends := []
  scope := front.scope

theorem planService_bare {front : Front} {id : U32} {pool : Ids} (unknown : known[front]? = none)
    (unclaimed : front ∉ draft.frontends)
    (allocated : draft.servicePool.allocate = some (id, pool)) (small : id.toNat ≤ 65535) :
    ∃ next, planService known draft (bare front) = .ok next ∧ next.servicePool = pool ∧
      next.ids = draft.ids.insert front (id.setWidth 16) ∧
      next.frontends = draft.frontends.insert front := by
  have none : (bare front).chosen = ∅ := rfl
  have within : ¬id > 65535#32 := by
    rw [gt_iff_lt, BitVec.lt_def]
    simpa using small
  have numbered : draft.serviceId known (bare front).front = .ok (id.setWidth 16, pool) := by
    rw [Draft.serviceId]
    simp only [show (bare front).front = front from rfl, unknown, allocated, if_neg within]
  let master := ({ count := 0, revNatIndex := id.setWidth 16 } : LbService).setServiceFlags
    (bare front).routable
  let filling := draft.begin front (id.setWidth 16) pool master
  refine ⟨{ filling.draft with maps := filling.draft.maps.addSlots front filling.slots },
    planService_eq_ok.mpr ⟨unclaimed, 0, id.setWidth 16, pool, master, filling,
      filling.draft.maps, ?_, numbered, rfl, ?_, rfl, rfl⟩, rfl, rfl, rfl⟩
  · rw [none]
    rfl
  · rw [none]
    rfl

theorem exists_assigned {low : Nat} (unknown : ∀ front ∈ fronts, known[front]? = none)
    (unclaimed : ∀ front ∈ fronts, front ∉ draft.frontends) (distinct : fronts.Nodup)
    (unused : wide id ∉ draft.servicePool.used) (limit : draft.servicePool.max = 65535)
    (above : draft.servicePool.next.toNat ≤ (wide id).toNat)
    (lowest : ∀ other, other ∉ draft.servicePool.used →
      draft.servicePool.next.toNat ≤ other.toNat → low ≤ other.toNat)
    (enough : (wide id).toNat < low + fronts.length) :
    ∃ taken next front, taken <+: fronts ∧ front ∈ taken ∧ next.ids[front]? = some id ∧
      (taken.map bare).foldlM (planService known) draft = .ok next := by
  induction fronts generalizing draft low with
  | nil =>
      have reached := lowest _ unused above
      simp only [List.length_nil] at enough
      omega
  | cons front fronts induction =>
      have bound : (wide id).toNat ≤ 65535 := by
        have small := id.isLt
        simp only [wide, BitVec.toNat_setWidth]
        omega
      have within : wide id ≤ draft.servicePool.max := by
        rw [limit, BitVec.le_def]
        exact bound
      rcases Ids.exists_allocate unused above within with ⟨found, pool, allocated, below⟩
      rcases Ids.allocate_spec allocated with ⟨wasUnused, wasAbove, _, grown, isNext, sameMax⟩
      rcases planService_bare (unknown front List.mem_cons_self)
        (unclaimed front List.mem_cons_self) allocated (by omega) with
        ⟨next, planned, isPool, ids, frontends⟩
      by_cases same : found = wide id
      · refine ⟨[front], next, front, ⟨fronts, rfl⟩, List.mem_singleton.mpr rfl, ?_, ?_⟩
        · rw [ids, same, Std.ExtTreeMap.getElem?_insert_self, wide,
            BitVec.setWidth_setWidth_of_le _ (by decide), BitVec.setWidth_eq]
        · rw [List.map_singleton, List.foldlM_cons, planned]
          rfl
      · have less : found.toNat < (wide id).toNat := by
          have different : found.toNat ≠ (wide id).toNat :=
            fun equal => same (BitVec.eq_of_toNat_eq equal)
          omega
        have started := lowest found wasUnused wasAbove
        rw [List.length_cons] at enough
        have nextUnclaimed : ∀ other ∈ fronts, other ∉ next.frontends := by
          intro other member claimed
          rw [frontends] at claimed
          rcases mem_set_insert_iff.mp claimed with equal | earlier
          · exact (List.nodup_cons.mp distinct).1 (equal ▸ member)
          · exact unclaimed other (List.mem_cons_of_mem _ member) earlier
        have nextUnused : wide id ∉ next.servicePool.used := by
          rw [isPool, grown]
          intro member
          rcases mem_set_insert_iff.mp member with equal | earlier
          · exact same equal
          · exact unused earlier
        have nextLimit : next.servicePool.max = 65535 := by
          rw [isPool, sameMax, limit]
        have nextAbove : next.servicePool.next.toNat ≤ (wide id).toNat := by
          rw [isPool, isNext]
          omega
        have nextLowest : ∀ other, other ∉ next.servicePool.used →
            next.servicePool.next.toNat ≤ other.toNat → found.toNat + 1 ≤ other.toNat := by
          intro other otherUnused otherAbove
          rw [isPool, grown] at otherUnused
          rw [isPool, isNext] at otherAbove
          have different : found.toNat ≠ other.toNat := by
            intro equal
            exact otherUnused (mem_set_insert_iff.mpr (.inl (BitVec.eq_of_toNat_eq equal)))
          omega
        rcases induction (fun other member => unknown other (List.mem_cons_of_mem _ member))
          nextUnclaimed (List.nodup_cons.mp distinct).2 nextUnused nextLimit nextAbove nextLowest
          (by omega) with ⟨taken, final, chosen, isStart, member, assigned, run⟩
        refine ⟨front :: taken, final, chosen, (List.prefix_cons_inj front).mpr isStart,
          List.mem_cons_of_mem _ member, assigned, ?_⟩
        rw [List.map_cons, List.foldlM_cons, planned]
        exact run

/-! ## New frontends -/

def spare (number : Nat) : Front := ⟨⟨.v4 (BitVec.ofNat 32 number), 0, 0⟩, 0⟩

def spares (known : BTreeMap Front U16) : List Front :=
  ((List.range (2 ^ 17)).map spare).filter fun front => known[front]? = none

theorem spare_number {number : Nat} (within : number < 2 ^ 17) :
    (spare number).address.ip.rank = number := by
  simp only [spare, IpAddr.rank, BitVec.toNat_ofNat]
  omega

theorem nodup_spare : ((List.range (2 ^ 17)).map spare).Nodup := by
  refine List.nodup_range.map_on ?_
  intro first isFirst second isSecond same
  rw [← spare_number (List.mem_range.mp isFirst), same, spare_number (List.mem_range.mp isSecond)]

theorem sorted_spare : ((List.range (2 ^ 17)).map spare).Pairwise fun left right =>
    (compare left right).isLE := by
  rw [List.pairwise_map]
  refine (List.pairwise_lt_range).imp_of_mem ?_
  intro first second isFirst isSecond less
  have ips : compare (spare first).address.ip (spare second).address.ip = .lt := by
    change compare (spare first).address.ip.rank (spare second).address.ip.rank = .lt
    rw [spare_number (List.mem_range.mp isFirst), spare_number (List.mem_range.mp isSecond)]
    exact Nat.compare_eq_lt.mpr less
  have addresses : compare (spare first).address (spare second).address = .lt := by
    change (compare (spare first).address.ip (spare second).address.ip).then _ = .lt
    rw [ips]
    rfl
  change (Ordering.then (compare (spare first).address (spare second).address) _).isLE
  rw [addresses]
  rfl

theorem nodup_spares (known : BTreeMap Front U16) : (spares known).Nodup := nodup_spare.filter _

theorem sorted_spares (known : BTreeMap Front U16) : (spares known).Pairwise fun left right =>
    (compare left right).isLE := sorted_spare.filter _

theorem length_known_le (distinct : maps.Distinct) (once : fronts.Nodup) :
    (fronts.filter fun front => !decide ((recoverServices maps)[front]? = none)).length ≤
      2 ^ 16 := by
  have onceKnown := once.filter fun front => !decide ((recoverServices maps)[front]? = none)
  have known : ∀ front ∈ fronts.filter fun front =>
      !decide ((recoverServices maps)[front]? = none),
      ∃ id, (recoverServices maps)[front]? = some id := by
    intro front member
    have present := (List.mem_filter.mp member).2
    simp only [Bool.not_eq_true', decide_eq_false_iff_not] at present
    exact Option.ne_none_iff_exists'.mp present
  generalize fronts.filter (fun front => !decide ((recoverServices maps)[front]? = none)) =
    holders at onceKnown known ⊢
  have ids : (holders.map fun front =>
      (((recoverServices maps)[front]?).getD 0).toNat).Nodup := by
    refine onceKnown.map_on ?_
    intro left isLeft right isRight same
    rcases known left isLeft with ⟨leftId, leftKnown⟩
    rcases known right isRight with ⟨rightId, rightKnown⟩
    rw [leftKnown, rightKnown] at same
    have equal : leftId = rightId := BitVec.eq_of_toNat_eq same
    apply (recovered_services distinct).injective left right (wide leftId)
    · rw [leftKnown]
      rfl
    · rw [rightKnown, equal]
      rfl
  have small : (holders.map fun front =>
      (((recoverServices maps)[front]?).getD 0).toNat) ⊆ List.range (2 ^ 16) := by
    intro number member
    rcases List.mem_map.mp member with ⟨front, _, rfl⟩
    exact List.mem_range.mpr (BitVec.isLt _)
  have bound := (ids.subperm small).length_le
  rwa [List.length_map, List.length_range] at bound

theorem length_spares (distinct : maps.Distinct) :
    2 ^ 16 ≤ (spares (recoverServices maps)).length := by
  have whole := List.length_eq_length_filter_add (l := (List.range (2 ^ 17)).map spare)
    fun front => decide ((recoverServices maps)[front]? = none)
  have others := length_known_le distinct nodup_spare
  rw [List.length_map, List.length_range] at whole
  rw [spares]
  omega

theorem sortedServices_of_sorted
    (sorted : fronts.Pairwise fun left right => (compare left right).isLE) :
    sortedServices (fronts.map bare) = fronts.map bare := by
  have pairwise : (fronts.map bare).Pairwise fun left right =>
      (compare left.front right.front).isLE := by
    rw [List.pairwise_map]
    exact sorted
  exact pairwise.insertionSort_eq

/-- An orphaned ID is given to a new frontend for some services. -/
theorem exists_reused (distinct : maps.Distinct) (orphaned : maps.Orphaned id) :
    ∃ services result front, desired maps services = .ok result ∧
      maps.service front 0#16 = none ∧ result.ids[front]? = some id := by
  have unknown : ∀ front ∈ spares (recoverServices maps), (recoverServices maps)[front]? = none :=
    fun front member => of_decide_eq_true (List.mem_filter.mp member).2
  have unused : wide id ∉ usedServices maps := by
    intro member
    rcases mem_usedServices.mp member with ⟨front, slot, entry, held, same⟩
    exact orphaned.unserved front slot entry held same
  have positive : 1 ≤ (wide id).toNat := by
    have nonzero : (wide id).toNat ≠ 0 := by
      intro zero
      exact orphaned.nonzero (wide_injective (BitVec.eq_of_toNat_eq zero))
    omega
  have enough : (wide id).toNat < 1 + (spares (recoverServices maps)).length := by
    have long := length_spares distinct
    have small := id.isLt
    simp only [wide, BitVec.toNat_setWidth]
    omega
  have unclaimed : ∀ front ∈ spares (recoverServices maps),
      front ∉ (startDraft maps).frontends := by
    intro front _
    simp [startDraft]
  have lowest : ∀ other, other ∉ (startDraft maps).servicePool.used →
      (startDraft maps).servicePool.next.toNat ≤ other.toNat → 1 ≤ other.toNat :=
    fun _ _ above => above
  rcases exists_assigned unknown unclaimed (nodup_spares _) unused rfl positive lowest enough with
    ⟨taken, draft, front, isStart, member, assigned, run⟩
  have sorted : taken.Pairwise fun left right => (compare left right).isLE :=
    (sorted_spares _).sublist isStart.sublist
  refine ⟨taken.map bare, ⟨draft.maps, draft.ids⟩, front, ?_, ?_, assigned⟩
  · rw [desired_eq_ok]
    refine ⟨draft, ?_, rfl⟩
    rw [sortedServices_of_sorted sorted]
    exact run
  · exact (recoverServices_eq_none distinct).mp (unknown front (isStart.subset member))

/-- In every state of every run: the ID of every frontend that has no master is in none of the
maps, whatever services are planned for, exactly when no ID is orphaned in the affinity
matches and tables. -/
theorem fresh_ids_unreferenced_iff (rounds : List Round) :
    (∀ services result front id, desired (runRounds rounds) services = .ok result →
        (runRounds rounds).service front 0#16 = none → result.ids[front]? = some id →
        ¬(runRounds rounds).refersTo id) ↔ ∀ id, ¬(runRounds rounds).Orphaned id := by
  have distinct := distinct_runRounds rounds
  constructor
  · intro unreferenced id orphaned
    rcases exists_reused distinct orphaned with ⟨services, result, front, made, absent, assigned⟩
    exact unreferenced services result front id made absent assigned orphaned.referred
  · intro none services result front id made absent assigned referred
    rcases fresh_of_desired distinct made absent assigned with ⟨nonzero, unserved⟩
    exact none id ⟨nonzero, referred, unserved⟩

def stickyService : Service := { webService with affinity := some 10 }

def otherService : Service := { webService with frontend := ⟨.v4 0x0a000002, 80, protoTcp⟩ }

/-- The service is removed, but only its master and its slot are gone yet. -/
def interruptedRemoval : List Round := [⟨[stickyService], 100⟩, ⟨[], 2⟩]

/-- The ID of the removed service is given to another one while an affinity match has it. -/
theorem orphaned_id_reused : ∃ result,
    desired (runRounds interruptedRemoval) [otherService] = .ok result ∧
      (runRounds interruptedRemoval).service otherService.front 0#16 = none ∧
      result.ids[otherService.front]? = some 1#16 ∧
      (runRounds interruptedRemoval).refersTo 1#16 := by
  cases made : desired (runRounds interruptedRemoval) [otherService] with
  | error message =>
      have succeeds : (desired (runRounds interruptedRemoval) [otherService]).isOk = true := by
        decide +kernel
      rw [made] at succeeds
      cases succeeds
  | ok result =>
      have assigned : (desired (runRounds interruptedRemoval) [otherService]).toOption.bind
          (·.ids[otherService.front]?) = some 1#16 := by
        decide +kernel
      rw [made] at assigned
      refine ⟨result, rfl, by decide +kernel, assigned, .inr (.inl ⟨⟨1, 1⟩, ?_, rfl⟩)⟩
      decide +kernel

end FlowSdn.Lb
