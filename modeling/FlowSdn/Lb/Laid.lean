import FlowSdn.Lb.Assignment

/-! # What the services lay out

The loops over services and backends keep an assignment of IDs, and lay out each
frontend's master, the slots that its count announces and the backends that the
slots and the Maglev tables name.
-/

namespace FlowSdn.Lb

open Abi Net OrderedMap Staged Checked

/-! ## Single steps -/

variable {backend : Address} {draft next : Draft} {id : U32} {service : Service} {current : Maps}
  {front : Front} {input : List Maglev.Backend}

theorem Draft.backendId_eq_ok (found : draft.backendId backend = .ok (id, next)) :
    (draft.backendIds[backend]? = some id ∧ next = draft) ∨
      (draft.backendIds[backend]? = none ∧ ∃ pool,
        draft.backendPool.allocate = some (id, pool) ∧
        next = { draft with
          backendPool := pool
          backendIds := draft.backendIds.insert backend id }) := by
  unfold Draft.backendId at found
  split at found
  · rename_i held
    cases found
    exact .inl ⟨held, rfl⟩
  · rename_i unknown
    split at found
    · cases found
    · rename_i allocated
      cases found
      exact .inr ⟨unknown, _, allocated, rfl⟩

theorem addBackend_eq_ok {serviceId : U16} {filling next : Filling}
    {indexed : Address × Nat} (added : addBackend service serviceId filling indexed = .ok next) :
    ∃ id draft input, filling.draft.backendId indexed.1 = .ok (id, draft) ∧
      service.tableEntry id indexed.1 = .ok input ∧ indexed.2 + 1 < 2 ^ 16 ∧
      next = {
        draft := { draft with maps := draft.maps.addBackend service serviceId id indexed.1 }
        slots := filling.slots ++
          [(BitVec.ofNat 16 (indexed.2 + 1), { unionRaw := id, revNatIndex := serviceId })]
        tableInput := filling.tableInput ++ input } := by
  unfold addBackend at added
  simp only [bind_eq_ok, pure_eq_ok, Prod.exists, slotNumber] at added
  rcases added with ⟨id, draft, named, input, checked, slot, numbered, rfl⟩
  split at numbered
  · rename_i within
    cases numbered
    exact ⟨id, draft, input, named, checked, within, rfl⟩
  · cases numbered

theorem Service.mem_tableEntry (checked : service.tableEntry id backend = .ok input)
    {entry : Maglev.Backend} (member : entry ∈ input) : entry.id = id := by
  unfold Service.tableEntry at checked
  split at checked
  · split at checked
    · cases checked
    · cases checked
      rw [List.mem_singleton.mp member]
  · cases checked
    cases member

theorem Service.countOf_eq_ok {backends : BTreeSet Address} {count : U16}
    (counted : service.countOf backends = .ok count) : count.toNat = backends.size := by
  unfold Service.countOf at counted
  split at counted
  · rename_i within
    cases counted
    exact Nat.mod_eq_of_lt within
  · cases counted

theorem Service.isNat46x64_routable (service : Service) (extra : U16)
    (isExtra : extra = 0 ∨ extra = ServiceFlags.sessionAffinity) :
    ((service.routable ||| extra) &&& ServiceFlags.nat46x64 != 0) = service.nat46x64 := by
  rcases isExtra with rfl | rfl <;> unfold Service.routable <;>
    cases service.dsr <;> cases service.nat46x64 <;> decide

theorem LbService.setAffinity_eq_some {service next : LbService} {algorithm : Algorithm}
    {seconds : U32} (made : service.setAffinity algorithm seconds = some next) :
    next.count = service.count ∧ next.revNatIndex = service.revNatIndex ∧
      next.serviceFlags = service.serviceFlags := by
  unfold LbService.setAffinity at made
  split at made
  · cases made
  · cases made
    exact ⟨rfl, rfl, rfl⟩

theorem Service.master_eq_ok {count id : U16} {master : LbService}
    (made : service.master count id = .ok master) :
    master.count = count ∧ master.revNatIndex = id ∧ master.isNat46x64 = service.nat46x64 := by
  have flagged : ∀ (extra : U16) (value : LbService),
      extra = 0 ∨ extra = ServiceFlags.sessionAffinity →
      value.serviceFlags = service.routable ||| extra → value.isNat46x64 = service.nat46x64 := by
    intro extra value isExtra isFlags
    rw [LbService.isNat46x64, isFlags]
    exact service.isNat46x64_routable extra isExtra
  have plain : service.routable = service.routable ||| 0 := by simp
  unfold Service.master at made
  split at made
  · simp only at made
    split at made
    · cases made
    · rename_i isMaster
      cases made
      rcases LbService.setAffinity_eq_some isMaster with ⟨counted, named, flags⟩
      exact ⟨counted, named, flagged _ _ (.inr rfl)
        (flags.trans (LbService.serviceFlags_setServiceFlags ..))⟩
  · simp only at made
    split at made
    · split at made
      · cases made
      · rename_i isMaster
        cases made
        rcases LbService.setAffinity_eq_some isMaster with ⟨counted, named, flags⟩
        exact ⟨counted, named, flagged 0 _ (.inl rfl)
          ((flags.trans (LbService.serviceFlags_setServiceFlags ..)).trans plain)⟩
    · cases made
      exact ⟨rfl, rfl, flagged 0 _ (.inl rfl)
        ((LbService.serviceFlags_setServiceFlags ..).trans plain)⟩

theorem Maps.addTable_eq_ok {maps next : Maps} {frontend : Address} {id : U16}
    (added : maps.addTable frontend id input = .ok next) :
    next = maps ∨ ∃ table, Maglev.table input tableLength seedMurmur = some (.ok table) ∧
      next = maps.insertTable frontend id table := by
  unfold Maps.addTable at added
  split at added
  · cases added
    exact .inl rfl
  · split at added
    · cases added
    · cases added
    · rename_i table made
      cases added
      exact .inr ⟨table, made, rfl⟩

def Draft.begin (draft : Draft) (front : Front) (id : U16) (pool : Ids) (master : LbService) :
    Filling where
  draft := { draft with
    servicePool := pool
    frontends := draft.frontends.insert front
    ids := draft.ids.insert front id }
  slots := [(0#16, master)]

theorem planService_eq_ok {known : BTreeMap Front U16} :
    planService known draft service = .ok next ↔
      service.front ∉ draft.frontends ∧
      ∃ count id pool master filling maps, service.countOf service.chosen = .ok count ∧
        draft.serviceId known service.front = .ok (id, pool) ∧
        service.master count id = .ok master ∧
        service.chosen.toList.zipIdx.foldlM (addBackend service id)
          (draft.begin service.front id pool master) = .ok filling ∧
        filling.draft.maps.addTable service.frontend id filling.tableInput = .ok maps ∧
        next = { filling.draft with maps := maps.addSlots service.front filling.slots } := by
  have claim : ∀ frontends, draft.claimFrontend service.front = .ok frontends ↔
      service.front ∉ draft.frontends ∧ frontends = draft.frontends.insert service.front := by
    intro frontends
    unfold Draft.claimFrontend
    rw [← Std.ExtTreeSet.contains_iff_mem]
    split
    · rename_i held
      simp [held]
    · rename_i free
      simp [free, eq_comm]
  unfold planService
  simp only [bind_eq_ok, pure_eq_ok, Prod.exists, claim]
  constructor
  · intro planned
    rcases planned with ⟨_, ⟨free, rfl⟩, count, counted, id, pool, named, master, made, filling,
      filled, maps, tabled, rfl⟩
    exact ⟨free, count, id, pool, master, filling, maps, counted, named, made, filled, tabled, rfl⟩
  · intro planned
    rcases planned with ⟨free, count, id, pool, master, filling, maps, counted, named, made,
      filled, tabled, rfl⟩
    exact ⟨_, ⟨free, rfl⟩, count, counted, id, pool, named, master, made, filling, filled, maps,
      tabled, rfl⟩

/-! ## IDs along the loops -/

/-- A draft whose IDs continue those of the current maps. -/
structure Draft.Valid (current : Maps) (draft : Draft) : Prop where
  backends : Assigned (fun address : Address => (recoverBackends current)[address]?)
    (usedBackends current) (fun address => draft.backendIds[address]?) draft.backendPool
  recovered : ∀ (address : Address) (id : U32), (recoverBackends current)[address]? = some id →
    draft.backendIds[address]? = some id
  services : Assigned (fun front : Front => (recoverServices current)[front]?.map wide)
    (usedServices current) (fun front => draft.ids[front]?.map wide) draft.servicePool
  limit : draft.servicePool.max = 65535

theorem getElem?_insert_eq_update [Ord κ] [Std.TransOrd κ] [Std.LawfulEqOrd κ] [DecidableEq κ]
    (map : BTreeMap κ ν) (key other : κ) (value : ν) :
    (map.insert key value)[other]? =
      Function.update (fun other => map[other]?) key (some value) other := by
  by_cases same : other = key
  · rw [same, Function.update_self, Std.ExtTreeMap.getElem?_insert_self]
  · rw [Function.update_of_ne same, getElem?_insert_of_ne (Ne.symm same)]

theorem startDraft_valid (distinct : current.Distinct) : (startDraft current).Valid current := by
  have recovered := recovered_backends distinct
  refine ⟨⟨fun address id held => .inl held, recovered.taken, recovered.nonzero,
    recovered.injective, fun _ member => member, by simp [startDraft]⟩, fun _ _ held => held,
    ⟨?_, ?_, ?_, ?_, fun _ member => member, by simp [startDraft]⟩, rfl⟩ <;>
    simp [startDraft]

theorem Draft.Valid.backendId
    (valid : draft.Valid current) (found : draft.backendId backend = .ok (id, next)) :
    next.Valid current := by
  rcases Draft.backendId_eq_ok found with ⟨_, rfl⟩ | ⟨unknown, pool, allocated, rfl⟩
  · exact valid
  · have unrecovered : (recoverBackends current)[backend]? = none := by
      cases held : (recoverBackends current)[backend]? with
      | none => rfl
      | some other => rw [valid.recovered backend other held] at unknown; cases unknown
    refine ⟨?_, ?_, valid.services, valid.limit⟩
    · simp only [getElem?_insert_eq_update]
      exact valid.backends.allocate unrecovered allocated
    · intro address other held
      have before := valid.recovered address other held
      have different : backend ≠ address := by
        rintro rfl
        rw [before] at unknown
        cases unknown
      exact (getElem?_insert_of_ne different).trans before

theorem wide_setWidth (within : ¬ id > 65535#32) : wide (id.setWidth 16) = id := by
  unfold wide
  bv_omega

theorem Draft.Valid.begin {id : U16} {pool : Ids}
    (distinct : current.Distinct) (valid : draft.Valid current)
    (named : draft.serviceId (recoverServices current) front = .ok (id, pool))
    (master : LbService) : (draft.begin front id pool master).draft.Valid current := by
  have updated : (fun other => (draft.ids.insert front id)[other]?.map wide) =
      Function.update (fun other => draft.ids[other]?.map wide) front (some (wide id)) := by
    funext other
    rw [getElem?_insert_eq_update]
    exact Function.apply_update (fun _ => Option.map wide) _ front (some id) other
  unfold Draft.serviceId at named
  split at named
  · rename_i known
    cases named
    refine ⟨valid.backends, valid.recovered, ?_, valid.limit⟩
    simp only [Draft.begin, updated]
    exact valid.services.keep (recovered_services distinct) (by simp [known])
  · rename_i unknown
    split at named
    · cases named
    · rename_i wideId next allocated
      split at named
      · cases named
      · rename_i within
        cases named
        refine ⟨valid.backends, valid.recovered, ?_, ?_⟩
        · simp only [Draft.begin, updated]
          rw [wide_setWidth within]
          exact valid.services.allocate (by simp [unknown]) allocated
        · exact (Ids.allocate_spec allocated).2.2.2.2.2.trans valid.limit

/-! ## The loop over backends -/

structure Draft.Extends (before after : Draft) : Prop where
  ids : ∀ (address : Address) (id : U32), before.backendIds[address]? = some id →
    after.backendIds[address]? = some id
  backends : ∀ ipv4 id address, before.maps.backend ipv4 id = some address →
    after.maps.backend ipv4 id = some address
  serviceIds : ∀ (front : Front) (id : U16), before.ids[front]? = some id →
    after.ids[front]? = some id

theorem Draft.Extends.refl (draft : Draft) : draft.Extends draft :=
  ⟨fun _ _ held => held, fun _ _ _ held => held, fun _ _ held => held⟩

theorem Draft.Extends.trans {first second third : Draft} (left : first.Extends second)
    (right : second.Extends third) : first.Extends third where
  ids address id held := right.ids address id (left.ids address id held)
  backends ipv4 id address held :=
    right.backends ipv4 id address (left.backends ipv4 id address held)
  serviceIds front id held := right.serviceIds front id (left.serviceIds front id held)

/-- Every backend is in its family's map under its ID. -/
def Draft.Filed (draft : Draft) : Prop :=
  ∀ ipv4 id address, draft.maps.backend ipv4 id = some address →
    draft.backendIds[address]? = some id ∧ address.ip.isIpv4 = ipv4

theorem Draft.backendId_extends (found : draft.backendId backend = .ok (id, next)) :
    next.backendIds[backend]? = some id ∧ next.maps = draft.maps ∧ next.ids = draft.ids ∧
      next.frontends = draft.frontends ∧ next.servicePool = draft.servicePool ∧
      ∀ (address : Address) (other : U32), draft.backendIds[address]? = some other →
        next.backendIds[address]? = some other := by
  rcases Draft.backendId_eq_ok found with ⟨held, rfl⟩ | ⟨unknown, pool, allocated, rfl⟩
  · exact ⟨held, rfl, rfl, rfl, rfl, fun _ _ held => held⟩
  · refine ⟨by simp, rfl, rfl, rfl, rfl, fun address other held => ?_⟩
    have different : backend ≠ address := by
      intro same
      rw [same, held] at unknown
      cases unknown
    exact (getElem?_insert_of_ne different).trans held

/-- What the loop over a service's backends has done for those already seen. -/
structure Filled (current : Maps) (serviceId : U16) (before : Filling)
    (seen : List (Address × Nat)) (filling : Filling) : Prop where
  valid : filling.draft.Valid current
  filed : filling.draft.Filed
  grown : before.draft.Extends filling.draft
  ids : filling.draft.ids = before.draft.ids
  frontends : filling.draft.frontends = before.draft.frontends
  servicePool : filling.draft.servicePool = before.draft.servicePool
  services : filling.draft.maps.services = before.draft.maps.services
  tables : filling.draft.maps.tables = before.draft.maps.tables
  known : ∀ indexed ∈ seen, indexed.2 + 1 < 2 ^ 16 ∧
    ∃ id, filling.draft.backendIds[indexed.1]? = some id ∧
      filling.draft.maps.backend indexed.1.ip.isIpv4 id = some indexed.1 ∧
      (BitVec.ofNat 16 (indexed.2 + 1), { unionRaw := id, revNatIndex := serviceId }) ∈
        filling.slots
  first : ∀ slot ∈ before.slots, slot ∈ filling.slots
  slots : ∀ slot ∈ filling.slots, slot ∈ before.slots ∨ ∃ indexed ∈ seen, ∃ id,
    filling.draft.backendIds[indexed.1]? = some id ∧
      slot = (BitVec.ofNat 16 (indexed.2 + 1), { unionRaw := id, revNatIndex := serviceId })
  input : ∀ entry ∈ filling.tableInput, entry ∈ before.tableInput ∨ ∃ indexed ∈ seen,
    filling.draft.backendIds[indexed.1]? = some entry.id

section Backends

variable {current : Maps} {service : Service} {serviceId : U16} {before filling next : Filling}
  {seen : List (Address × Nat)} {indexed : Address × Nat}

theorem Filled.nil (valid : before.draft.Valid current) (filed : before.draft.Filed) :
    Filled current serviceId before [] before where
  valid := valid
  filed := filed
  grown := .refl _
  ids := rfl
  frontends := rfl
  servicePool := rfl
  services := rfl
  tables := rfl
  known := by simp
  first _ member := member
  slots _ member := .inl member
  input _ member := .inl member

theorem backend_put (service : Service) (serviceId : U16) {draft : Draft}
    (valid : draft.Valid current) (filed : draft.Filed) {backend : Address} {id : U32}
    (named : draft.backendIds[backend]? = some id) :
    let maps := draft.maps.addBackend service serviceId id backend
    maps.backend backend.ip.isIpv4 id = some backend ∧
      (∀ ipv4 other address, draft.maps.backend ipv4 other = some address →
        maps.backend ipv4 other = some address) ∧
      ∀ ipv4 other address, maps.backend ipv4 other = some address →
        draft.backendIds[address]? = some other ∧ address.ip.isIpv4 = ipv4 := by
  have added : ∀ ipv4 other, (draft.maps.addBackend service serviceId id backend).backend ipv4
      other = put draft.maps.backends ⟨(backend.ip.isIpv4, id), some backend⟩ (ipv4, other) :=
    fun ipv4 other =>
      congrFun (draft.maps.backends_addBackend service serviceId id backend) (ipv4, other)
  have here := put_self draft.maps.backends
    (⟨(backend.ip.isIpv4, id), some backend⟩ : Write fun _ : Bool × U32 => Address)
  refine ⟨(added _ _).trans here, fun ipv4 other address held => ?_,
    fun ipv4 other address held => ?_⟩
  · rw [added]
    by_cases same : (ipv4, other) = (backend.ip.isIpv4, id)
    · cases same
      have isOther := (filed _ _ _ held).1
      rw [valid.backends.injective address backend id isOther named]
      exact here
    · exact (put_of_ne same).trans held
  · rw [added] at held
    by_cases same : (ipv4, other) = (backend.ip.isIpv4, id)
    · cases same
      rw [here] at held
      cases held
      exact ⟨named, rfl⟩
    · rw [put_of_ne same] at held
      exact filed ipv4 other address held

theorem Filled.step (filled : Filled current serviceId before seen filling)
    (added : addBackend service serviceId filling indexed = .ok next) :
    Filled current serviceId before (seen ++ [indexed]) next := by
  rcases addBackend_eq_ok added with ⟨id, draft, input, found, checked, within, rfl⟩
  rcases Draft.backendId_extends found with
    ⟨named, sameMaps, sameIds, sameFrontends, samePool, grownIds⟩
  have valid := filled.valid.backendId found
  have filed : draft.Filed := by
    intro ipv4 other address held
    rw [sameMaps] at held
    rcases filled.filed ipv4 other address held with ⟨isId, family⟩
    exact ⟨grownIds address other isId, family⟩
  rcases backend_put service serviceId valid filed named with ⟨here, keptBy, filedNext⟩
  have kept : ∀ ipv4 other address, filling.draft.maps.backend ipv4 other = some address →
      (draft.maps.addBackend service serviceId id indexed.1).backend ipv4 other = some address :=
    fun ipv4 other address held => keptBy ipv4 other address (by rw [sameMaps]; exact held)
  refine ⟨{ valid with }, filedNext,
    filled.grown.trans ⟨grownIds, kept, fun _ _ held => (congrArg (·[_]?) sameIds).trans held⟩,
    sameIds.trans filled.ids,
    sameFrontends.trans filled.frontends, samePool.trans filled.servicePool, ?_, ?_, ?_, ?_, ?_, ?_⟩
  · exact (Maps.services_addBackend ..).trans ((congrArg _ sameMaps).trans filled.services)
  · exact (Maps.tables_addBackend ..).trans ((congrArg _ sameMaps).trans filled.tables)
  · intro other member
    rcases List.mem_append.mp member with earlier | last
    · rcases filled.known other earlier with ⟨bound, otherId, isId, held, isSlot⟩
      exact ⟨bound, otherId, grownIds _ _ isId, kept _ _ _ held, List.mem_append.mpr (.inl isSlot)⟩
    · rw [List.mem_singleton.mp last]
      exact ⟨within, id, named, here, List.mem_append.mpr (.inr (List.mem_singleton.mpr rfl))⟩
  · exact fun slot member => List.mem_append.mpr (.inl (filled.first slot member))
  · intro slot member
    rcases List.mem_append.mp member with earlier | last
    · rcases filled.slots slot earlier with first | ⟨other, isSeen, otherId, isId, equal⟩
      · exact .inl first
      · exact .inr ⟨other, List.mem_append.mpr (.inl isSeen), otherId, grownIds _ _ isId, equal⟩
    · exact .inr ⟨indexed, List.mem_append.mpr (.inr (List.mem_singleton.mpr rfl)), id, named,
        List.mem_singleton.mp last⟩
  · intro entry member
    rcases List.mem_append.mp member with earlier | last
    · rcases filled.input entry earlier with first | ⟨other, isSeen, isId⟩
      · exact .inl first
      · exact .inr ⟨other, List.mem_append.mpr (.inl isSeen), grownIds _ _ isId⟩
    · refine .inr ⟨indexed, List.mem_append.mpr (.inr (List.mem_singleton.mpr rfl)), ?_⟩
      rw [Service.mem_tableEntry checked last]
      exact named

theorem Filled.run (filled : Filled current serviceId before seen filling)
    {rest : List (Address × Nat)}
    (added : rest.foldlM (addBackend service serviceId) filling = .ok next) :
    Filled current serviceId before (seen ++ rest) next := by
  induction rest generalizing filling seen with
  | nil =>
      cases added
      rw [List.append_nil]
      exact filled
  | cons indexed rest induction =>
      rcases foldlM_cons_eq_ok.mp added with ⟨middle, first, others⟩
      have whole := induction (filled.step first) others
      rwa [List.append_assoc] at whole

end Backends

/-! ## The loop over services -/

theorem Maps.service_addSlots_of_ne (maps : Maps) {other : Front}
    (different : other ≠ front) (slots : List (U16 × LbService)) (slot : U16) :
    (maps.addSlots front slots).service other slot = maps.service other slot := by
  have added := congrFun (maps.services_addSlots front slots) (other, slot)
  refine added.trans (run_of_not_mem ?_)
  intro write member same
  rcases List.mem_map.mp member with ⟨entry, _, rfl⟩
  exact different (Prod.mk.inj same).1.symm

/-- A frontend without entries has those that are added, one to a slot. -/
theorem Maps.service_addSlots_eq_some (maps : Maps)
    {slots : List (U16 × LbService)} (free : ∀ slot, maps.service front slot = none)
    (unique : ∀ left ∈ slots, ∀ right ∈ slots, left.1 = right.1 → left = right) {slot : U16}
    {value : LbService} :
    (maps.addSlots front slots).service front slot = some value ↔ (slot, value) ∈ slots := by
  have added : (maps.addSlots front slots).service front slot =
      run maps.services (slots.map fun entry => ⟨(front, entry.1), some entry.2⟩) (front, slot) :=
    congrFun (maps.services_addSlots front slots) (front, slot)
  have writes : ∀ entry ∈ slots,
      run maps.services (slots.map fun entry => ⟨(front, entry.1), some entry.2⟩)
        (front, entry.1) = some entry.2 := by
    intro entry member
    have here : (⟨(front, entry.1), some entry.2⟩ : Write fun _ : Front × U16 => LbService) ∈
        slots.map fun entry => ⟨(front, entry.1), some entry.2⟩ :=
      List.mem_map.mpr ⟨entry, member, rfl⟩
    refine run_of_mem here ?_
    intro write isWrite same
    rcases List.mem_map.mp isWrite with ⟨other, isOther, rfl⟩
    rw [unique other isOther entry member (Prod.mk.inj same).2]
  constructor
  · intro held
    rw [added] at held
    by_cases written : ∃ entry ∈ slots, entry.1 = slot
    · rcases written with ⟨entry, member, rfl⟩
      rw [writes entry member] at held
      cases held
      exact member
    · rw [run_of_not_mem] at held
      · exact absurd held (by rw [Maps.services, free]; simp)
      · intro write isWrite same
        rcases List.mem_map.mp isWrite with ⟨other, isOther, rfl⟩
        exact written ⟨other, isOther, (Prod.mk.inj same).2⟩
  · intro member
    rw [added]
    exact writes _ member

theorem Service.family_of_mem_chosen (member : backend ∈ service.chosen) :
    backend.ip.isIpv4 = (service.frontend.ip.isIpv4 != service.nat46x64) := by
  have picked := (List.mem_filter.mp (mem_collect.mp member)).2
  cases own : backend.ip.isIpv4 <;> cases front : service.frontend.ip.isIpv4 <;>
    cases other : service.nat46x64 <;> simp_all

/-- The family whose backend map a master's flags direct a lookup to. -/
def family (front : Front) (master : LbService) : Bool :=
  front.address.ip.isIpv4 != master.isNat46x64

/-- What the loop over the services has laid out for those already seen. -/
structure Laid (services : List Service) (draft : Draft) : Prop where
  filed : draft.Filed
  owner : ∀ front slot value, draft.maps.service front slot = some value →
    front ∈ draft.frontends
  claimed : ∀ (front : Front) (id : U16), draft.ids[front]? = some id → front ∈ draft.frontends
  master : ∀ front value, draft.maps.service front 0#16 = some value →
    draft.ids[front]? = some value.revNatIndex ∧ ∃ service ∈ services, service.front = front ∧
      value.count.toNat = service.chosen.size ∧ value.isNat46x64 = service.nat46x64
  slots : ∀ front value slot, draft.maps.service front 0#16 = some value → slot ≠ 0#16 →
    slot ≤ value.count → ∃ entry, draft.maps.service front slot = some entry
  entry : ∀ front slot value, slot ≠ 0#16 → draft.maps.service front slot = some value →
    ∃ master address, draft.maps.service front 0#16 = some master ∧ slot ≤ master.count ∧
      draft.maps.backend (family front master) value.backendId = some address
  table : ∀ ipv4 id ids, draft.maps.table ipv4 id = some ids → ∀ backend ∈ ids,
    ∃ ipv4 address, draft.maps.backend ipv4 backend = some address
  present : ∀ service ∈ services, ∃ value, draft.maps.service service.front 0#16 = some value
  chosen : ∀ service ∈ services, ∀ address ∈ service.chosen,
    ∃ id, draft.backendIds[address]? = some id ∧
      draft.maps.backend address.ip.isIpv4 id = some address

section Services

variable {current : Maps} {services : List Service} {draft next : Draft} {service : Service}
  {result : Desired}

theorem startDraft_laid (current : Maps) : Laid [] (startDraft current) := by
  constructor <;> simp [Draft.Filed, startDraft]

theorem Maps.addTable_spec {maps next : Maps} {frontend : Address} {id : U16}
    {input : List Maglev.Backend} (added : maps.addTable frontend id input = .ok next) :
    next.services = maps.services ∧ next.backends = maps.backends ∧
      ∀ ipv4 other ids, next.table ipv4 other = some ids →
        maps.table ipv4 other = some ids ∨ ∀ backend ∈ ids, ∃ entry ∈ input,
          entry.id = backend := by
  rcases Maps.addTable_eq_ok added with rfl | ⟨table, made, rfl⟩
  · exact ⟨rfl, rfl, fun _ _ _ held => .inl held⟩
  · refine ⟨Maps.services_insertTable .., Maps.backends_insertTable .., ?_⟩
    intro ipv4 other ids held
    have inserted := congrFun (maps.tables_insertTable frontend id table) (ipv4, other)
    by_cases same : (ipv4, other) = (frontend.ip.isIpv4, id)
    · cases same
      have here := put_self maps.tables
        (⟨(frontend.ip.isIpv4, id), some table⟩ : Write fun _ : Bool × U16 => List U32)
      have equal : some ids = some table := held.symm.trans (inserted.trans here)
      cases equal
      exact .inr fun backend member => Maglev.mem_of_mem_table made member
    · rw [put_of_ne same] at inserted
      exact .inl (inserted.symm.trans held)

theorem Filled.unique {id : U16} {pool : Ids} {master : LbService} {filling : Filling}
    {backends : List Address}
    (filled : Filled current id (draft.begin service.front id pool master) backends.zipIdx
      filling) :
    ∀ left ∈ filling.slots, ∀ right ∈ filling.slots, left.1 = right.1 → left = right := by
  have numbered : ∀ slot ∈ filling.slots, slot = (0#16, master) ∨ ∃ index address backendId,
      index + 1 < 2 ^ 16 ∧ backends[index]? = some address ∧
      filling.draft.backendIds[address]? = some backendId ∧
      slot = (BitVec.ofNat 16 (index + 1), { unionRaw := backendId, revNatIndex := id }) := by
    intro slot member
    rcases filled.slots slot member with first | ⟨indexed, isSeen, backendId, named, equal⟩
    · exact .inl (List.mem_singleton.mp first)
    · exact .inr ⟨indexed.2, indexed.1, backendId, (filled.known indexed isSeen).1,
        List.mem_zipIdx_iff_getElem?.mp isSeen, named, equal⟩
  have nonzero : ∀ index, index + 1 < 2 ^ 16 → BitVec.ofNat 16 (index + 1) ≠ 0#16 := by
    intro index within zero
    have value := congrArg BitVec.toNat zero
    simp only [BitVec.toNat_ofNat, Nat.mod_eq_of_lt within] at value
    omega
  intro left isLeft right isRight same
  rcases numbered left isLeft with rfl | ⟨leftIndex, leftAddress, leftId, leftWithin, leftAt,
    leftNamed, rfl⟩
  · rcases numbered right isRight with rfl | ⟨index, _, _, within, _, _, rfl⟩
    · rfl
    · exact absurd same.symm (nonzero index within)
  · rcases numbered right isRight with rfl | ⟨rightIndex, rightAddress, rightId, rightWithin,
      rightAt, rightNamed, rfl⟩
    · exact absurd same (nonzero leftIndex leftWithin)
    · have indexes := congrArg BitVec.toNat same
      simp only [BitVec.toNat_ofNat, Nat.mod_eq_of_lt leftWithin, Nat.mod_eq_of_lt rightWithin,
        Nat.add_right_cancel_iff] at indexes
      subst indexes
      rw [leftAt, Option.some.injEq] at rightAt
      subst rightAt
      rw [leftNamed, Option.some.injEq] at rightNamed
      rw [rightNamed]

/-- What one service adds: its slots under its frontend, its backends and its table. -/
structure Planned (current : Maps) (draft : Draft) (service : Service) (next : Draft)
    (id : U16) (master : LbService) (filling : Filling) : Prop where
  begun : ∃ pool, Filled current id (draft.begin service.front id pool master)
    service.chosen.toList.zipIdx filling
  count : master.count.toNat = service.chosen.size
  named : master.revNatIndex = id
  flag : master.isNat46x64 = service.nat46x64
  free : service.front ∉ draft.frontends
  ids : next.ids = draft.ids.insert service.front id
  frontends : next.frontends = draft.frontends.insert service.front
  backendIds : next.backendIds = filling.draft.backendIds
  valid : next.Valid current
  backend : ∀ ipv4 backend, next.maps.backend ipv4 backend =
    filling.draft.maps.backend ipv4 backend
  here : ∀ slot value, next.maps.service service.front slot = some value ↔
    (slot, value) ∈ filling.slots
  other : ∀ front slot, front ≠ service.front →
    next.maps.service front slot = draft.maps.service front slot
  table : ∀ ipv4 other ids, next.maps.table ipv4 other = some ids →
    draft.maps.table ipv4 other = some ids ∨ ∀ backend ∈ ids, ∃ entry ∈ filling.tableInput,
      entry.id = backend

theorem exists_planned (distinct : current.Distinct) (valid : draft.Valid current)
    (laid : Laid services draft)
    (planned : planService (recoverServices current) draft service = .ok next) :
    ∃ id master filling, Planned current draft service next id master filling := by
  rcases planService_eq_ok.mp planned with
    ⟨free, count, id, pool, master, filling, maps, counted, named, made, looped, tabled, rfl⟩
  have filled : Filled current id (draft.begin service.front id pool master)
      service.chosen.toList.zipIdx filling :=
    (Filled.nil (valid.begin distinct named master) laid.filed).run looped
  rcases Service.master_eq_ok made with ⟨isCount, isId, flag⟩
  rcases Maps.addTable_spec tabled with ⟨sameServices, sameBackends, tables⟩
  have services : ∀ front slot, maps.service front slot = draft.maps.service front slot :=
    fun front slot => congrFun (sameServices.trans filled.services) (front, slot)
  have untouched : ∀ slot, maps.service service.front slot = none := by
    intro slot
    rw [services]
    cases held : draft.maps.service service.front slot with
    | none => rfl
    | some value => exact absurd (laid.owner _ _ _ held) free
  refine ⟨id, master, filling, ⟨⟨pool, filled⟩, ?_, isId, flag, free, filled.ids,
    filled.frontends, rfl, ?_, ?_, ?_, ?_, ?_⟩⟩
  · rw [isCount]
    exact Service.countOf_eq_ok counted
  · exact { filled.valid with }
  · intro ipv4 backend
    exact congrFun ((Maps.backends_addSlots ..).trans sameBackends) (ipv4, backend)
  · intro slot value
    exact Maps.service_addSlots_eq_some maps untouched filled.unique
  · intro front slot different
    exact (Maps.service_addSlots_of_ne maps different _ slot).trans (services front slot)
  · intro ipv4 other ids held
    have unslotted : maps.table ipv4 other = some ids :=
      (congrFun (Maps.tables_addSlots maps service.front filling.slots) (ipv4, other)).symm.trans
        held
    refine (tables ipv4 other ids unslotted).imp_left fun before => ?_
    exact (congrFun filled.tables (ipv4, other)).symm.trans before

section Planned

variable {id : U16} {master : LbService} {filling : Filling}
  (planned : Planned current draft service next id master filling) {address : Address}
  {slot : U16} {value : LbService}

include planned

theorem Planned.extends (laid : Laid services draft) : draft.Extends next := by
  rcases planned.begun with ⟨pool, filled⟩
  refine ⟨fun address other held => ?_, fun ipv4 other address held => ?_,
    fun front other held => ?_⟩
  · rw [planned.backendIds]
    exact filled.grown.ids address other held
  · rw [planned.backend]
    exact filled.grown.backends ipv4 other address held
  · rw [planned.ids]
    have different : service.front ≠ front := by
      intro same
      exact planned.free (same ▸ laid.claimed front other held)
    exact (getElem?_insert_of_ne different).trans held

theorem Planned.known {index : Nat} (listed : service.chosen.toList[index]? = some address) :
    index + 1 < 2 ^ 16 ∧ ∃ backend, next.backendIds[address]? = some backend ∧
      next.maps.backend address.ip.isIpv4 backend = some address ∧
      next.maps.service service.front (BitVec.ofNat 16 (index + 1)) =
        some { unionRaw := backend, revNatIndex := id } := by
  rcases planned.begun with ⟨pool, filled⟩
  rcases filled.known (address, index) (List.mem_zipIdx_iff_getElem?.mpr listed) with
    ⟨within, backend, named, held, isSlot⟩
  refine ⟨within, backend, ?_, ?_, (planned.here _ _).mpr isSlot⟩
  · rw [planned.backendIds]
    exact named
  · rw [planned.backend]
    exact held

theorem Planned.known_of_mem (member : address ∈ service.chosen) :
    ∃ backend, next.backendIds[address]? = some backend ∧
      next.maps.backend address.ip.isIpv4 backend = some address := by
  have inside : address ∈ service.chosen.toList := Std.ExtTreeSet.mem_toList.mpr member
  rcases List.mem_iff_getElem?.mp inside with ⟨index, listed⟩
  rcases planned.known listed with ⟨_, backend, named, held, _⟩
  exact ⟨backend, named, held⟩

theorem Planned.master_here : next.maps.service service.front 0#16 = some master := by
  rcases planned.begun with ⟨pool, filled⟩
  exact (planned.here _ _).mpr (filled.first _ (List.mem_singleton.mpr rfl))

theorem Planned.entry_here (held : next.maps.service service.front slot = some value) :
    (slot = 0#16 ∧ value = master) ∨ ∃ index address,
      service.chosen.toList[index]? = some address ∧ slot = BitVec.ofNat 16 (index + 1) ∧
      next.backendIds[address]? = some value.backendId := by
  rcases planned.begun with ⟨pool, filled⟩
  rcases filled.slots _ ((planned.here slot value).mp held) with
    first | ⟨indexed, isSeen, backend, named, equal⟩
  · cases List.mem_singleton.mp first
    exact .inl ⟨rfl, rfl⟩
  · cases equal
    refine .inr ⟨indexed.2, indexed.1, List.mem_zipIdx_iff_getElem?.mp isSeen, rfl, ?_⟩
    rw [planned.backendIds]
    exact named

theorem Planned.filed : next.Filed := by
  rcases planned.begun with ⟨pool, filled⟩
  intro ipv4 backend address held
  rw [planned.backend] at held
  rw [planned.backendIds]
  exact filled.filed ipv4 backend address held

theorem Planned.slots_here (isSlot : slot ≠ 0#16) (within : slot ≤ master.count) :
    ∃ entry, next.maps.service service.front slot = some entry := by
  have positive : slot.toNat ≠ 0 := fun zero => isSlot (BitVec.eq_of_toNat_eq zero)
  have bound : slot.toNat ≤ service.chosen.toList.length := by
    rw [Std.ExtTreeSet.length_toList, ← planned.count]
    exact BitVec.le_def.mp within
  have inside : slot.toNat - 1 < service.chosen.toList.length := by omega
  rcases planned.known (List.getElem?_eq_some_iff.mpr ⟨inside, rfl⟩) with ⟨_, _, _, _, isEntry⟩
  rw [Nat.sub_add_cancel (by omega), BitVec.ofNat_toNat, BitVec.setWidth_eq] at isEntry
  exact ⟨_, isEntry⟩

theorem Planned.backend_here (isSlot : slot ≠ 0#16)
    (held : next.maps.service service.front slot = some value) :
    slot ≤ master.count ∧ ∃ address,
      next.maps.backend (family service.front master) value.backendId = some address := by
  rcases planned.entry_here held with ⟨isMaster, _⟩ | ⟨index, address, listed, rfl, named⟩
  · exact absurd isMaster isSlot
  · rcases planned.known listed with ⟨within, backend, isId, present, _⟩
    rw [named, Option.some.injEq] at isId
    subst isId
    have isChosen : address ∈ service.chosen :=
      Std.ExtTreeSet.mem_toList.mp (List.mem_of_getElem? listed)
    rw [Service.family_of_mem_chosen isChosen, ← planned.flag] at present
    refine ⟨BitVec.le_def.mpr ?_, address, present⟩
    have bound := (List.getElem?_eq_some_iff.mp listed).1
    rw [Std.ExtTreeSet.length_toList, ← planned.count] at bound
    rw [BitVec.toNat_ofNat, Nat.mod_eq_of_lt within]
    omega

theorem Planned.laid (laid : Laid services draft) : Laid (services ++ [service]) next where
  filed := planned.filed
  owner front slot value held := by
    rw [planned.frontends]
    by_cases same : front = service.front
    · rw [same]
      exact Std.ExtTreeSet.mem_insert_self
    · rw [planned.other front slot same] at held
      exact Std.ExtTreeSet.mem_insert.mpr (.inr (laid.owner front slot value held))
  claimed front other held := by
    rw [planned.ids] at held
    rw [planned.frontends]
    rcases getElem?_insert_eq_some_iff.mp held with ⟨rfl, _⟩ | ⟨_, before⟩
    · exact Std.ExtTreeSet.mem_insert_self
    · exact Std.ExtTreeSet.mem_insert.mpr (.inr (laid.claimed front other before))
  master front value held := by
    rw [planned.ids]
    by_cases same : front = service.front
    · subst same
      rw [planned.master_here, Option.some.injEq] at held
      subst held
      exact ⟨by simp [planned.named], service, by simp, rfl, planned.count, planned.flag⟩
    · rw [planned.other front 0#16 same] at held
      rcases laid.master front value held with ⟨isId, owner, member, details⟩
      exact ⟨(getElem?_insert_of_ne (Ne.symm same)).trans isId, owner,
        List.mem_append.mpr (.inl member), details⟩
  slots front value slot held isSlot within := by
    by_cases same : front = service.front
    · subst same
      rw [planned.master_here, Option.some.injEq] at held
      subst held
      exact planned.slots_here isSlot within
    · rw [planned.other front 0#16 same] at held
      rcases laid.slots front value slot held isSlot within with ⟨entry, found⟩
      exact ⟨entry, (planned.other front slot same).trans found⟩
  entry front slot value isSlot held := by
    by_cases same : front = service.front
    · subst same
      rcases planned.backend_here isSlot held with ⟨within, address, present⟩
      exact ⟨master, address, planned.master_here, within, present⟩
    · rw [planned.other front slot same] at held
      rcases laid.entry front slot value isSlot held with
        ⟨owner, address, isOwner, within, present⟩
      exact ⟨owner, address, (planned.other front 0#16 same).trans isOwner, within,
        (planned.extends laid).backends _ _ _ present⟩
  table ipv4 other ids held backend member := by
    rcases planned.table ipv4 other ids held with before | names
    · rcases laid.table ipv4 other ids before backend member with ⟨ipv4, address, present⟩
      exact ⟨ipv4, address, (planned.extends laid).backends _ _ _ present⟩
    · rcases names backend member with ⟨entry, isInput, rfl⟩
      rcases planned.begun with ⟨pool, filled⟩
      rcases filled.input entry isInput with none | ⟨indexed, isSeen, named⟩
      · cases none
      · rcases planned.known (List.mem_zipIdx_iff_getElem?.mp isSeen) with
          ⟨_, backend, isId, present, _⟩
        rw [planned.backendIds, named, Option.some.injEq] at isId
        subst isId
        exact ⟨_, indexed.1, present⟩
  present other member := by
    by_cases same : other.front = service.front
    · exact ⟨master, same ▸ planned.master_here⟩
    · rcases List.mem_append.mp member with earlier | last
      · rcases laid.present other earlier with ⟨value, held⟩
        exact ⟨value, (planned.other other.front 0#16 same).trans held⟩
      · exact absurd (congrArg Service.front (List.mem_singleton.mp last)) same
  chosen other member address isChosen := by
    rcases List.mem_append.mp member with earlier | last
    · rcases laid.chosen other earlier address isChosen with ⟨backend, named, present⟩
      exact ⟨backend, (planned.extends laid).ids _ _ named,
        (planned.extends laid).backends _ _ _ present⟩
    · rw [List.mem_singleton.mp last] at isChosen
      exact planned.known_of_mem isChosen

end Planned

theorem Laid.run (distinct : current.Distinct) (valid : draft.Valid current)
    (laid : Laid services draft) {rest : List Service}
    (planned : rest.foldlM (planService (recoverServices current)) draft = .ok next) :
    next.Valid current ∧ draft.Extends next ∧ Laid (services ++ rest) next := by
  induction rest generalizing draft services with
  | nil =>
      cases planned
      rw [List.append_nil]
      exact ⟨valid, .refl _, laid⟩
  | cons service rest induction =>
      rcases foldlM_cons_eq_ok.mp planned with ⟨middle, first, others⟩
      rcases exists_planned distinct valid laid first with ⟨id, master, filling, one⟩
      rcases induction one.valid (one.laid laid) others with ⟨validNext, grown, laidNext⟩
      rw [List.append_assoc] at laidNext
      exact ⟨validNext, (one.extends laid).trans grown, laidNext⟩

theorem desired_eq_ok :
    desired current services = .ok result ↔ ∃ draft,
      (sortedServices services).foldlM (planService (recoverServices current))
        (startDraft current) = .ok draft ∧ result = ⟨draft.maps, draft.ids⟩ := by
  unfold desired
  split
  · rename_i failed
    simp [failed]
  · rename_i draft planned
    simp [planned, eq_comm]

theorem desired_laid (distinct : current.Distinct) (made : desired current services = .ok result) :
    ∃ draft, draft.Valid current ∧ Laid (sortedServices services) draft ∧
      result = ⟨draft.maps, draft.ids⟩ := by
  rcases desired_eq_ok.mp made with ⟨draft, planned, equal⟩
  rcases Laid.run distinct (startDraft_valid distinct) (startDraft_laid current) planned with
    ⟨valid, _, laid⟩
  exact ⟨draft, valid, laid, equal⟩

end Services

end FlowSdn.Lb
