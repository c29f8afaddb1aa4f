import FlowSdn.Endpoint.Api
import FlowSdn.Endpoint.Restored

/-! # Leases and the addresses of endpoints

A request keeps the manager consistent, and with it every address of an endpoint allocated, as
long as no lease that it finds expired is for such an address.
-/

namespace FlowSdn.Endpoint

open Net OrderedMap Fallible HostIpam Checked

/-! ## Handlers -/

/-- Unless the agent was stopped, its manager is consistent. -/
def Sane (result : Except (Halt Failure) α) (_ : World) (after : Api) : Prop :=
  result ≠ .error .stopped → after.manager.Consistent

abbrev SaneFrom (part : Api) (handler : Handler α) : Prop :=
  From (fun _ => True) part handler Sane

section Handlers

variable {part : Api} {next : α → Handler β}

theorem sane_bind {handler : Handler α} (first : SaneFrom part handler)
    (rest : ∀ value left, left.manager.Consistent → SaneFrom left (next value)) :
    SaneFrom part (handler >>= next) := by
  refine .bind first ?_ fun value left => ?_
  · intro halt _ left sane living
    refine sane fun same => living ?_
    cases same
    rfl
  · exact .given (fun _ sane => ⟨sane nofun, trivial⟩) (rest value left)

theorem from_api {read : Api → α} (rest : SaneFrom part (next (read part))) :
    SaneFrom part (api read >>= next) :=
  .bind_view rest

theorem from_update {act : Api → Api} {next : PUnit → Handler β}
    (rest : SaneFrom (act part) (next ⟨⟩)) : SaneFrom part (update act >>= next) :=
  .bind_modify rest

theorem sane_attempt {handler : Handler α} (sane : SaneFrom part handler) :
    SaneFrom part (attempt handler) := by
  intro world _ living
  have kept := sane world trivial
  unfold attempt at living ⊢
  cases ran : handler (world, part) with
  | mk result left =>
      rw [ran] at kept living
      cases result with
      | ok value => exact kept nofun
      | error halt =>
          cases halt with
          | error error => exact kept nofun
          | stopped => exact absurd rfl living

theorem sane_onManager {task : Task α}
    (kept : ∀ world, (task (world, part.manager)).1 ≠ .error .stopped →
      (task (world, part.manager)).2.2.Consistent) : SaneFrom part (onManager task) := by
  intro world _ living
  refine kept world fun stopped => living ?_
  change ((task (world, part.manager)).1.mapError asFailure) = _
  rw [stopped]
  rfl

theorem healthy_from (manager : Manager) (attachment : String) :
    From (OnDisk fun _ => True) manager (Manager.healthy attachment) fun _ _ after =>
      after = manager := by
  unfold Manager.healthy
  refine from_manager ?_
  cases manager.records[attachment]? with
  | none => exact .pure fun _ _ => rfl
  | some record =>
      refine from_manager ?_
      cases manager.deleting.contains attachment with
      | true => exact .pure fun _ _ => rfl
      | false =>
          refine .bind_within ofKernel_openConnector.keeps (fun _ _ _ => rfl) fun _ => ?_
          refine .bind_within (ofKernel_link _).keeps (fun _ _ _ => rfl) fun found => ?_
          cases found with
          | none => exact .pure fun _ _ => rfl
          | some found =>
              refine .bind_ofExcept (fun _ _ _ _ => rfl) fun endpoint _ => ?_
              split
              · exact .pure fun _ _ => rfl
              · split
                · exact .fail fun _ _ => rfl
                · exact .pure fun _ _ => rfl

theorem usesAddress_of_mem {record : Record} {ips : List IpAddr} {address : IpAddr}
    (readable : addresses record.document = .ok ips) (member : address ∈ ips) :
    usesAddress address record = true := by
  have named : ∀ {ipv4 : Bool} {found : List IpAddr}, addressOf record.document ipv4 = .ok found →
      address ∈ found →
      ((record.document.get (if ipv4 then "IPv4" else "IPv6")).bind Json.asStr).bind
        IpAddr.parse = some address := by
    intro ipv4 found read listed
    unfold addressOf at read
    have shape : text record.document (if ipv4 then "IPv4" else "IPv6") =
        ((record.document.get (if ipv4 then "IPv4" else "IPv6")).bind Json.asStr).getD "" := by
      rw [text, Json.textAt, Json.pointer]
      cases record.document.get (if ipv4 then "IPv4" else "IPv6") <;> rfl
    rw [shape] at read
    generalize (record.document.get (if ipv4 then "IPv4" else "IPv6")).bind Json.asStr = field
      at read ⊢
    simp only at read
    split at read
    · cases read
      cases listed
    · rename_i filled
      split at read
      · cases read
      · rename_i parsed
        split at read
        · cases read
        · cases read
          rw [List.mem_singleton] at listed
          cases field with
          | none => exact absurd rfl filled
          | some raw => exact listed ▸ parsed
  unfold addresses at readable
  simp only [bind_eq_ok] at readable
  rcases readable with ⟨ipv6, read6, ipv4, read4, joined⟩
  split at joined
  · cases joined
  · cases joined
    rw [usesAddress, List.any_eq_true]
    rcases List.mem_append.mp member with listed | listed
    · exact ⟨"IPv6", by simp, decide_eq_true (named read6 listed)⟩
    · exact ⟨"IPv4", by simp, decide_eq_true (named read4 listed)⟩

variable (consistent : part.manager.Consistent)

include consistent

theorem sane_pure {value : α} :
    SaneFrom part (pure value : Handler α) :=
  .pure fun _ _ _ => consistent

theorem sane_fail {failure : Failure} :
    SaneFrom part (fail failure : Handler α) :=
  .fail fun _ _ _ => consistent

theorem sane_bind_ofExcept {value : Except Failure α} (rest : ∀ found, SaneFrom part (next found)) :
    SaneFrom part (ofExcept value >>= next) :=
  .bind_ofExcept (fun _ _ _ _ _ => consistent) fun found _ => rest found

/-! ## Creation and deletion -/

theorem sane_create (document : Json) :
    SaneFrom part (onManager (Manager.create document)) :=
  sane_onManager fun world ended => consistent.step (.create _ world document ended)

theorem sane_delete (attachment : String) :
    SaneFrom part (onManager (Manager.delete attachment)) :=
  sane_onManager fun world ended => consistent.step (.delete _ world attachment ended)

theorem sane_refuseExisting (id : String) : SaneFrom part (refuseExisting id) := by
  refine from_api ?_
  cases part.manager.records.contains id with
  | false => exact sane_pure consistent
  | true =>
      have looked : SaneFrom part (onManager (Manager.healthy id)) :=
        sane_onManager fun world _ => (healthy_from part.manager id world trivial).symm ▸ consistent
      refine sane_bind looked fun healthy left kept => ?_
      cases healthy with
      | false => exact sane_fail kept
      | true => exact sane_fail kept

theorem sane_apiCreate (id : String) (body : Json) : SaneFrom part (Api.create id body) := by
  refine sane_bind (sane_refuseExisting consistent id) fun _ left kept => ?_
  refine from_api (sane_bind_ofExcept kept fun found => ?_)
  exact sane_bind (sane_create kept found.1) fun _ _ created => from_update (sane_pure created)

theorem sane_apiDelete (attachment : String) : SaneFrom part (Api.delete attachment) := by
  refine sane_bind (sane_delete consistent attachment) fun deleted left kept => ?_
  cases deleted with
  | true => exact sane_pure kept
  | false => exact sane_fail kept

theorem sane_deleteAll (attachments : List String) : SaneFrom part (deleteAll attachments) := by
  induction attachments generalizing part with
  | nil => exact sane_pure consistent
  | cons attachment rest induction =>
      refine sane_bind (sane_attempt (sane_delete consistent attachment))
        fun outcome left kept => ?_
      refine sane_bind (induction kept) fun failures _ kept => ?_
      cases outcome with
      | ok _ => exact sane_pure kept
      | error _ => exact sane_pure kept

/-! ## Allocation and release -/

theorem sane_pooled {allocate : Ipam → Option (Except HostIpam.Error α × Ipam)}
    (evolves : ∀ result ipam, allocate part.manager.ipam = some (result, ipam) →
      Ipam.Evolves (fun _ => False) part.manager.ipam ipam) : SaneFrom part (pooled allocate) := by
  intro world _ living
  unfold pooled at living ⊢
  cases allocated : allocate part.manager.ipam with
  | none =>
      rw [allocated] at living
      exact absurd rfl living
  | some answer => exact consistent.evolves (evolves answer.1 answer.2 allocated) fun _ _ => id

theorem sane_allocateFamily (family owner : String) :
    SaneFrom part (allocateFamily family owner) := by
  have sound := consistent.indexed.sound
  unfold allocateFamily
  split
  · exact sane_bind (sane_pooled consistent fun _ _ allocated =>
      (Ipam.evolves_allocateNext sound allocated).1) fun _ _ kept => sane_pure kept
  · split
    · exact sane_bind (sane_pooled consistent fun _ _ allocated =>
        (Ipam.evolves_allocateNextFamily sound allocated).1) fun _ _ kept => sane_pure kept
    · split
      · exact sane_bind (sane_pooled consistent fun _ _ allocated =>
          (Ipam.evolves_allocateNextFamily sound allocated).1) fun _ _ kept => sane_pure kept
      · exact sane_fail consistent

theorem sane_leaseAll (moment : Moment) (owner : String) (expires : Bool) (ips : List IpAddr) :
    SaneFrom part (ips.forM fun address => lease moment owner expires address) := by
  induction ips generalizing part with
  | nil => exact sane_pure consistent
  | cons address ips induction =>
      have leased : SaneFrom part (lease moment owner expires address) :=
        sane_bind_ofExcept consistent fun _ _ _ _ => consistent
      exact sane_bind leased fun _ _ kept => induction kept

theorem sane_allocate (moment : Moment) (query : BTreeMap String String) (expires : Bool) :
    SaneFrom part (Api.allocate moment query expires) := by
  refine sane_bind_ofExcept consistent fun owner => sane_bind_ofExcept consistent fun _ => ?_
  refine sane_bind (sane_allocateFamily consistent _ owner) fun ips _ kept => ?_
  refine sane_bind (sane_leaseAll kept moment owner expires ips) fun _ _ kept => ?_
  exact from_api (sane_pure kept)

theorem sane_release (raw : String)
    (query : BTreeMap String String) : SaneFrom part (Api.release raw query) := by
  refine sane_bind_ofExcept consistent fun address => sane_bind_ofExcept consistent fun _ => ?_
  refine from_api ?_
  cases used : part.manager.records.values.any (usesAddress address) with
  | true => exact sane_fail consistent
  | false =>
      have released : ({ part.manager with ipam := (part.manager.ipam.release address).2 } :
          Manager).Consistent := by
        refine consistent.pooled (.release part.manager address ?_)
        intro record listed ips readable member
        rw [← Bool.not_eq_true, List.any_eq_true] at used
        exact used ⟨record, listed, usesAddress_of_mem readable member⟩
      refine from_api (from_update ?_)
      exact sane_bind_ofExcept released fun _ => from_update (sane_pure released)

theorem sane_handle (moment : Moment) (request : Request) :
    SaneFrom part (Api.handle moment request) := by
  cases request with
  | allocate query expires => exact sane_allocate consistent moment query expires
  | create id body => exact sane_apiCreate consistent id body
  | delete attachment => exact sane_apiDelete consistent attachment
  | deleteContainer body =>
      refine sane_bind_ofExcept consistent fun _ => from_api ?_
      exact sane_bind (sane_deleteAll consistent _) fun _ _ kept => sane_pure kept
  | release address query => exact sane_release consistent address query
  | read => exact sane_pure consistent

end Handlers

/-- No lease that has expired is for an address of an endpoint. -/
def Api.Timely (api : Api) (now : Nat) : Prop :=
  ∀ record ∈ api.manager.records.values, ∀ address ∈ recordAddresses record,
    address ∉ api.expired now

theorem manager_expireOne (api : Api) (address : IpAddr) :
    (api.expireOne address).manager =
      { api.manager with ipam := (api.manager.ipam.release address).2 } := by
  unfold Api.expireOne
  rcases api.manager.ipam.release address with ⟨result, ipam⟩
  cases result <;> rfl

variable {api : Api} {ips : List IpAddr} {world : World}

theorem consistent_expireAll (consistent : api.manager.Consistent)
    (unheld : ∀ record ∈ api.manager.records.values, ∀ address ∈ recordAddresses record,
      address ∉ ips) :
    (ips.foldl Api.expireOne api).manager.Consistent ∧
      (ips.foldl Api.expireOne api).manager.records = api.manager.records := by
  induction ips generalizing api with
  | nil => exact ⟨consistent, rfl⟩
  | cons address ips induction =>
      have kept : (api.expireOne address).manager.Consistent := by
        rw [manager_expireOne]
        refine consistent.pooled (.release api.manager address ?_)
        intro record listed found readable member
        exact unheld record listed address (recordAddresses_eq readable ▸ member) List.mem_cons_self
      have records : (api.expireOne address).manager.records = api.manager.records := by
        rw [manager_expireOne]
      rw [List.foldl_cons, ← records]
      refine induction kept fun record listed other member later => ?_
      rw [records] at listed
      exact unheld record listed other member (List.mem_cons_of_mem _ later)

theorem consistent_route (consistent : api.manager.Consistent) {moment : Moment}
    (timely : api.Timely moment.now) (request : Request) :
    SaneFrom api (Api.route moment request) :=
  from_update (sane_handle (consistent_expireAll consistent timely).1 moment request)

/-! ## Runs -/

/-- The agents that runs of requests from a restart come to, where every request finds the
agent as allowed at its time. Each request meets any world. -/
inductive Api.Reachable (allowed : Api → Nat → Prop) : Api → Prop
  | started (settings : Settings) (before : Manager) (world : World) (ipam : Ipam) (idMax : Nat)
      (egress : Egress) (made : ipam.Made)
      (ended : (Manager.restore ipam idMax egress (world, before)).1 = .ok ⟨⟩) :
      Api.Reachable allowed
        { settings, manager := (Manager.restore ipam idMax egress (world, before)).2.2 }
  | request {api : Api} (reached : api.Reachable allowed) (moment : Moment) (request : Request)
      (world : World) (meets : allowed api moment.now)
      (ended : (Api.route moment request (world, api)).1 ≠ .error .stopped) :
      Api.Reachable allowed (Api.route moment request (world, api)).2.2

theorem consistent_of_timely (reached : api.Reachable Api.Timely) : api.manager.Consistent := by
  induction reached with
  | started settings before world ipam idMax egress made ended =>
      exact (restore_from (Ipam.sound_of_made made) before idMax egress world trivial ended).1
  | request reached moment request world timely ended induction =>
      exact consistent_route induction timely request world trivial ended

theorem pooled_eq_ok {allocate : Ipam → Option (Except HostIpam.Error α × Ipam)} {value : α}
    (allocated : (pooled allocate (world, api)).1 = .ok value) :
    ∃ ipam, allocate api.manager.ipam = some (.ok value, ipam) := by
  unfold pooled at allocated
  cases found : allocate api.manager.ipam with
  | none =>
      rw [found] at allocated
      cases allocated
  | some answer =>
      rcases answer with ⟨result, ipam⟩
      rw [found] at allocated
      cases result with
      | error error => cases allocated
      | ok other =>
          cases allocated
          exact ⟨ipam, rfl⟩

theorem free_of_allocateFamily (sound : api.manager.ipam.Sound) {family owner : String}
    (allocated : (allocateFamily family owner (world, api)).1 = .ok ips) :
    ∀ address ∈ ips, api.manager.ipam.isAllocated address = false := by
  have one : ∀ ipv6, ((do
      let address ← pooled fun ipam => ipam.allocateNextFamily ipv6 owner
      pure [address] : Handler (List IpAddr)) (world, api)).1 = .ok ips →
      ∀ address ∈ ips, api.manager.ipam.isAllocated address = false := by
    intro ipv6 given address member
    rcases bind_fst_eq_ok given with ⟨chosen, left, ran, rest⟩
    rcases pooled_eq_ok (congrArg Prod.fst ran) with ⟨ipam, taken⟩
    cases rest
    rw [List.mem_singleton] at member
    exact member ▸ ((Ipam.evolves_allocateNextFamily sound taken).2 chosen rfl).1
  unfold allocateFamily at allocated
  split at allocated
  · rcases bind_fst_eq_ok allocated with ⟨pair, left, ran, rest⟩
    rcases pooled_eq_ok (congrArg Prod.fst ran) with ⟨ipam, taken⟩
    rcases (Ipam.evolves_allocateNext sound taken).2 pair rfl with ⟨free6, free4⟩
    cases rest
    intro address member
    rw [AddressPair.addresses, List.mem_append, List.mem_map, List.mem_map] at member
    rcases member with ⟨chosen, listed, same⟩ | ⟨chosen, listed, same⟩
    · exact same ▸ (free6 chosen (Option.mem_toList.mp listed)).1
    · exact same ▸ (free4 chosen (Option.mem_toList.mp listed)).1
  · split at allocated
    · exact one false allocated
    · split at allocated
      · exact one true allocated
      · cases allocated

theorem isAllocated_of_consistent {manager : Manager} (consistent : manager.Consistent)
    {record : Record} (listed : record ∈ manager.records.values) :
    addresses record.document = .ok (recordAddresses record) ∧
      ∀ address ∈ recordAddresses record, manager.ipam.isAllocated address = true := by
  rcases mem_values.mp listed with ⟨_, found⟩
  have held := consistent.holds found
  rcases consistent.indexed.readable record held with ⟨ips, readable⟩
  rw [recordAddresses_eq readable]
  refine ⟨readable, fun address member => consistent.indexed.allocated address ?_⟩
  have indexed := (consistent.indexed.index address record.attachment).mpr
    ⟨record, ips, held, rfl, readable, member⟩
  exact mem_of_getElem? indexed

/-- In every run whose requests come before any lease of an endpoint's address expires,
every address of every record is allocated, and no allocation hands it out again. -/
theorem held_addresses_stay_allocated {api : Api} (reached : api.Reachable Api.Timely) :
    (∀ record ∈ api.manager.records.values,
      addresses record.document = .ok (recordAddresses record) ∧
      ∀ address ∈ recordAddresses record, api.manager.ipam.isAllocated address = true) ∧
    ∀ (moment : Moment) (family owner : String) (world : World) (ips : List IpAddr),
      api.Timely moment.now →
      (allocateFamily family owner (world, api.expire moment.now)).1 = .ok ips →
      ∀ record ∈ api.manager.records.values, ∀ address ∈ recordAddresses record, address ∉ ips := by
  have consistent := consistent_of_timely reached
  refine ⟨fun record listed => isAllocated_of_consistent consistent listed, ?_⟩
  intro moment family owner world ips timely given record listed address member handed
  rcases consistent_expireAll consistent timely with ⟨expired, records⟩
  have free := free_of_allocateFamily expired.indexed.sound given address handed
  have taken := (isAllocated_of_consistent expired (records ▸ listed)).2 address member
  rw [free] at taken
  cases taken

/-! ## A creation that fails and keeps its record -/

def leasingApi : Api := { settings := ⟨1500, .object []⟩, manager := startedManager }

def allocation (owner : String) : Request :=
  .allocate ((∅ : BTreeMap String String).insert "owner" owner) true

def creation : Request :=
  .create "cni-attachment-id:c1:eth0" (json
    [("container-id", .string "c1"), ("container-interface-name", .string "eth0"),
      ("sync-build-endpoint", .bool true), ("state", .string "waiting-for-identity"),
      ("cni-route-mtu", .number (.natural 1500)), ("k8s-namespace", .string "web"),
      ("k8s-pod-name", .string "one"), ("interface-index", .number (.natural 7)),
      ("netns-cookie", .string "1"), ("interface-name", .string "lxc1"),
      ("mac", .string "02:00:00:00:00:01"), ("host-mac", .string "02:00:00:00:00:02"),
      ("addressing", json [("ipv4", .string "10.0.0.2"), ("ipv4-pool-name", .string "default"),
        ("ipv4-expiration-uuid", .string "first")])])

def leasedApi : Api :=
  (Api.route { now := 0, uuid := fun _ => "first" } (allocation "web/one") ({}, leasingApi)).2.2

def failedApi : Api := (Api.route { now := 1 } creation (refusingWorld, leasedApi)).2.2

def expiredApi : Api := (Api.route { now := expiration } .read ({}, failedApi)).2.2

def reusedApi : Api :=
  (Api.route { now := expiration, uuid := fun _ => "second" } (allocation "web/two")
    ({}, expiredApi)).2.2

def isStopped : Except (Halt Failure) α → Bool
  | .error .stopped => true
  | _ => false

theorem ne_stopped {result : Except (Halt Failure) α} (ended : isStopped result = false) :
    result ≠ .error .stopped := by
  intro same
  rw [same] at ended
  cases ended

theorem reachable_failedApi {allowed : Api → Nat → Prop} (first : allowed leasingApi 0)
    (second : allowed leasedApi 1) : failedApi.Reachable allowed := by
  have started : leasingApi.Reachable allowed :=
    .started _ _ _ _ _ _ made_smallIpam (by decide +kernel)
  have leased : leasedApi.Reachable allowed :=
    started.request { now := 0, uuid := fun _ => "first" } (allocation "web/one") {} first
      (ne_stopped (by decide +kernel))
  exact leased.request { now := 1 } creation refusingWorld second (ne_stopped (by decide +kernel))

theorem held_address_reused :
    expiredApi.Reachable (fun _ _ => True) ∧ reusedApi.Reachable (fun _ _ => True) ∧
    expiredApi.manager.records.values.map (fun record => (record.id, recordAddresses record)) =
      [(1, [.v4 0x0a000002])] ∧
    expiredApi.manager.ipam.isAllocated (.v4 0x0a000002) = false ∧
    reusedApi.manager.records.values.map (fun record => (record.id, recordAddresses record)) =
      [(1, [.v4 0x0a000002])] ∧
    reusedApi.leases.toList.map (fun lease => (lease.1, lease.2.owner)) =
      [(.v4 0x0a000002, "web/two")] := by
  have failed : failedApi.Reachable (fun _ _ => True) := reachable_failedApi trivial trivial
  have expired : expiredApi.Reachable (fun _ _ => True) :=
    failed.request { now := expiration } .read {} trivial (ne_stopped (by decide +kernel))
  refine ⟨expired, ?_, by decide +kernel, by decide +kernel, by decide +kernel, by decide +kernel⟩
  exact expired.request { now := expiration, uuid := fun _ => "second" } (allocation "web/two") {}
    trivial (ne_stopped (by decide +kernel))

theorem failedApi_addresses_allocated :
    failedApi.manager.records.values.map (fun record => (record.id, recordAddresses record)) =
      [(1, [.v4 0x0a000002])] ∧
    ∀ record ∈ failedApi.manager.records.values,
      addresses record.document = .ok (recordAddresses record) ∧
      ∀ address ∈ recordAddresses record, failedApi.manager.ipam.isAllocated address = true := by
  refine ⟨by decide +kernel, ?_⟩
  have reached : failedApi.Reachable Api.Timely :=
    reachable_failedApi (by unfold Api.Timely; decide +kernel)
      (by unfold Api.Timely; decide +kernel)
  exact (held_addresses_stay_allocated reached).1

end FlowSdn.Endpoint
