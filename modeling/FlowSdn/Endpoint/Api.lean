import FlowSdn.Endpoint.Manager
import FlowSdn.Net.Display

/-! # The agent's requests

The requests that change endpoints or addresses, over the endpoint manager and the
leases of addresses that no endpoint has yet. Every request first releases the leases
that have expired.
-/

namespace FlowSdn.Endpoint

open Net OrderedMap Fallible HostIpam

structure Failure where
  status : Nat
  message : String
  deriving DecidableEq

/-- An address that is allocated and waits for its endpoint. -/
structure Lease where
  owner : String
  uuid : String
  expires : Option Nat
  deriving DecidableEq

structure Settings where
  routeMtu : Nat
  addressing : Json

structure Api where
  settings : Settings
  manager : Manager
  leases : BTreeMap IpAddr Lease := ∅

/-- What a request finds outside: the time, and what it draws and reads for each address
it leases. Times are nanoseconds. -/
structure Moment where
  now : Nat
  issued : IpAddr → Nat := fun _ => now
  uuid : IpAddr → String := fun _ => ""
  /-- The last time the clock can hold. -/
  latest : Nat := 2 ^ 64 * 10 ^ 9

abbrev Handler (α : Type) := Fallible (World × Api) Failure α

def expiration : Nat := 600 * 10 ^ 9

/-- An error of the manager answers a request with status 500. -/
def asFailure : Halt String → Halt Failure
  | .error message => .error ⟨500, message⟩
  | .stopped => .stopped

def onManager (task : Task α) : Handler α := fun machine =>
  let ran := task (machine.1, machine.2.manager)
  (ran.1.mapError asFailure, (ran.2.1, { machine.2 with manager := ran.2.2 }))

def api (read : Api → α) : Handler α := view fun machine => read machine.2

def update (act : Api → Api) : Handler PUnit := modify fun machine => (machine.1, act machine.2)

def string (value : Json) (key : String) : Except Failure String :=
  match ((value.get key).bind Json.asStr).filter fun text => !text.isEmpty with
  | some text => .ok text
  | none => .error ⟨400, "missing or invalid " ++ key⟩

def optional (value : Json) (key : String) : Except Failure String :=
  match value.get key with
  | none => .ok ""
  | some .null => .ok ""
  | some (.string text) => .ok text
  | some _ => .error ⟨400, "invalid " ++ key⟩

def checkPool (pool : String) (emptyAllowed : Bool) : Except Failure Unit :=
  if pool = "default" ∨ (pool.isEmpty ∧ emptyAllowed) then .ok ()
  else .error ⟨400, "host-scope IPAM requires pool default"⟩

def checkCniRouteMtu (body : Json) (expected : Nat) : Except Failure Unit :=
  match (body.get "cni-route-mtu").bind Json.asU64 with
  | none => .error ⟨400, "cni-route-mtu is required"⟩
  | some actual =>
      if actual ≠ expected then
        .error ⟨409, "CNI route MTU changed; retry ADD with current configuration"⟩
      else .ok ()

def json (fields : List (String × Json)) : Json :=
  .object (fields.foldl (fun object field => Json.insertField field.1 field.2 object) [])

/-- Release one expired lease. A family that is not there keeps it. -/
def Api.expireOne (api : Api) (address : IpAddr) : Api :=
  match api.manager.ipam.release address with
  | (.ok _, ipam) =>
      { api with manager := { api.manager with ipam }, leases := api.leases.erase address }
  | (.error _, ipam) => { api with manager := { api.manager with ipam } }

def Api.expired (api : Api) (now : Nat) : List IpAddr :=
  api.leases.toList.filterMap fun lease =>
    if lease.2.expires.any (· ≤ now) then some lease.1 else none

def Api.expire (now : Nat) (api : Api) : Api := (api.expired now).foldl Api.expireOne api

/-! ## Allocation -/

/-- An allocation from the pools. One that does not come to an end stops the agent. -/
def pooled (allocate : Ipam → Option (Except HostIpam.Error α × Ipam)) : Handler α := fun machine =>
  match allocate machine.2.manager.ipam with
  | none => (.error .stopped, machine)
  | some (result, ipam) =>
      (result.mapError fun error => .error ⟨502, error.text⟩,
        (machine.1, { machine.2 with manager := { machine.2.manager with ipam } }))

def AddressPair.addresses (pair : AddressPair) : List IpAddr :=
  pair.ipv6.toList.map .v6 ++ pair.ipv4.toList.map .v4

def allocateFamily (family owner : String) : Handler (List IpAddr) :=
  if family = "" then do
    let pair ← pooled fun ipam => ipam.allocateNext owner
    pure (AddressPair.addresses pair)
  else if family = "ipv4" then do
    let address ← pooled fun ipam => ipam.allocateNextFamily false owner
    pure [address]
  else if family = "ipv6" then do
    let address ← pooled fun ipam => ipam.allocateNextFamily true owner
    pure [address]
  else fail ⟨400, "family must be ipv4 or ipv6"⟩

def leaseUuid (moment : Moment) (expires : Bool) (address : IpAddr) : String :=
  if expires then moment.uuid address else ""

def leaseExpires (moment : Moment) (expires : Bool) (address : IpAddr) :
    Except Failure (Option Nat) :=
  if !expires then .ok none
  else if moment.latest < moment.issued address + expiration then
    .error ⟨500, "expiration overflow"⟩
  else .ok (some (moment.issued address + expiration))

def lease (moment : Moment) (owner : String) (expires : Bool) (address : IpAddr) :
    Handler PUnit := do
  let until_ ← ofExcept (leaseExpires moment expires address)
  update fun api => { api with
    leases := api.leases.insert address ⟨owner, leaseUuid moment expires address, until_⟩ }

def familyName (address : IpAddr) : String := if address.isIpv4 then "ipv4" else "ipv6"

def allocatedReply (settings : Settings) (moment : Moment) (expires : Bool) (ips : List IpAddr) :
    Json :=
  let pair := ips.flatMap fun address =>
    [(familyName address, .string address.text),
      (familyName address ++ "-pool-name", .string "default"),
      (familyName address ++ "-expiration-uuid", .string (leaseUuid moment expires address))]
  let families := ips.map fun address =>
    (familyName address, json [("ip", .string address.text),
      ("expiration-uuid", .string (leaseUuid moment expires address)), ("gateway", .string ""),
      ("cidrs", .array []), ("master-mac", .string ""), ("interface-number", .string ""),
      ("skip-masquerade", .bool false)])
  json (families ++ [("address", json pair), ("host-addressing", settings.addressing)])

inductive Reply
  | body (status : Nat) (value : Json)
  /-- The endpoint's description is made from its number and its document. -/
  | created (id : Nat) (document : Json)

def queryText (query : BTreeMap String String) (key : String) : String := query[key]?.getD ""

def Api.allocate (moment : Moment) (query : BTreeMap String String) (expires : Bool) :
    Handler Reply := do
  let owner ← ofExcept (match query["owner"]?.filter fun owner => !owner.isEmpty with
    | some owner => .ok owner
    | none => .error ⟨400, "owner is required"⟩)
  ofExcept (checkPool (queryText query "pool") true)
  let ips ← allocateFamily (queryText query "family") owner
  ips.forM fun address => lease moment owner expires address
  let settings ← api (·.settings)
  pure (.body 201 (allocatedReply settings moment expires ips))

/-! ## Endpoints -/

def Manager.healthy (attachment : String) : Task Bool := do
  match ← manager fun manager => manager.records[attachment]? with
  | none => pure false
  | some record => do
      match ← manager fun manager => manager.deleting.contains attachment with
      | true => pure false
      | false => do
          within openConnector
          match ← within (link (ifName record.document)) with
          | none => pure false
          | some found => do
              let endpoint ← ofExcept (info record)
              if found.index ≠ endpoint.ifindex then pure false
              else
                match macValue found.mac with
                | none => fail "invalid Ethernet link MAC"
                | some mac => pure (mac = endpoint.nodeMac)

/-- A field that may only be there empty. -/
def refuseField (body : Json) (key : String) (empty : Json → Bool) (message : String) :
    Except Failure Unit :=
  if (body.get key).any fun value => !empty value then .error ⟨501, message⟩ else .ok ()

/-- The address of one family that a creation names, if any, with its pending lease. -/
def requestedAddress (leases : BTreeMap IpAddr Lease) (addressing : Json) (owner : String)
    (ipv6 : Bool) : Except Failure (List IpAddr) := do
  let family := if ipv6 then "ipv6" else "ipv4"
  let raw ← optional addressing family
  if raw.isEmpty then pure []
  else
    match IpAddr.parse raw with
    | none => .error ⟨400, "invalid endpoint IP"⟩
    | some address =>
        if !address.isIpv4 ≠ ipv6 then .error ⟨400, "endpoint address family mismatch"⟩
        else do
          let pool ← optional addressing (family ++ "-pool-name")
          checkPool pool false
          match leases[address]? with
          | none => .error ⟨409, "IP allocation is not pending"⟩
          | some lease => do
              if lease.owner ≠ owner then
                .error ⟨409, "IP owner or expiration UUID does not match"⟩
              else do
                let uuid ← optional addressing (family ++ "-expiration-uuid")
                if lease.uuid ≠ uuid then
                  .error ⟨409, "IP owner or expiration UUID does not match"⟩
                else pure [address]

/-- The host interface's index: a positive `i32`. -/
def hostIndex (body : Json) : Except Failure Nat :=
  match ((body.get "interface-index").bind Json.asU64).filter
      fun index => 0 < index ∧ index < 2 ^ 31 with
  | some index => .ok index
  | none => .error ⟨400, "invalid host interface index"⟩

def netnsCookie (body : Json) : Except Failure Nat := do
  let raw ← optional body "netns-cookie"
  match Text.parseUnsigned (2 ^ 64) raw with
  | some cookie => .ok cookie
  | none => .error ⟨400, "invalid namespace cookie"⟩

/-- The document a new endpoint is kept under, still without its number. -/
def endpointDocument (settings : Settings) (body addressing : Json)
    (container interface namespace_ pod : String) (index cookie : Nat) : Except Failure Json := do
  let netns ← optional body "container-netns-path"
  let name ← string body "interface-name"
  let mac ← string body "mac"
  let hostMac ← string body "host-mac"
  let ipv4 ← optional addressing "ipv4"
  let ipv4Pool ← optional addressing "ipv4-pool-name"
  let ipv6 ← optional addressing "ipv6"
  let ipv6Pool ← optional addressing "ipv6-pool-name"
  let uid ← optional body "k8s-uid"
  pure (json [("dockerID", .string container), ("ContainerNetnsPath", .string netns),
    ("IfName", .string name), ("IfIndex", .number (.natural index)),
    ("DatapathMode", .string "veth"), ("ParentIfIndex", .number (.natural 0)),
    ("ContainerIfName", .string interface), ("IsSecondaryInterface", .bool false),
    ("OpLabels", json [("Custom", json []), ("OrchestrationIdentity", json []),
      ("Disabled", json []), ("OrchestrationInfo", json [])]),
    ("LXCMAC", .string mac), ("NodeMAC", .string hostMac), ("IPv4", .string ipv4),
    ("IPv4IPAMPool", .string ipv4Pool), ("IPv6", .string ipv6), ("IPv6IPAMPool", .string ipv6Pool),
    ("SecLabel", .null), ("Options", json []), ("DNSHistory", .null), ("DNSZombies", .null),
    ("K8sPodName", .string pod), ("K8sNamespace", .string namespace_), ("K8sUID", .string uid),
    ("DatapathConfiguration", json [("require-arp-passthrough", .bool false),
      ("require-egress-prog", .bool false), ("external-ipam", .bool false),
      ("require-routing", .null), ("install-endpoint-route", .bool false),
      ("disable-sip-verification", .bool false)]),
    ("EndpointUID", .string ""), ("Properties", json []),
    ("NetnsCookie", .number (.natural cookie)), ("RTInfo", .number (.natural 0)),
    ("CNIHostAddressing", settings.addressing),
    ("CNIRouteMTU", .number (.natural settings.routeMtu))])

/-- All that a creation is checked for before the manager sees it: the document, and the
addresses whose leases it takes. -/
def checkCreate (api : Api) (id : String) (body : Json) : Except Failure (Json × List IpAddr) := do
  let container ← string body "container-id"
  let interface ← string body "container-interface-name"
  if id ≠ attachmentOf container interface then
    .error ⟨400, "endpoint URL and attachment do not match"⟩
  else do
    let sync := ((body.get "sync-build-endpoint").bind Json.asBool) = some true
    let state ← if sync then optional body "state" else pure ""
    if !sync ∨ state ≠ "waiting-for-identity" then
      .error ⟨400, "synchronous initial endpoint creation is required"⟩
    else do
      refuseField body "labels" (fun value => value.asArray.any List.isEmpty)
        "identity and policy labels are not implemented"
      refuseField body "datapath-configuration" (fun value => value.asObject.any List.isEmpty)
        "custom datapath modes are not implemented"
      refuseField body "properties" (fun value => value.asObject.any List.isEmpty)
        "endpoint properties are not implemented"
      checkCniRouteMtu body api.settings.routeMtu
      let namespace_ ← string body "k8s-namespace"
      let pod ← string body "k8s-pod-name"
      let addressing ← match body.get "addressing" with
        | some addressing => pure addressing
        | none => .error ⟨400, "addressing is required"⟩
      let ipv6 ← requestedAddress api.leases addressing (namespace_ ++ "/" ++ pod) true
      let ipv4 ← requestedAddress api.leases addressing (namespace_ ++ "/" ++ pod) false
      if (ipv6 ++ ipv4).isEmpty then .error ⟨400, "endpoint has no allocated addresses"⟩
      else do
        let index ← hostIndex body
        let cookie ← netnsCookie body
        let document ← endpointDocument api.settings body addressing container interface namespace_
          pod index cookie
        pure (document, ipv6 ++ ipv4)

def Api.dropLeases (api : Api) (ips : List IpAddr) : Api :=
  { api with leases := ips.foldl (fun leases address => leases.erase address) api.leases }

def refuseExisting (id : String) : Handler PUnit := do
  match ← api fun api => api.manager.records.contains id with
  | false => pure ⟨⟩
  | true => do
      match ← onManager (Manager.healthy id) with
      | false => fail ⟨500, "endpoint recovery or teardown remains incomplete"⟩
      | true => fail ⟨409, "endpoint already exists"⟩

/-- A creation keeps the leases of its addresses until it has succeeded. -/
def Api.create (id : String) (body : Json) : Handler Reply := do
  refuseExisting id
  let checked ← api fun api => checkCreate api id body
  let (document, ips) ← ofExcept checked
  let number ← onManager (Manager.create document)
  update fun api => api.dropLeases ips
  pure (.created number document)

def Api.delete (attachment : String) : Handler Reply := do
  match ← onManager (Manager.delete attachment) with
  | true => pure (.body 200 (.number (.natural 0)))
  | false => fail ⟨404, "endpoint not found"⟩

def deleteAll : List String → Handler Nat
  | [] => pure 0
  | attachment :: rest => do
      let outcome ← attempt (onManager (Manager.delete attachment))
      let failures ← deleteAll rest
      match outcome with
      | .ok _ => pure failures
      | .error _ => pure (failures + 1)

def Api.deleteContainer (body : Json) : Handler Reply := do
  let container ← ofExcept (string body "container-id")
  let attachments ← api fun api => (api.manager.records.values.filter fun record =>
    ((record.document.get "dockerID").bind Json.asStr) = some container).map Record.attachment
  let failures ← deleteAll attachments
  pure (if failures = 0 then .body 200 (.number (.natural 0))
    else .body 206 (.number (.natural (min failures (2 ^ 32 - 1)))))

def usesAddress (address : IpAddr) (record : Record) : Bool :=
  ["IPv4", "IPv6"].any fun key =>
    ((record.document.get key).bind Json.asStr).bind IpAddr.parse = some address

def Api.release (raw : String) (query : BTreeMap String String) : Handler Reply := do
  let address ← ofExcept (match IpAddr.parse raw with
    | some address => .ok address
    | none => .error ⟨400, "invalid IP address"⟩)
  ofExcept (checkPool (queryText query "pool") false)
  match ← api fun api => api.manager.records.values.any (usesAddress address) with
  | true => fail ⟨409, "IP is in use by an endpoint"⟩
  | false => do
      let released ← api fun api => api.manager.ipam.release address
      update fun api => { api with manager := { api.manager with ipam := released.2 } }
      ofExcept (released.1.mapError fun error => ⟨500, error.text⟩)
      update fun api => { api with leases := api.leases.erase address }
      pure (.body 200 (json []))

inductive Request
  | allocate (query : BTreeMap String String) (expires : Bool)
  | create (id : String) (body : Json)
  | delete (attachment : String)
  | deleteContainer (body : Json)
  | release (address : String) (query : BTreeMap String String)
  | read

def Api.handle (moment : Moment) : Request → Handler Reply
  | .allocate query expires => Api.allocate moment query expires
  | .create id body => Api.create id body
  | .delete attachment => Api.delete attachment
  | .deleteContainer body => Api.deleteContainer body
  | .release address query => Api.release address query
  | .read => pure (.body 200 .null)

def Api.route (moment : Moment) (request : Request) : Handler Reply := do
  update (Api.expire moment.now)
  Api.handle moment request

end FlowSdn.Endpoint
