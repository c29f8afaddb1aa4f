import FlowSdn.Endpoint.Store
import FlowSdn.Ipam.HostScope

/-! # The endpoint manager

Creation, deletion and restoration of endpoints, each a sequence of steps on the
store, the kernel's maps and the links, with what is undone when one of them fails.
-/

namespace FlowSdn.Endpoint

open Net OrderedMap Fallible HostIpam

/-- How traffic leaves a Pod: by the kernel's routing decision or through its stack. -/
inductive Egress
  | fib
  | stack
  deriving DecidableEq

structure Manager where
  ids : IdPool
  records : BTreeMap String Record := ∅
  addresses : BTreeMap IpAddr String := ∅
  deleting : BTreeSet String := ∅
  ipam : Ipam
  egress : Egress

/-- A step of the agent: on the world and on its own manager. -/
abbrev Task (α : Type) := Fallible (World × Manager) String α

def manager (read : Manager → α) : Task α := view fun machine => read machine.2

def change (act : Manager → Manager) : Task PUnit :=
  modify fun machine => (machine.1, act machine.2)

def openConnector : Step PUnit := sync

/-! ## Installation -/

def upsertOne (endpoint : EndpointInfo) (address : IpAddr) : Step (Option EndpointInfo) := do
  let old ← snapshot address
  upsert address endpoint
  pure old

/-- Publish an endpoint's addresses in turn. What they replaced is known also where
one of them fails. -/
def upsertAll (endpoint : EndpointInfo) :
    List IpAddr → Step (Except String PUnit × List (IpAddr × Option EndpointInfo))
  | [] => pure (.ok ⟨⟩, [])
  | address :: rest => do
      match ← attempt (upsertOne endpoint address) with
      | .error error => pure (.error error, [])
      | .ok old => do
          let (outcome, installed) ← upsertAll endpoint rest
          pure (outcome, (address, old) :: installed)

/-- An interface index that is used again must not inherit another endpoint's policy. -/
def dropForeignPolicy (index id : Nat) : Step PUnit := do
  match ← policyEndpoint index with
  | none => pure ⟨⟩
  | some other => if other = id then pure ⟨⟩ else removePolicyEndpoint index

def routeAll (egress : Egress) (index : Nat) (addresses : List IpAddr) : Step PUnit :=
  match egress with
  | .fib => pure ⟨⟩
  | .stack => do
      openConnector
      addresses.forM fun address => replaceHostRoute index address

def attachEndpoint (record : Record) (egress : Egress) (endpoint : EndpointInfo)
    (ips : List IpAddr) : Step PUnit := do
  dropForeignPolicy endpoint.ifindex record.id
  attach (ifName record.document)
  routeAll egress endpoint.ifindex ips

/-- Undo the replaced map values, then report the error. -/
def undoInstall (installed : List (IpAddr × Option EndpointInfo)) (error : String) :
    Step PUnit := do
  installed.forM fun entry => restoreSnapshot entry.1 entry.2
  fail error

def install (record : Record) (egress : Egress) : Step PUnit := do
  let endpoint ← ofExcept (info record)
  let ips ← ofExcept (addresses record.document)
  let (outcome, installed) ← upsertAll endpoint ips
  match outcome with
  | .error error => undoInstall installed error
  | .ok _ => do
      match ← attempt (attachEndpoint record egress endpoint ips) with
      | .error error => undoInstall installed error
      | .ok _ => pure ⟨⟩

def removePolicy (record : Record) : Step PUnit :=
  match info record with
  | .ok endpoint => removePolicyEndpoint endpoint.ifindex
  | .error _ => pure ⟨⟩

def uninstall (record : Record) : Step PUnit := do
  removePolicy record
  detach (ifName record.document)
  let ips ← ofExcept (addresses record.document)
  ips.forM fun address => removeIfPresent address

/-! ## Creation -/

/-- Whether an address is free among the endpoints and allocated to the Pod. -/
def Manager.checkAddress (manager : Manager) (document : Json) (address : IpAddr) :
    Except String Unit :=
  match manager.ipam.family address with
  | none => .error "endpoint family is disabled"
  | some scope =>
      if manager.addresses.contains address ∨ scope.dump[address]? ≠ some (owner document) then
        .error "endpoint address is not exclusively allocated to this owner"
      else .ok ()

def withId (document : Json) (id : Nat) : Except String Json :=
  match document with
  | .object fields => .ok (.object (Json.insertField "ID" (.number (.natural id)) fields))
  | _ => .error "endpoint document must be an object"

/-- What the manager's own records say about a new endpoint, and its addresses. -/
def Manager.admit (manager : Manager) (document : Json) (id : Nat) :
    Except String (Record × List IpAddr) := do
  let document ← withId document id
  let record ← Record.parse document
  if manager.records.contains record.attachment then .error "endpoint attachment already exists"
  else do
    validateInterfaceOwners (manager.records.values ++ [record])
    let ips ← Endpoint.addresses record.document
    ips.forM (manager.checkAddress record.document)
    pure (record, ips)

def linkMatches (link : Link) (endpoint : EndpointInfo) : Except String Unit :=
  match macValue link.mac with
  | none => .error "invalid Ethernet link MAC"
  | some mac =>
      if link.index ≠ endpoint.ifindex ∨ mac ≠ endpoint.nodeMac then
        .error "endpoint host link identity mismatch"
      else .ok ()

def requireUnowned (address : IpAddr) : Step PUnit := do
  match ← snapshot address with
  | some _ => fail "endpoint map address already owned; reconcile before create"
  | none => pure ⟨⟩

def checkHost (record : Record) (ips : List IpAddr) : Step PUnit := do
  let endpoint ← ofExcept (info record)
  openConnector
  let link ← requireLink (ifName record.document)
  ofExcept (linkMatches link endpoint)
  ips.forM fun address => requireUnowned address

/-- A staged record becomes the manager's before it is published. -/
def Manager.register (manager : Manager) (record : Record) (ips : List IpAddr) : Manager :=
  { manager with
    addresses := insertAll manager.addresses (ips.map (·, record.attachment))
    records := manager.records.insert record.attachment record
    deleting := manager.deleting.insert record.attachment }

def Manager.unregister (manager : Manager) (record : Record) (ips : List IpAddr) : Manager :=
  { manager with
    addresses := ips.foldl (fun addresses address => addresses.erase address) manager.addresses
    records := manager.records.erase record.attachment
    deleting := manager.deleting.erase record.attachment }

def Manager.settle (manager : Manager) (record : Record) : Manager :=
  { manager with deleting := manager.deleting.erase record.attachment }

/-- Forget a new endpoint only when all of it is known to be undone. -/
def rollBack (record : Record) (ips : List IpAddr) : Task PUnit := do
  match ← attempt (within (uninstall record)) with
  | .error _ => pure ⟨⟩
  | .ok _ => do
      match ← attempt (within (Store.remove record.id)) with
      | .error _ => pure ⟨⟩
      | .ok _ => change fun manager => manager.unregister record ips

def installOrRollBack (record : Record) (ips : List IpAddr) : Task PUnit := do
  let egress ← manager (·.egress)
  match ← attempt (within (install record egress)) with
  | .error error => do
      rollBack record ips
      fail error
  | .ok _ => change fun manager => manager.settle record

def createWith (document : Json) (id : Nat) : Task Nat := do
  let admitted ← manager fun manager => manager.admit document id
  let (record, ips) ← ofExcept admitted
  within (checkHost record ips)
  within (Store.stage record)
  change fun manager => manager.register record ips
  within (Store.publish record.id)
  installOrRollBack record ips
  pure id

def Manager.holdsId (manager : Manager) (id : Nat) : Bool :=
  manager.records.values.any fun record => record.id = id

/-- A number no record has goes back. -/
def releaseUnheld (id : Nat) : Task PUnit :=
  change fun manager =>
    if manager.holdsId id then manager else { manager with ids := manager.ids.release id }

def Manager.create (document : Json) : Task Nat := do
  let allocated ← manager fun manager => manager.ids.allocate
  let (id, ids) ← ofExcept allocated
  change fun manager => { manager with ids }
  onError (releaseUnheld id) (createWith document id)

def releaseAddress (address : IpAddr) : Task PUnit := do
  let released ← manager fun manager => manager.ipam.release address
  ofExcept (released.1.mapError Error.text)
  change fun manager =>
    { manager with ipam := released.2, addresses := manager.addresses.erase address }

def Manager.forget (manager : Manager) (record : Record) (attachment : String) : Manager :=
  { manager with
    records := manager.records.erase attachment
    deleting := manager.deleting.erase attachment
    ids := manager.ids.release record.id }

def deleteRecord (attachment : String) (record : Record) : Task Bool := do
  change fun manager => { manager with deleting := manager.deleting.insert attachment }
  within (uninstall record)
  within openConnector
  within (deleteLink (ifName record.document))
  within (Store.remove record.id)
  let ips ← ofExcept (addresses record.document)
  ips.forM fun address => releaseAddress address
  change fun manager => manager.forget record attachment
  pure true

def Manager.delete (attachment : String) : Task Bool := do
  match ← manager fun manager => manager.records[attachment]? with
  | none => pure false
  | some record => deleteRecord attachment record

/-! ## Restoration -/

def uniqueAddresses (records : List Record) : Except String Unit := do
  let _ ← records.foldlM (fun (taken : BTreeSet IpAddr) record => do
    let ips ← addresses record.document
    ips.foldlM (fun (taken : BTreeSet IpAddr) address =>
      if taken.contains address then .error "duplicate persisted endpoint address"
      else .ok (taken.insert address)) taken) ∅
  pure ()

def restoreAddress (record : Record) (address : IpAddr) : Task PUnit := do
  let taken ← manager fun manager => manager.addresses.contains address
  ofExcept (if taken then .error "duplicate restored endpoint address" else .ok ⟨⟩)
  change fun manager =>
    { manager with addresses := manager.addresses.insert address record.attachment }
  let allocated ← manager fun manager => manager.ipam.allocate address (owner record.document)
  ofExcept (allocated.1.mapError Error.text)
  change fun manager => { manager with ipam := allocated.2 }

def restoreViable (record : Record) (link : Link) : Task PUnit := do
  let reserved ← manager fun manager => manager.ids.reserve record.id
  let ids ← ofExcept reserved
  change fun manager => { manager with ids }
  let endpoint ← ofExcept (info record)
  ofExcept (match macValue link.mac with
    | none => .error "invalid Ethernet link MAC"
    | some mac =>
        if link.index ≠ endpoint.ifindex ∨ mac ≠ endpoint.nodeMac then
          .error "restored endpoint host link no longer matches persisted state"
        else .ok ⟨⟩)
  let ips ← ofExcept (addresses record.document)
  ips.forM fun address => restoreAddress record address

/-- The records whose links are there, and those whose links are gone. -/
def sortRecords : List Record → Task (List Record × List Record)
  | [] => pure ([], [])
  | record :: rest => do
      match ← within (link (ifName record.document)) with
      | none => do
          let _ ← ofExcept (info record)
          let (viable, stale) ← sortRecords rest
          pure (viable, record :: stale)
      | some found => do
          restoreViable record found
          let (viable, stale) ← sortRecords rest
          pure (record :: viable, stale)

def checkStaleAddress (record : Record) (address : IpAddr) : Step PUnit := do
  let old ← snapshot address
  let endpoint ← ofExcept (info record)
  ofExcept (match old with
    | none => .ok ⟨⟩
    | some old =>
        if old ≠ endpoint then .error "stale endpoint map ownership differs; preserve forwarding"
        else .ok ⟨⟩)

def checkStale (record : Record) : Step PUnit := do
  let ips ← ofExcept (addresses record.document)
  ips.forM fun address => checkStaleAddress record address

/-- Remove the policy entry of an interface only if it is this endpoint's own. -/
def dropOwnPolicy (record : Record) : Step PUnit :=
  match info record with
  | .error _ => pure ⟨⟩
  | .ok endpoint => do
      match ← policyEndpoint endpoint.ifindex with
      | none => pure ⟨⟩
      | some other =>
          if other = record.id then removePolicyEndpoint endpoint.ifindex else pure ⟨⟩

def dropStale (record : Record) : Step PUnit := do
  dropOwnPolicy record
  detach (ifName record.document)
  let ips ← ofExcept (addresses record.document)
  ips.forM fun address => removeIfPresent address
  Store.remove record.id

def installViable (record : Record) : Task PUnit := do
  let egress ← manager (·.egress)
  within (install record egress)
  change fun manager =>
    { manager with records := manager.records.insert record.attachment record }

/-- A manager over what the store has kept, with an address pool nothing is taken from. -/
def Manager.restore (ipam : Ipam) (idMax : Nat) (egress : Egress) : Task PUnit := do
  let ids ← ofExcept (IdPool.new idMax)
  let records ← within Store.restore
  ofExcept (validateInterfaceOwners records)
  ofExcept (uniqueAddresses records)
  change fun _ => { ids, ipam, egress }
  within openConnector
  let (viable, stale) ← sortRecords records
  stale.forM fun record => within (checkStale record)
  stale.forM fun record => within (dropStale record)
  viable.forM fun record => installViable record

end FlowSdn.Endpoint
