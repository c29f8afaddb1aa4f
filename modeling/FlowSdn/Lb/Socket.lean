import FlowSdn.Abi.Lb
import FlowSdn.Lb.Maglev

/-! # Planning the load-balancer maps

Desired frontends and their backends become the contents of the service,
backend, affinity and Maglev maps, and the difference from the current contents
an ordered list of writes. Service and backend IDs are recovered from the
current maps.
-/

namespace FlowSdn.Lb

open Abi Net OrderedMap

def scopeCluster : U8 := 0
def scopeNodeLocal : U8 := 1
def protoTcp : U8 := 6
def protoUdp : U8 := 17

structure Address where
  ip : IpAddr
  port : U16
  proto : U8
  deriving DecidableEq

namespace Address

instance : Ord Address where
  compare := compareLex (compareOn ip) (compareLex (compareOn port) (compareOn proto))

instance : Std.TransOrd Address := inferInstanceAs (Std.TransCmp (compareLex _ _))

instance : Std.LawfulEqOrd Address where
  eq_of_compare {left right} equal := by
    cases left
    cases right
    simp_all [compare]

def text (address : Address) : String :=
  let proto :=
    if address.proto = protoTcp then "TCP"
    else if address.proto = protoUdp then "UDP"
    else "ANY"
  match address.ip with
  | .v4 _ => address.ip.text ++ ":" ++ toString address.port.toNat ++ "/" ++ proto
  | .v6 _ => "[" ++ address.ip.text ++ "]:" ++ toString address.port.toNat ++ "/" ++ proto

end Address

structure Front where
  address : Address
  scope : U8
  deriving DecidableEq

namespace Front

instance : Ord Front where
  compare := compareLex (compareOn address) (compareOn scope)

instance : Std.TransOrd Front := inferInstanceAs (Std.TransCmp (compareLex _ _))

instance : Std.LawfulEqOrd Front where
  eq_of_compare {left right} equal := by
    cases left
    cases right
    simp_all [compare]

end Front

structure Service where
  frontend : Address
  backends : List Address
  /-- Client affinity with this timeout in seconds. -/
  affinity : Option U32 := none
  scope : U8 := scopeCluster
  maglev : Bool := false
  dsr : Bool := false
  /-- The backends are the other family's. -/
  nat46x64 : Bool := false
  deriving DecidableEq

def Service.front (service : Service) : Front := ⟨service.frontend, service.scope⟩

structure Maps where
  services4 : BTreeMap Lb4Key LbService := ∅
  backends4 : BTreeMap U32 Lb4Backend := ∅
  services6 : BTreeMap Lb6Key LbService := ∅
  backends6 : BTreeMap U32 Lb6Backend := ∅
  affinityMatch : BTreeSet LbAffinityMatch := ∅
  /-- Each Maglev frontend's table of backend IDs by service ID. -/
  maglev4 : BTreeMap U16 (List U32) := ∅
  maglev6 : BTreeMap U16 (List U32) := ∅

def key4 (address : U32) (front : Front) (slot : U16) : Lb4Key :=
  ⟨address, front.address.port, slot, front.address.proto, front.scope⟩

def key6 (address : U128) (front : Front) (slot : U16) : Lb6Key :=
  ⟨address, front.address.port, slot, front.address.proto, front.scope⟩

def frontend4 (key : Lb4Key) : Front := ⟨⟨.v4 key.address, key.dport, key.proto⟩, key.scope⟩

def frontend6 (key : Lb6Key) : Front := ⟨⟨.v6 key.address, key.dport, key.proto⟩, key.scope⟩

def backend4 (backend : Lb4Backend) : Address := ⟨.v4 backend.address, backend.port, backend.proto⟩

def backend6 (backend : Lb6Backend) : Address := ⟨.v6 backend.address, backend.port, backend.proto⟩

namespace Maps

def insertService (maps : Maps) (front : Front) (slot : U16) (value : LbService) : Maps :=
  match front.address.ip with
  | .v4 address => { maps with services4 := maps.services4.insert (key4 address front slot) value }
  | .v6 address => { maps with services6 := maps.services6.insert (key6 address front slot) value }

def insertBackend (maps : Maps) (id : U32) (backend : Address) : Maps :=
  match backend.ip with
  | .v4 address =>
      { maps with backends4 := maps.backends4.insert id ⟨address, backend.port, backend.proto⟩ }
  | .v6 address =>
      { maps with backends6 := maps.backends6.insert id ⟨address, backend.port, backend.proto⟩ }

def insertAffinity (maps : Maps) (key : LbAffinityMatch) : Maps :=
  { maps with affinityMatch := maps.affinityMatch.insert key }

def insertTable (maps : Maps) (frontend : Address) (id : U16) (table : List U32) : Maps :=
  match frontend.ip with
  | .v4 _ => { maps with maglev4 := maps.maglev4.insert id table }
  | .v6 _ => { maps with maglev6 := maps.maglev6.insert id table }

end Maps

/-- Hands out the smallest unused IDs up to `max`, in increasing order. -/
structure Ids where
  used : BTreeSet U32
  next : U32 := 1
  max : U32

/-- The first unused ID from `next` on, among as many as there are before overflow. -/
def Ids.advance (used : BTreeSet U32) : (remaining : Nat) → (next : U32) → Option U32
  | 0, _ => none
  | remaining + 1, next =>
      if used.contains next then advance used remaining (next + 1) else some next

def Ids.allocate (ids : Ids) : Option (U32 × Ids) :=
  match advance ids.used (2 ^ 32 - ids.next.toNat) ids.next with
  | none => none
  | some next =>
      if next > ids.max then none
      else some (next, { ids with used := ids.used.insert next, next })

def Maps.backendList (maps : Maps) : List (Address × U32) :=
  maps.backends4.toList.map (fun pair => (backend4 pair.2, pair.1)) ++
    maps.backends6.toList.map fun pair => (backend6 pair.2, pair.1)

def Maps.serviceList (maps : Maps) : List (Front × U16 × LbService) :=
  maps.services4.toList.map (fun pair => (frontend4 pair.1, pair.1.backendSlot, pair.2)) ++
    maps.services6.toList.map fun pair => (frontend6 pair.1, pair.1.backendSlot, pair.2)

/-- The backends' IDs; a duplicate address keeps its lowest ID of the first family. -/
def recoverBackends (maps : Maps) : BTreeMap Address U32 :=
  insertNew ∅ maps.backendList

def recoverServices (maps : Maps) : BTreeMap Front U16 :=
  insertNew ∅ ((maps.serviceList.filter fun entry =>
    entry.2.1 = 0#16 ∧ entry.2.2.revNatIndex ≠ 0#16).map fun entry =>
      (entry.1, entry.2.2.revNatIndex))

def usedBackends (maps : Maps) : BTreeSet U32 := collect (maps.backendList.map (·.2))

def usedServices (maps : Maps) : BTreeSet U32 :=
  collect (maps.serviceList.map (·.2.2.revNatIndex.setWidth 32))

/-! ## Desired contents -/

structure Desired where
  maps : Maps
  ids : BTreeMap Front U16

/-- What the loop over the services carries. -/
structure Draft where
  backendIds : BTreeMap Address U32
  backendPool : Ids
  servicePool : Ids
  maps : Maps := {}
  ids : BTreeMap Front U16 := ∅
  frontends : BTreeSet Front := ∅

/-- What the loop over one service's backends carries. -/
structure Filling where
  draft : Draft
  slots : List (U16 × LbService)
  tableInput : List Maglev.Backend := []

def protocolName (proto : U8) : Option String :=
  if proto = protoTcp then some "TCP"
  else if proto = protoUdp then some "UDP"
  else none

namespace Service

/-- The backends of the family that the service balances over, without duplicates. -/
def chosen (service : Service) : BTreeSet Address :=
  collect (service.backends.filter fun backend =>
    (backend.ip.isIpv4 == service.frontend.ip.isIpv4) != service.nat46x64)

def countOf (service : Service) (backends : BTreeSet Address) : Except String U16 :=
  if backends.size < 2 ^ 16 then .ok (BitVec.ofNat 16 backends.size)
  else .error (service.frontend.text ++ ": more than 65535 backends")

def algorithm (service : Service) : Algorithm := if service.maglev then .maglev else .random

def routable (service : Service) : U16 :=
  let flags :=
    if service.dsr then ServiceFlags.routable ||| ServiceFlags.fwdModeDsr
    else ServiceFlags.routable
  if service.nat46x64 then flags ||| ServiceFlags.nat46x64 else flags

def master (service : Service) (count id : U16) : Except String LbService :=
  let start : LbService := { count, revNatIndex := id }
  match service.affinity with
  | some seconds =>
      let flagged := start.setServiceFlags (service.routable ||| ServiceFlags.sessionAffinity)
      match flagged.setAffinity service.algorithm seconds with
      | none =>
          .error (service.frontend.text ++ ": affinity timeout " ++ toString seconds.toNat ++
            " s too long")
      | some master => .ok master
  | none =>
      let flagged := start.setServiceFlags service.routable
      if service.maglev then
        match flagged.setAffinity service.algorithm 0#32 with
        | none => .error (service.frontend.text ++ ": master")
        | some master => .ok master
      else .ok flagged

def tableEntry (service : Service) (id : U32) (backend : Address) :
    Except String (List Maglev.Backend) :=
  if service.maglev then
    match protocolName backend.proto with
    | none => .error "Maglev backend protocol"
    | some protocol =>
        .ok [{
          id
          address := backend.ip
          port := backend.port
          protocol
          cluster := 0
          internal := false
          weight := 1 }]
  else .ok []

end Service

def Draft.claimFrontend (draft : Draft) (front : Front) : Except String (BTreeSet Front) :=
  if draft.frontends.contains front then
    .error ("duplicate frontend " ++ front.address.text ++ " scope " ++ toString front.scope.toNat)
  else .ok (draft.frontends.insert front)

/-- A frontend's known ID, or a new one and the pool without it. -/
def Draft.serviceId (draft : Draft) (known : BTreeMap Front U16) (front : Front) :
    Except String (U16 × Ids) :=
  match known[front]? with
  | some id => .ok (id, draft.servicePool)
  | none =>
      match draft.servicePool.allocate with
      | none => .error "service IDs exhausted"
      | some (id, pool) =>
          if id > 65535#32 then .error "service ID overflow" else .ok (id.setWidth 16, pool)

/-- A backend's known ID, or a new one that is known from then on. -/
def Draft.backendId (draft : Draft) (backend : Address) : Except String (U32 × Draft) :=
  match draft.backendIds[backend]? with
  | some id => .ok (id, draft)
  | none =>
      match draft.backendPool.allocate with
      | none => .error "backend IDs exhausted"
      | some (id, pool) =>
          .ok (id, { draft with
            backendPool := pool
            backendIds := draft.backendIds.insert backend id })

def slotNumber (index : Nat) : Except String U16 :=
  if index + 1 < 2 ^ 16 then .ok (BitVec.ofNat 16 (index + 1)) else .error "slot overflow"

def Maps.addBackend (maps : Maps) (service : Service) (serviceId : U16) (id : U32)
    (backend : Address) : Maps :=
  let maps := maps.insertBackend id backend
  if service.affinity.isSome then maps.insertAffinity ⟨id, serviceId⟩ else maps

def addBackend (service : Service) (serviceId : U16) (filling : Filling)
    (indexed : Address × Nat) : Except String Filling := do
  let (id, draft) ← filling.draft.backendId indexed.1
  let input ← service.tableEntry id indexed.1
  let slot ← slotNumber indexed.2
  return {
    draft := { draft with maps := draft.maps.addBackend service serviceId id indexed.1 }
    slots := filling.slots ++ [(slot, { unionRaw := id, revNatIndex := serviceId })]
    tableInput := filling.tableInput ++ input }

def tableLength : Nat := 16381
def seedMurmur : U32 := 0x24b7ef82

def Maps.addTable (maps : Maps) (frontend : Address) (id : U16) (input : List Maglev.Backend) :
    Except String Maps :=
  if input.isEmpty then .ok maps
  else
    match Maglev.table input tableLength seedMurmur with
    | none => .error (frontend.text ++ ": Maglev table without end")
    | some (.error error) => .error (frontend.text ++ ": Maglev table: " ++ error)
    | some (.ok table) => .ok (maps.insertTable frontend id table)

def Maps.addSlots (maps : Maps) (front : Front) (slots : List (U16 × LbService)) : Maps :=
  slots.foldl (fun maps slot => maps.insertService front slot.1 slot.2) maps

def planService (known : BTreeMap Front U16) (draft : Draft) (service : Service) :
    Except String Draft := do
  let front := service.front
  let frontends ← draft.claimFrontend front
  let backends := service.chosen
  let count ← service.countOf backends
  let (id, servicePool) ← draft.serviceId known front
  let master ← service.master count id
  let start : Filling := {
    draft := { draft with servicePool, frontends, ids := draft.ids.insert front id }
    slots := [(0#16, master)] }
  let filling ← backends.toList.zipIdx.foldlM (addBackend service id) start
  let maps ← filling.draft.maps.addTable service.frontend id filling.tableInput
  return { filling.draft with maps := maps.addSlots front filling.slots }

/-- Services by frontend and scope, those of one in the given order. -/
def sortedServices (services : List Service) : List Service :=
  services.insertionSort fun left right => (compare left.front right.front).isLE

def startDraft (current : Maps) : Draft where
  backendIds := recoverBackends current
  backendPool := { used := usedBackends current, max := BitVec.allOnes 32 }
  servicePool := { used := usedServices current, max := 65535 }

/-- The contents for the services, with the IDs that the current maps hold. -/
def desired (current : Maps) (services : List Service) : Except String Desired :=
  match (sortedServices services).foldlM (planService (recoverServices current))
      (startDraft current) with
  | .error error => .error error
  | .ok draft => .ok ⟨draft.maps, draft.ids⟩

/-! ## The plan -/

inductive Op
  | backend4 (id : U32) (value : Lb4Backend)
  | backend6 (id : U32) (value : Lb6Backend)
  | service4 (key : Lb4Key) (value : LbService)
  | service6 (key : Lb6Key) (value : LbService)
  | deleteService4 (key : Lb4Key)
  | deleteService6 (key : Lb6Key)
  | deleteBackend4 (id : U32)
  | deleteBackend6 (id : U32)
  | affinityMatch (key : LbAffinityMatch)
  | deleteAffinityMatch (key : LbAffinityMatch)
  /-- A service's whole table, replaced at once. -/
  | maglev4 (id : U16) (table : List U32)
  | maglev6 (id : U16) (table : List U32)
  | deleteMaglev4 (id : U16)
  | deleteMaglev6 (id : U16)
  deriving DecidableEq

def difference [Ord κ] [Std.TransOrd κ] (left right : BTreeSet κ) : List κ :=
  left.toList.filter fun key => !right.contains key

/-- Whether a service key's entry is of the round for masters or for slots. -/
def isRound (master : Bool) (key : LbKey width) : Bool :=
  decide (key.backendSlot = 0#16) == master

/-- The loops that make the plan, in their order. -/
def phases (current desired : Maps) : List (List Op) :=
  [(changed current.backends4 desired.backends4).map fun pair => .backend4 pair.1 pair.2,
    (changed current.backends6 desired.backends6).map fun pair => .backend6 pair.1 pair.2,
    (difference desired.affinityMatch current.affinityMatch).map .affinityMatch,
    (changed current.maglev4 desired.maglev4).map fun pair => .maglev4 pair.1 pair.2,
    (changed current.maglev6 desired.maglev6).map fun pair => .maglev6 pair.1 pair.2] ++
  ([false, true].flatMap fun master =>
    [((changed current.services4 desired.services4).filter (isRound master ·.1)).map
        fun pair => .service4 pair.1 pair.2,
      ((changed current.services6 desired.services6).filter (isRound master ·.1)).map
        fun pair => .service6 pair.1 pair.2]) ++
  ([true, false].flatMap fun master =>
    [((stale current.services4 desired.services4).filter (isRound master)).map .deleteService4,
      ((stale current.services6 desired.services6).filter (isRound master)).map
        .deleteService6]) ++
  [(stale current.maglev4 desired.maglev4).map .deleteMaglev4,
    (stale current.maglev6 desired.maglev6).map .deleteMaglev6,
    (difference current.affinityMatch desired.affinityMatch).map .deleteAffinityMatch,
    (stale current.backends4 desired.backends4).map .deleteBackend4,
    (stale current.backends6 desired.backends6).map .deleteBackend6]

/-- The writes that turn the current contents into the desired ones. -/
def plan (current desired : Maps) : List Op := (phases current desired).flatten

def Maps.applyOp (maps : Maps) : Op → Maps
  | .backend4 id value => { maps with backends4 := maps.backends4.insert id value }
  | .backend6 id value => { maps with backends6 := maps.backends6.insert id value }
  | .service4 key value => { maps with services4 := maps.services4.insert key value }
  | .service6 key value => { maps with services6 := maps.services6.insert key value }
  | .deleteService4 key => { maps with services4 := maps.services4.erase key }
  | .deleteService6 key => { maps with services6 := maps.services6.erase key }
  | .deleteBackend4 id => { maps with backends4 := maps.backends4.erase id }
  | .deleteBackend6 id => { maps with backends6 := maps.backends6.erase id }
  | .affinityMatch key => { maps with affinityMatch := maps.affinityMatch.insert key }
  | .deleteAffinityMatch key => { maps with affinityMatch := maps.affinityMatch.erase key }
  | .maglev4 id table => { maps with maglev4 := maps.maglev4.insert id table }
  | .maglev6 id table => { maps with maglev6 := maps.maglev6.insert id table }
  | .deleteMaglev4 id => { maps with maglev4 := maps.maglev4.erase id }
  | .deleteMaglev6 id => { maps with maglev6 := maps.maglev6.erase id }

def Maps.apply (maps : Maps) (ops : List Op) : Maps := ops.foldl applyOp maps

namespace Maps

def service (maps : Maps) (front : Front) (slot : U16) : Option LbService :=
  match front.address.ip with
  | .v4 address => maps.services4[key4 address front slot]?
  | .v6 address => maps.services6[key6 address front slot]?

def backend (maps : Maps) (ipv4 : Bool) (id : U32) : Option Address :=
  if ipv4 then maps.backends4[id]?.map backend4 else maps.backends6[id]?.map backend6

def table (maps : Maps) (ipv4 : Bool) (id : U16) : Option (List U32) :=
  if ipv4 then maps.maglev4[id]? else maps.maglev6[id]?

/-- The backends in the slots after `slot`, `remaining` of them. -/
def resolveSlots (maps : Maps) (front : Front) :
    (remaining slot : Nat) → List Address → Except String (List Address)
  | 0, _, out => .ok out
  | remaining + 1, slot, out =>
      match maps.service front (BitVec.ofNat 16 (slot + 1)) with
      | none => .error (front.address.text ++ ": slot " ++ toString (slot + 1) ++ " missing")
      | some entry =>
          match maps.backend front.address.ip.isIpv4 entry.backendId with
          | none =>
              .error (front.address.text ++ ": backend " ++ toString entry.backendId.toNat ++
                " missing")
          | some backend => resolveSlots maps front remaining (slot + 1) (out ++ [backend])

/-- The backends that a lookup of a frontend can reach; none when it is absent. -/
def resolveScope (maps : Maps) (front : Front) : Option (Except String (List Address)) :=
  match maps.service front 0#16 with
  | none => none
  | some master => some (maps.resolveSlots front master.count.toNat 0 [])

end Maps

end FlowSdn.Lb
