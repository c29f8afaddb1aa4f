import FlowSdn.Foundation.Checked
import FlowSdn.Foundation.FiniteMap
import FlowSdn.Foundation.Json
import FlowSdn.Net.Address

/-! # Endpoint records

What the agent keeps of an endpoint: its number, the attachment it belongs to and a
JSON document from which interfaces, addresses and map values are read.
-/

namespace FlowSdn.Endpoint

open Net OrderedMap

def text (document : Json) (key : String) : String := document.textAt [key]

structure Record where
  id : Nat
  attachment : String
  document : Json

def attachmentOf (container interface : String) : String :=
  "cni-attachment-id:" ++ container ++ ":" ++ interface

def parseId (document : Json) : Option Nat :=
  ((document.get "ID").bind Json.asU64).filter fun id => id < 2 ^ 16 ∧ id ≠ 0

def Record.parse (document : Json) : Except String Record :=
  if (document.get "DatapathMode").any fun mode => mode.asStr ≠ some "veth" then
    .error "unsupported persisted endpoint datapath mode"
  else
    match parseId document with
    | none => .error "invalid endpoint ID"
    | some id =>
        let container := text document "dockerID"
        let interface := text document "ContainerIfName"
        if container.isEmpty || interface.isEmpty then
          .error "primary endpoint attachment is required"
        else .ok { id, attachment := attachmentOf container interface, document }

/-! ## What a document says -/

def addressOf (document : Json) (ipv4 : Bool) : Except String (List IpAddr) :=
  let raw := text document (if ipv4 then "IPv4" else "IPv6")
  if raw.isEmpty then .ok []
  else
    match IpAddr.parse raw with
    | none => .error "invalid IP address syntax"
    | some address =>
        if address.isIpv4 ≠ ipv4 then .error "endpoint address family mismatch" else .ok [address]

def addresses (document : Json) : Except String (List IpAddr) := do
  let ipv6 ← addressOf document false
  let ipv4 ← addressOf document true
  if (ipv6 ++ ipv4).isEmpty then .error "endpoint has no address" else .ok (ipv6 ++ ipv4)

def splitAll (separator : Char) : List Char → List (List Char)
  | [] => [[]]
  | char :: rest =>
      if char = separator then [] :: splitAll separator rest
      else
        match splitAll separator rest with
        | [] => [[char]]
        | part :: parts => (char :: part) :: parts

/-- A byte in hexadecimal digits after an optional plus sign. -/
def hexByte (digits : List Char) : Option Nat :=
  let digits := match digits with
    | '+' :: rest => rest
    | digits => digits
  if digits.isEmpty then none
  else
    (digits.foldlM (fun value char => (Text.digitValue 16 char).map (16 * value + ·)) 0).filter
      (· < 256)

/-- Six bytes as the number the endpoint map holds, the first one lowest. -/
def macValue (bytes : List Nat) : Option Nat :=
  if bytes.length = 6 then some (bytes.foldr (fun byte value => byte + 256 * value) 0) else none

def mac (value : String) : Except String Nat :=
  match (splitAll ':' value.toList).mapM hexByte with
  | none => .error "invalid digit found in string"
  | some bytes =>
      match macValue bytes with
      | none => .error "invalid endpoint MAC"
      | some number => .ok number

/-- A local endpoint as its map holds it; the other fields are zero. -/
structure EndpointInfo where
  ifindex : Nat
  lxcId : Nat
  mac : Nat
  nodeMac : Nat
  deriving DecidableEq

def ifindex (document : Json) : Option Nat :=
  ((document.get "IfIndex").bind Json.asU64).filter (· < 2 ^ 32)

def info (record : Record) : Except String EndpointInfo := do
  let index ← match ifindex record.document with
    | some index => .ok index
    | none => .error "invalid host ifindex"
  let own ← mac (text record.document "LXCMAC")
  let node ← mac (text record.document "NodeMAC")
  pure { ifindex := index, lxcId := record.id, mac := own, nodeMac := node }

/-- The Pod an endpoint belongs to, as its addresses are owned. -/
def owner (document : Json) : String :=
  text document "K8sNamespace" ++ "/" ++ text document "K8sPodName"

/-- The index that the owner of a host interface must have. -/
def ownedIndex (document : Json) : Option Nat := (ifindex document).filter (· ≠ 0)

def ifName (document : Json) : String := text document "IfName"

/-- One more record among the names and indices taken so far. -/
def claimInterface (taken : BTreeSet String × BTreeSet Nat) (record : Record) :
    Except String (BTreeSet String × BTreeSet Nat) :=
  match ownedIndex record.document with
  | none => .error "invalid host ifindex"
  | some index =>
      let name := ifName record.document
      if name.isEmpty || taken.1.contains name || taken.2.contains index then
        .error "endpoint host interface already owned or invalid"
      else .ok (taken.1.insert name, taken.2.insert index)

def validateInterfaceOwners (records : List Record) : Except String Unit := do
  let _ ← records.foldlM claimInterface (∅, ∅)
  pure ()

structure IdPool where
  used : BTreeSet Nat := ∅
  max : Nat

namespace IdPool

def new (max : Nat) : Except String IdPool :=
  if max = 0 ∨ 2 ^ 16 ≤ max then .error "endpoint-id-max must be in 1..=65535" else .ok { max }

def lowest (pool : IdPool) : Option Nat :=
  (List.range' 1 pool.max).find? fun id => !pool.used.contains id

def allocate (pool : IdPool) : Except String (Nat × IdPool) :=
  match pool.lowest with
  | none => .error "endpoint ID pool exhausted"
  | some id => .ok (id, { pool with used := pool.used.insert id })

def reserve (pool : IdPool) (id : Nat) : Except String IdPool :=
  if id = 0 ∨ pool.used.contains id then .error "invalid or duplicate endpoint ID"
  else .ok { pool with used := pool.used.insert id }

def release (pool : IdPool) (id : Nat) : IdPool :=
  { pool with used := pool.used.erase id }

end IdPool

end FlowSdn.Endpoint
