import FlowSdn.Foundation.Bitmap
import FlowSdn.Net.Address
import Mathlib.Data.Finset.Card
import Mathlib.Data.List.Nodup

/-! # Host-scope address allocation

One prefix of addresses, handed out from a bitmap of sparse words with the owner of
each, and the two families side by side. Numbers of addresses are natural: nothing
here leaves 128 bits but the capacity of the whole IPv6 space.
-/

namespace FlowSdn.HostIpam

open Net OrderedMap

inductive Error
  | invalidPrefix
  | capacityOverflow
  | notInRange
  | allocated
  | excluded (owner : String)
  | full
  | familyMismatch
  | familyDisabled
  deriving DecidableEq

def Error.text : Error → String
  | .invalidPrefix => "invalid IP prefix"
  | .capacityOverflow => "address capacity exceeds u128"
  | .notInRange => "IP is not in the allocatable range"
  | .allocated => "IP is already allocated"
  | .excluded owner => "IP is excluded, owned by " ++ owner
  | .full => "IP range is full"
  | .familyMismatch => "IP address family does not match"
  | .familyDisabled => "IP address family is disabled"

/-- Whether a prefix gives out its first and its last address too. -/
structure RangeOptions where
  allowFirstIp : Bool := false
  allowLastIp : Bool := false
  deriving DecidableEq

def number (address : IpAddr) : Nat := address.toNat

def fromNumber (value : Nat) (ipv4 : Bool) : IpAddr :=
  if ipv4 then .v4 (.ofNat 32 value) else .v6 (.ofNat 128 value)

structure HostScope where
  network : IpAddr
  prefixLen : Nat
  first : Nat
  last : Nat
  capacity : Nat
  words : Bitmap := ∅
  owners : BTreeMap IpAddr String := ∅
  excluded : BTreeMap IpAddr String := ∅
  materializedExclusions : BTreeSet IpAddr := ∅
  /-- The process's keyed hash of a sequence number and a half. -/
  random : Nat → Nat → Nat
  sequence : Nat := 0

structure PoolSummary where
  capacity : Nat
  allocated : Nat
  excluded : Nat
  allocatedExcluded : Nat
  available : Nat
  deriving DecidableEq

namespace HostScope

def new (address : IpAddr) (prefixLen : Nat) (options : RangeOptions)
    (random : Nat → Nat → Nat) : Except Error HostScope :=
  if address.hostBits < prefixLen then .error .invalidPrefix
  else
    let hostBits := address.hostBits - prefixLen
    let hostMask := 2 ^ hostBits - 1
    let networkNumber := number address / 2 ^ hostBits * 2 ^ hostBits
    let reserveFirst := 1 < hostBits && !options.allowFirstIp
    let reserveLast := 1 < hostBits && !options.allowLastIp
    let first := networkNumber + reserveFirst.toNat
    let last := networkNumber + hostMask - reserveLast.toNat
    let capacity := last - first + 1
    if 2 ^ 128 ≤ capacity then .error .capacityOverflow
    else
      .ok { network := fromNumber networkNumber address.isIpv4, prefixLen, first, last, capacity,
            random }

def offset (scope : HostScope) (address : IpAddr) : Option Nat :=
  if address.isIpv4 ≠ scope.network.isIpv4 then none
  else if number address < scope.first ∨ scope.last < number address then none
  else some (number address - scope.first)

def addressAt (scope : HostScope) (offset : Nat) : IpAddr :=
  fromNumber (scope.first + offset) scope.network.isIpv4

def isSet (scope : HostScope) (offset : Nat) : Bool := scope.words.isSet offset

def reserve (scope : HostScope) (offset : Nat) (address : IpAddr) (owner : String) : HostScope :=
  { scope with
    words := scope.words.set offset
    owners := scope.owners.insert address owner }

def summary (scope : HostScope) : PoolSummary :=
  let allocated := scope.owners.size - scope.materializedExclusions.size
  let excluded := scope.excluded.keys.countP fun address => (scope.offset address).isSome
  let allocatedExcluded := scope.owners.keys.countP fun address =>
    scope.excluded.contains address && !scope.materializedExclusions.contains address
  { capacity := scope.capacity
    allocated
    excluded
    allocatedExcluded
    available := scope.capacity - (allocated + excluded - allocatedExcluded) }

def dump (scope : HostScope) : BTreeMap IpAddr String := scope.owners

def allocate (scope : HostScope) (address : IpAddr) (owner : String) :
    Except Error Unit × HostScope :=
  match scope.offset address with
  | none => (.error .notInRange, scope)
  | some offset =>
      match scope.excluded[address]? with
      | some owner => (.error (.excluded owner), scope)
      | none =>
          if scope.isSet offset then (.error .allocated, scope)
          else (.ok (), scope.reserve offset address owner)

/-- One offset of the scan: an exclusion met there is marked as taken, a free address
is handed out. -/
def visit (scope : HostScope) (owner : String) (offset : Nat) : Option IpAddr × HostScope :=
  if scope.isSet offset then (none, scope)
  else
    let address := scope.addressAt offset
    match scope.excluded[address]? with
    | some excludedOwner =>
        (none, { scope.reserve offset address (excludedOwner ++ " (excluded)") with
          materializedExclusions := scope.materializedExclusions.insert address })
    | none => (some address, scope.reserve offset address owner)

def following (scope : HostScope) (offset : Nat) : Nat :=
  if offset = scope.capacity - 1 then 0 else offset + 1

/-- The scan from an offset on, back to where it started; none when the fuel is out. -/
def scan (owner : String) (start : Nat) :
    (fuel offset : Nat) → HostScope → Option (Except Error IpAddr × HostScope)
  | 0, _, _ => none
  | fuel + 1, offset, scope =>
      match scope.visit owner offset with
      | (some address, visited) => some (.ok address, visited)
      | (none, visited) =>
          let next := visited.following offset
          if next = start ∨ visited.owners.size = visited.capacity then some (.error .full, visited)
          else scan owner start fuel next visited

/-- Where a scan starts, from two halves of a keyed hash. -/
def startOffset (scope : HostScope) : Nat :=
  (scope.random scope.sequence 0 % 2 ^ 64 * 2 ^ 64 + scope.random scope.sequence 1 % 2 ^ 64) %
    scope.capacity

def counted (scope : HostScope) : HostScope :=
  { scope with sequence := (scope.sequence + 1) % 2 ^ 128 }

def allocateNext (scope : HostScope) (owner : String) :
    Option (Except Error IpAddr × HostScope) :=
  if scope.owners.size = scope.capacity then some (.error .full, scope)
  else if scope.capacity = 0 then some (.error .full, scope.counted)
  else scan owner scope.counted.startOffset scope.capacity scope.counted.startOffset scope.counted

def excludeIp (scope : HostScope) (address : IpAddr) (owner : String) : HostScope :=
  { scope with excluded := scope.excluded.insert address owner }

def release (scope : HostScope) (address : IpAddr) : HostScope :=
  match scope.offset address with
  | none => scope
  | some offset =>
      { scope with
        words := scope.words.clear offset
        owners := scope.owners.erase address
        materializedExclusions := scope.materializedExclusions.erase address }

def isAllocated (scope : HostScope) (address : IpAddr) : Bool :=
  (scope.offset address).any scope.isSet

end HostScope

inductive Request
  | allocate (address : IpAddr) (owner : String)
  | allocateNext (owner : String)
  | exclude (address : IpAddr) (owner : String)
  | release (address : IpAddr)
  deriving DecidableEq

/-- The scope after a request; none when it does not come to an end. -/
def HostScope.perform (scope : HostScope) : Request → Option HostScope
  | .allocate address owner => some (scope.allocate address owner).2
  | .allocateNext owner => (scope.allocateNext owner).map (·.2)
  | .exclude address owner => some (scope.excludeIp address owner)
  | .release address => some (scope.release address)

def HostScope.performAll (scope : HostScope) (requests : List Request) : Option HostScope :=
  requests.foldlM perform scope

/-! ## Both families -/

structure AddressPair where
  ipv4 : Option U32
  ipv6 : Option U128
  deriving DecidableEq

structure Ipam where
  ipv4 : Option HostScope
  ipv6 : Option HostScope

namespace Ipam

def new (ipv4 ipv6 : Option HostScope) : Except Error Ipam :=
  if ipv4.any (fun pool => !pool.network.isIpv4) || ipv6.any (fun pool => pool.network.isIpv4) then
    .error .familyMismatch
  else .ok { ipv4, ipv6 }

def family (ipam : Ipam) (address : IpAddr) : Option HostScope :=
  if address.isIpv4 then ipam.ipv4 else ipam.ipv6

def setFamily (ipam : Ipam) (ipv4 : Bool) (pool : HostScope) : Ipam :=
  if ipv4 then { ipam with ipv4 := some pool } else { ipam with ipv6 := some pool }

def allocate (ipam : Ipam) (address : IpAddr) (owner : String) : Except Error Unit × Ipam :=
  match ipam.family address with
  | none => (.error .familyDisabled, ipam)
  | some pool =>
      ((pool.allocate address owner).1,
        ipam.setFamily address.isIpv4 (pool.allocate address owner).2)

def allocateNextFamily (ipam : Ipam) (ipv6 : Bool) (owner : String) :
    Option (Except Error IpAddr × Ipam) :=
  match if ipv6 then ipam.ipv6 else ipam.ipv4 with
  | none => some (.error .familyDisabled, ipam)
  | some pool =>
      (pool.allocateNext owner).map fun (result, after) => (result, ipam.setFamily (!ipv6) after)

def excludeIp (ipam : Ipam) (address : IpAddr) (owner : String) : Except Error Unit × Ipam :=
  match ipam.family address with
  | none => (.error .familyDisabled, ipam)
  | some pool => (.ok (), ipam.setFamily address.isIpv4 (pool.excludeIp address owner))

def release (ipam : Ipam) (address : IpAddr) : Except Error Unit × Ipam :=
  match ipam.family address with
  | none => (.error .familyDisabled, ipam)
  | some pool => (.ok (), ipam.setFamily address.isIpv4 (pool.release address))

/-- The IPv4 half of a pair, once IPv6 has given its own. A failure here gives it back. -/
def allocateIpv4 (ipam : Ipam) (owner : String) (ipv6 : Option U128) :
    Option (Except Error AddressPair × Ipam) :=
  match ipam.ipv4 with
  | none => some (.ok ⟨none, ipv6⟩, ipam)
  | some pool => do
      let (result, after) ← pool.allocateNext owner
      let ipam := ipam.setFamily true after
      match result with
      | .ok (.v4 address) => some (.ok ⟨some address, ipv6⟩, ipam)
      | result =>
          let released := match ipv6, ipam.ipv6 with
            | some address, some pool => ipam.setFamily false (pool.release (.v6 address))
            | _, _ => ipam
          match result with
          | .error error => some (.error error, released)
          | .ok _ => some (.error .familyMismatch, released)

def allocateNext (ipam : Ipam) (owner : String) : Option (Except Error AddressPair × Ipam) :=
  if ipam.ipv4.isNone && ipam.ipv6.isNone then some (.error .familyDisabled, ipam)
  else
    match ipam.ipv6 with
    | none => ipam.allocateIpv4 owner none
    | some pool => do
        let (result, after) ← pool.allocateNext owner
        let ipam := ipam.setFamily false after
        match result with
        | .ok (.v6 address) => ipam.allocateIpv4 owner (some address)
        | .ok (.v4 _) => some (.error .familyMismatch, ipam)
        | .error error => some (.error error, ipam)

end Ipam

end FlowSdn.HostIpam
