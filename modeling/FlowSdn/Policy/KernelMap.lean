import FlowSdn.Identity.Numeric
import FlowSdn.Policy.Oracle
import Mathlib.Data.List.MinMax
import Mathlib.Data.List.Sort

/-! # Canonical kernel entries and their lookup

Policy records as the kernel map takes them, the scan that decides a packet
from a list of them, and the index that probes every port prefix instead.
-/

namespace FlowSdn.Policy.KernelMap

open Abi Identity Words OrderedMap

structure Record where
  key : PolicyKey
  entry : PolicyEntry
  origin : String
  deriving DecidableEq

inductive Outcome
  | miss
  | deny
  | allow (proxyPort : U16) (authentication : U8) (cookie : U32)
  deriving DecidableEq

structure Context where
  encoding : ClusterEncoding
  localCluster : U16
  deriving DecidableEq

def Context.aggregate (context : Context) (identity : U32) : Except String U32 :=
  match NumericIdentity.new identity with
  | .error _ => .error "invalid identity"
  | .ok identity =>
      match context.encoding.aggregateFor identity context.localCluster with
      | .error _ => .error "invalid cluster context"
      | .ok aggregate => .ok aggregate.number

/-- The port prefix that a key's length states. -/
def keyPrefix (key : PolicyKey) : Except String U8 :=
  if key.protocol = anyProtocol then .ok 0#8
  else if key.prefixlen < 48#32 then .error "key prefix"
  else if key.prefixlen - 48#32 > 255#32 then .error "key prefix"
  else .ok ((key.prefixlen - 48#32).setWidth 8)

/-- The key that the ABI would make of a key's own fields. -/
def reconstructed (key : PolicyKey) : Except String PolicyKey :=
  match keyPrefix key with
  | .error error => .error error
  | .ok portPrefix =>
      match PolicyKey.new key.secLabel (key.egress = 1#8) key.protocol key.dport portPrefix with
      | .error _ => .error "key prefix"
      | .ok made => .ok made

def canonical (record : Record) : Except String Unit :=
  let key := record.key
  let value := record.entry
  match NumericIdentity.new key.secLabel with
  | .error _ => .error "invalid key identity"
  | .ok _ =>
      match reconstructed key with
      | .error error => .error error
      | .ok made =>
          if key.egress > 1#8 ∨ made ≠ key ∨
              value.lpmPrefixLength.setWidth 32 ≠ saturatingSub key.prefixlen 40#32 ∨
              value.flags &&& 6#8 ≠ 0#8 then
            .error "noncanonical key/value"
          else if value.precedence &&& 255#32 = 0#32 then
            .error "Pass must be resolved before kernel insertion"
          else if value.denies ∧ (value.auth ≠ 0#8 ∨ value.proxyPort ≠ 0#16 ∨
              value.precedence &&& 255#32 ≠ 255#32) then
            .error "noncanonical deny"
          else if value.denies = false ∧
              ¬(value.precedence &&& 255#32 = 1#32 ↔ value.proxyPort = 0#16) then
            .error "redirect precedence and proxy port disagree"
          else if value.denies = false ∧ value.precedence &&& 255#32 = 255#32 then
            .error "deny precedence on allow"
          else .ok ()

/-! ## Scanning -/

def maskOf (bits : U32) : U16 :=
  leadingMask 16 (16 - (saturatingSub 16#32 bits).toNat)

def Record.matches (record : Record) (packet : Oracle.Packet) (identity : U32) : Bool :=
  let key := record.key
  if key.secLabel ≠ identity ∨ key.egress ≠ bit packet.egress then false
  else if key.protocol = anyProtocol then true
  else if key.protocol ≠ packet.protocol then false
  else packet.port &&& maskOf (saturatingSub key.prefixlen 48#32) = key.dport

/-- The last of the records with the longest key that match. -/
def best (records : List Record) (packet : Oracle.Packet) (identity : U32) : Option Record :=
  (records.filter (·.matches packet identity)).reverse.argmax (·.key.prefixlen.toNat)

/-- Each record is canonical and differs from the ones before it. -/
def checkRecords : List Record → List Record → Except String Unit
  | _, [] => .ok ()
  | earlier, record :: rest =>
      match canonical record with
      | .error error => .error error
      | .ok () =>
          if earlier.any (·.key = record.key) then .error "duplicate policy key"
          else checkRecords (earlier ++ [record]) rest

/-- The datapath's comparison of an identity's record with the other one. -/
def choose (exact other : Option Record) : Option (Record × Option Record) :=
  match exact, other with
  | some specific, some broader =>
      if specific.entry.precedence ≠ BitVec.allOnes 32 ∧
          (broader.entry.precedence > specific.entry.precedence ∨
            (broader.entry.precedence = specific.entry.precedence ∧
              broader.key.prefixlen > specific.key.prefixlen)) then
        some (broader, some specific)
      else
        some (specific,
          if specific.entry.precedence = BitVec.allOnes 32 then none else some broader)
  | some specific, none => some (specific, none)
  | none, some broader => some (broader, none)
  | none, none => none

def stronger (left right : U8) : U8 := if left ≤ right then right else left

def Record.outcome (chosen : Record) (alternate : Option Record) : Outcome :=
  if chosen.entry.denies then .deny
  else
    let authentication :=
      if chosen.entry.hasExplicitAuthType then chosen.entry.authType
      else
        match alternate.filter (·.entry.precedence = chosen.entry.precedence) with
        | none => chosen.entry.authType
        | some other => stronger chosen.entry.authType other.entry.authType
    .allow chosen.entry.proxyPort authentication chosen.entry.cookie

def conclude (exact other : Option Record) : Outcome :=
  match choose exact other with
  | none => .miss
  | some (chosen, alternate) => chosen.outcome alternate

/-- The record to compare an identity's own with: its aggregate's, or the wildcard's
when there is neither. -/
def broader (records : List Record) (packet : Oracle.Packet) (aggregate : U32) :
    Option Record :=
  let other := if aggregate = packet.identity then none else best records packet aggregate
  if (best records packet packet.identity).isNone ∧ other.isNone ∧ aggregate ≠ wildcard then
    best records packet wildcard
  else other

/-- The scan's answer for records that pass the check. -/
def scanAt (records : List Record) (packet : Oracle.Packet) (aggregate : U32) : Outcome :=
  conclude (best records packet packet.identity) (broader records packet aggregate)

def scan (records : List Record) (context : Context) (packet : Oracle.Packet) :
    Except String Outcome :=
  match checkRecords [] records with
  | .error error => .error error
  | .ok () =>
      match context.aggregate packet.identity with
      | .error error => .error error
      | .ok aggregate => .ok (scanAt records packet aggregate)

/-! ## The index -/

structure IndexKey where
  identity : U32
  egress : Bool
  protocol : U8
  portPrefix : U8
  port : U16
  deriving DecidableEq

namespace IndexKey

instance : Ord IndexKey where
  compare := compareLex (compareOn identity) (compareLex (compareOn egress)
    (compareLex (compareOn protocol) (compareLex (compareOn portPrefix) (compareOn port))))

instance : Std.TransOrd IndexKey := inferInstanceAs (Std.TransCmp (compareLex _ _))

instance : Std.LawfulEqOrd IndexKey where
  eq_of_compare {left right} equal := by
    cases left
    cases right
    simp_all [compare]

end IndexKey

structure Index where
  entries : BTreeMap IndexKey PolicyEntry

namespace Index

def add (entries : BTreeMap IndexKey PolicyEntry) (record : Record) :
    Except String (BTreeMap IndexKey PolicyEntry) :=
  match canonical record with
  | .error error => .error error
  | .ok () =>
      let key := record.key
      let portPrefix := saturatingSub key.prefixlen 48#32
      if portPrefix > 255#32 then .error "prefix"
      else
        let slot : IndexKey :=
          ⟨key.secLabel, key.egress = 1#8, key.protocol, portPrefix.setWidth 8, key.dport⟩
        if entries.contains slot then .error "duplicate policy key"
        else .ok (entries.insert slot record.entry)

def new (records : List Record) : Except String Index :=
  match records.foldlM add ∅ with
  | .error error => .error error
  | .ok entries => .ok ⟨entries⟩

/-- The probes for a packet's own protocol with fewer than `count` port bits,
longest first. -/
def probe (index : Index) (identity : U32) (packet : Oracle.Packet) : Nat → Option PolicyEntry
  | 0 => none
  | bits + 1 =>
      match index.entries[(⟨identity, packet.egress, packet.protocol, BitVec.ofNat 8 bits,
          packet.port &&& portMask (BitVec.ofNat 8 bits)⟩ : IndexKey)]? with
      | some entry => some entry
      | none => index.probe identity packet bits

def find (index : Index) (identity : U32) (packet : Oracle.Packet) : Option PolicyEntry :=
  let probed := if packet.protocol ≠ anyProtocol then index.probe identity packet 17 else none
  match probed with
  | some entry => some entry
  | none => index.entries[(⟨identity, packet.egress, anyProtocol, 0#8, 0#16⟩ : IndexKey)]?

/-- Candidates by precedence, then L4 prefix length, an identity's own last. -/
def noLater (left right : PolicyEntry × Bool) : Prop :=
  left.1.precedence < right.1.precedence ∨
    (left.1.precedence = right.1.precedence ∧
      (left.1.lpmPrefixLength < right.1.lpmPrefixLength ∨
        (left.1.lpmPrefixLength = right.1.lpmPrefixLength ∧ (left.2 → right.2))))

instance : DecidableRel noLater := fun left right => by
  unfold noLater
  infer_instance

/-- The greatest authentication type of the candidates, 0 for none. -/
def strongest (candidates : List (PolicyEntry × Bool)) : U8 :=
  (candidates.map (·.1.authType)).foldl stronger 0#8

def settle (candidates : List (PolicyEntry × Bool)) : Outcome :=
  let sorted := candidates.insertionSort noLater
  match sorted.getLast? with
  | none => .miss
  | some (chosen, _) =>
      if chosen.denies then .deny
      else
        let authentication :=
          if chosen.hasExplicitAuthType then chosen.authType
          else strongest (sorted.filter (·.1.precedence = chosen.precedence))
        .allow chosen.proxyPort authentication chosen.cookie

def lookupAt (index : Index) (packet : Oracle.Packet) (aggregate : U32) : Outcome :=
  let specific := index.find packet.identity packet
  let broader := if aggregate ≠ packet.identity then index.find aggregate packet else none
  let candidates :=
    (broader.map (·, false)).toList ++ (specific.map (·, true)).toList
  let candidates :=
    if candidates.isEmpty ∧ aggregate ≠ wildcard then
      ((index.find wildcard packet).map (·, false)).toList
    else candidates
  settle candidates

def lookup (index : Index) (context : Context) (packet : Oracle.Packet) :
    Except String Outcome :=
  match context.aggregate packet.identity with
  | .error error => .error error
  | .ok aggregate => .ok (index.lookupAt packet aggregate)

end Index

end FlowSdn.Policy.KernelMap
