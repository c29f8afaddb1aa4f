import FlowSdn.Bgp.Wire

/-! # OPEN messages and what two of them agree on

The OPEN body with its capabilities, the checks of a peer's OPEN against the
local one, and the parameters of the session that both admit.
-/

namespace FlowSdn.Bgp

open Buffer Words OrderedMap Checked

structure Capability where
  code : U8
  value : Bytes
  deriving DecidableEq

structure Open where
  asn : U16
  holdTime : U16
  routerId : U32
  capabilities : List Capability
  deriving DecidableEq

def openError (subcode : U8) : ProtocolError := ⟨2, subcode, .openMessage⟩

namespace Capability

def valid (capability : Capability) : Bool :=
  match capability.code.toNat with
  | 1 => capability.value.length = 4
  | 2 => capability.value = []
  | 5 => capability.value ≠ [] ∧ capability.value.length % 6 = 0
  | 64 => 2 ≤ capability.value.length ∧ (capability.value.length - 2) % 4 = 0
  | 65 => capability.value.length = 4
  | _ => true

def validate (capability : Capability) : Except ProtocolError Unit :=
  if capability.valid then .ok () else .error (openError 4)

end Capability

namespace Open

/-! ## The body -/

def word (width : Nat) : Reader U8 ProtocolError (BitVec width) := do
  let bytes ← Reader.take (openError 4) (width / 8)
  return BitVec.ofNat width (beValue bytes)

def byte : Reader U8 ProtocolError U8 := Reader.one (openError 4)

def capability : Reader U8 ProtocolError Capability := do
  let code ← byte
  let length ← byte
  let value ← Reader.take (openError 4) length.toNat
  (⟨code, value⟩ : Capability).validate
  return ⟨code, value⟩

def parameter : Reader U8 ProtocolError (List Capability) := do
  let kind ← byte
  let length ← byte
  let bytes ← Reader.take (openError 4) length.toNat
  refuse (kind ≠ 2) (openError 4)
  Reader.untilEmpty capability bytes

/-- The four-octet number of one more capability, which may not contradict an earlier one. -/
def agreedAsn (four : Option U32) (capability : Capability) :
    Except ProtocolError (Option U32) :=
  if capability.value.length ≠ 4 then .error (openError 4)
  else
    let value := BitVec.ofNat 32 (beValue capability.value)
    if four.any (· ≠ value) then .error (openError 4) else .ok (some value)

def effectiveAsn (message : Open) : Except ProtocolError U32 := do
  let four ← (message.capabilities.filter (·.code = 65)).foldlM agreedAsn none
  return four.getD (message.asn.setWidth 32)

def decode (body : Bytes) : Except ProtocolError Open := do
  refuse (body.length < 10) (openError 4)
  refuse (body.head? ≠ some 4) (openError 1)
  let (asn, bytes) ← (word 16).run (body.drop 1)
  let (holdTime, bytes) ← (word 16).run bytes
  refuse (holdTime = 1 ∨ holdTime = 2) (openError 6)
  let (routerId, bytes) ← (word 32).run bytes
  let (length, bytes) ← byte.run bytes
  refuse (bytes.length ≠ length.toNat) (openError 4)
  let capabilities ← Reader.untilEmpty parameter bytes
  let result : Open := ⟨asn, holdTime, routerId, capabilities.flatten⟩
  let _ ← result.effectiveAsn
  return result

def validatePeer (peer : Open) (expectedAsn localRouterId : U32) (localHold : U16) :
    Except ProtocolError U16 := do
  if expectedAsn ≠ 0 then
    let asn ← peer.effectiveAsn
    refuse (asn ≠ expectedAsn) (openError 2)
  refuse (peer.routerId = 0 ∨ peer.routerId = localRouterId) (openError 3)
  refuse (peer.holdTime = 1 ∨ peer.holdTime = 2 ∨ localHold = 1 ∨ localHold = 2) (openError 6)
  return if peer.holdTime ≤ localHold then peer.holdTime else localHold

def encodeCapability (capability : Capability) : Except ProtocolError Bytes := do
  capability.validate
  refuse (255 < capability.value.length + 2) (openError 4)
  return [2, BitVec.ofNat 8 (capability.value.length + 2), capability.code,
    BitVec.ofNat 8 capability.value.length] ++ capability.value

def encode (message : Open) : Except ProtocolError Bytes := do
  let _ ← message.effectiveAsn
  refuse (message.holdTime = 1 ∨ message.holdTime = 2) (openError 6)
  let parameters ← message.capabilities.mapM encodeCapability
  refuse (255 < parameters.flatten.length) (openError 4)
  return [4] ++ wordBytes message.asn ++ wordBytes message.holdTime ++
    wordBytes message.routerId ++ [BitVec.ofNat 8 parameters.flatten.length] ++
    parameters.flatten

theorem length_encodeCapability {capability : Capability} {bytes : Bytes}
    (encoded : encodeCapability capability = .ok bytes) :
    bytes.length = capability.value.length + 4 := by
  rw [encodeCapability, check_eq_ok, check_eq_ok] at encoded
  rcases encoded with ⟨-, -, encoded⟩
  cases encoded
  simp

theorem length_flatten_capabilities {capabilities : List Capability} {parameters : List Bytes}
    (encoded : capabilities.mapM encodeCapability = .ok parameters) :
    parameters.flatten.length = (capabilities.map (·.value.length + 4)).sum := by
  rw [mapM_eq_ok] at encoded
  induction encoded with
  | nil => rfl
  | cons first _ induction =>
      rw [List.flatten_cons, List.length_append, induction, length_encodeCapability first,
        List.map_cons, List.sum_cons]

theorem capabilities_bounded {message : Open} {bytes : Bytes}
    (encoded : message.encode = .ok bytes) :
    (message.capabilities.map (·.value.length + 4)).sum ≤ 255 := by
  simp only [encode, bind_eq_ok, refuse_eq_ok] at encoded
  rcases encoded with ⟨-, -, -, -, parameters, listed, -, short, -⟩
  rw [← length_flatten_capabilities listed]
  exact Nat.not_lt.mp short

end Open

/-! ## Negotiation -/

structure Restart where
  seconds : U16
  restarting : Bool
  notifications : Bool
  forwarding : BTreeSet Family

structure Graceful where
  notifications : Bool
  localRestartSeconds : U16
  peer : Restart

structure Negotiated where
  graceful : Option Graceful
  holdTime : U16
  fourOctetAsn : Bool
  routeRefresh : Bool
  families : BTreeSet Family

namespace Open

def supportedFamily (capability : Capability) : Option Family :=
  match capability.value with
  | [first, second, _, safi] =>
      let family : Family := ⟨BitVec.ofNat 16 (beValue [first, second]), safi⟩
      if family.Valid then some family else none
  | _ => none

def families (message : Open) : BTreeSet Family :=
  collect ((message.capabilities.filter (·.code = 1)).filterMap supportedFamily)

def offers (message : Open) (code : U8) : Bool := message.capabilities.any (·.code = code)

/-- A tuple of the graceful-restart capability whose forwarding state was kept. -/
def forwardingFamily : Bytes → Option Family
  | [first, second, safi, flags] =>
      let family : Family := ⟨BitVec.ofNat 16 (beValue [first, second]), safi⟩
      if flags &&& 0x80 ≠ 0 ∧ family.Valid then some family else none
  | _ => none

/-- When the capability is repeated, only the last one is used. -/
def restart (message : Open) : Option Restart := do
  let capability ← message.capabilities.reverse.find? (·.code = 64)
  let tuples := capability.value.drop 2
  if capability.value.length < 2 ∨ tuples.length % 4 ≠ 0 then none
  else
    let field := BitVec.ofNat 16 (beValue (capability.value.take 2))
    return {
      seconds := field &&& 0x0fff
      restarting := field &&& 0x8000 ≠ 0
      notifications := field &&& 0x4000 ≠ 0
      forwarding := collect ((tuples.toChunks 4).filterMap forwardingFamily) }

end Open

def graceful (ours peer : Open) : Option Graceful := do
  let ours ← ours.restart
  let peer ← peer.restart
  return ⟨ours.notifications && peer.notifications, ours.seconds, peer⟩

def negotiate (ours peer : Open) (expectedAsn : U32) : Except ProtocolError Negotiated := do
  let _ ← ours.encode
  let _ ← peer.encode
  let holdTime ← peer.validatePeer expectedAsn ours.routerId ours.holdTime
  let common := ours.families.filter (· ∈ peer.families)
  refuse common.isEmpty (openError 7)
  return {
    graceful := graceful ours peer
    holdTime
    fourOctetAsn := ours.offers 65 && peer.offers 65
    routeRefresh := ours.offers 2 && peer.offers 2
    families := common }

end FlowSdn.Bgp
