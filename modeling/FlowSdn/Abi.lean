import FlowSdn.Foundation.LongestPrefix

/-! # Map ABI

Keys and values of the policy maps, with their bytes. Ports are words whose
bytes are in network order; a 16-byte address is a word whose first byte is
the most significant one.
-/

namespace FlowSdn.Abi

open Words LongestPrefix

def familyV4 : U8 := 1
def familyV6 : U8 := 2

/-- The identity that stands for every identity. -/
def wildcard : U32 := 0

/-- The protocol that stands for every L4. -/
def anyProtocol : U8 := 0

def bit (flag : Bool) : U8 := if flag then 1#8 else 0#8

theorem bit_injective {left right : Bool} (equal : bit left = bit right) : left = right := by
  cases left <;> cases right <;> first | rfl | exact absurd equal (by decide)

inductive InvalidPrefix
  | invalidPrefix
  deriving DecidableEq

inductive InvalidPolicyFields
  | invalidPolicyFields
  deriving DecidableEq

structure PolicyKey where
  prefixlen : U32
  secLabel : U32
  egress : U8
  protocol : U8
  dport : U16
  deriving DecidableEq

def portMask (portPrefix : U8) : U16 :=
  leadingMask 16 (16 - (saturatingSub 16#8 portPrefix).toNat)

def PolicyKey.new (identity : U32) (egress : Bool) (protocol : U8) (port : U16)
    (portPrefix : U8) : Except InvalidPrefix PolicyKey :=
  if portPrefix > 16#8 ∨ (protocol = anyProtocol ∧ (portPrefix ≠ 0#8 ∨ port ≠ 0#16)) then
    .error .invalidPrefix
  else
    .ok {
      prefixlen :=
        if protocol = anyProtocol then 40#32
        else saturatingAdd 48#32 (portPrefix.setWidth 32)
      secLabel := identity
      egress := bit egress
      protocol
      dport := port &&& portMask portPrefix }

/-- One trie holds every endpoint's policy, so the key leads with the endpoint. -/
structure EndpointPolicyKey where
  prefixlen : U32
  endpoint : U32
  secLabel : U32
  egress : U8
  protocol : U8
  dport : U16
  deriving DecidableEq

/-- The prefix of a datapath lookup: endpoint, identity, direction, protocol, port. -/
def endpointPolicyFullPrefix : Nat := 96

def EndpointPolicyKey.forEndpoint (endpoint : U32) (key : PolicyKey) : EndpointPolicyKey where
  prefixlen := saturatingAdd key.prefixlen 32#32
  endpoint
  secLabel := key.secLabel
  egress := key.egress
  protocol := key.protocol
  dport := key.dport

def policyData (endpoint secLabel : U32) (egress protocol : U8) (dport : U16) : List U8 :=
  leBytes 4 endpoint.toNat ++ leBytes 4 secLabel.toNat ++ [egress, protocol] ++
    beBytes 2 dport.toNat

def EndpointPolicyKey.toBytes (key : EndpointPolicyKey) : TrieKey :=
  Trie.encode key.prefixlen (policyData key.endpoint key.secLabel key.egress key.protocol key.dport)

structure PolicyEntry where
  proxyPort : U16
  /-- Bit 0 deny; bits 3–7 protocol/port prefix length. -/
  flags : U8
  /-- Low seven bits auth type; high bit explicit auth type. -/
  auth : U8
  precedence : U32
  cookie : U32
  deriving DecidableEq

namespace PolicyEntry

def default : PolicyEntry where
  proxyPort := 0
  flags := 0
  auth := 0
  precedence := 0
  cookie := 0

def new (proxyPort : U16) (deny : Bool) (lpmPrefixLength authType : U8) (explicitAuth : Bool)
    (precedence cookie : U32) : Except InvalidPolicyFields PolicyEntry :=
  if ¬(lpmPrefixLength = 0#8 ∨ (8#8 ≤ lpmPrefixLength ∧ lpmPrefixLength ≤ 24#8)) ∨
      authType > 127#8 then
    .error .invalidPolicyFields
  else
    .ok {
      proxyPort
      flags := bit deny ||| (lpmPrefixLength <<< 3)
      auth := authType ||| (bit explicitAuth <<< 7)
      precedence
      cookie }

def denies (entry : PolicyEntry) : Bool := entry.flags &&& 1#8 ≠ 0#8
def lpmPrefixLength (entry : PolicyEntry) : U8 := entry.flags >>> 3
def authType (entry : PolicyEntry) : U8 := entry.auth &&& 0x7f#8
def hasExplicitAuthType (entry : PolicyEntry) : Bool := entry.auth &&& 0x80#8 ≠ 0#8

theorem denies_flags (deny : Bool) (lpmPrefixLength : U8) :
    decide ((bit deny ||| (lpmPrefixLength <<< 3)) &&& 1#8 ≠ 0#8) = deny := by
  rw [BitVec.and_one_eq_setWidth_ofBool_getLsbD]
  cases deny <;> simp [bit]

theorem new_eq_ok {lpmPrefixLength : U8}
    (valid : lpmPrefixLength = 0#8 ∨ (8#8 ≤ lpmPrefixLength ∧ lpmPrefixLength ≤ 24#8))
    (deny : Bool) (precedence : U32) :
    ∃ value, PolicyEntry.new 0 deny lpmPrefixLength 0 false precedence 0 = .ok value ∧
      value.auth = 0 ∧ value.denies = deny ∧ value.precedence = precedence := by
  refine ⟨_, if_neg ?_, rfl, denies_flags deny lpmPrefixLength, rfl⟩
  intro refused
  rcases refused with invalid | large
  · exact invalid valid
  · exact absurd large (by decide)

end PolicyEntry

def enforceIngress : U32 := 1
def enforceEgress : U32 := 2
/-- Audit: a packet the policy would drop is counted and passed. -/
def enforceAudit : U32 := 4

/-- The host's endpoint ID, above every Pod endpoint ID (16 bits). -/
def hostEndpoint : U32 := 0x10000

structure PolicyEndpoint where
  endpoint : U32
  flags : U32
  deriving DecidableEq

/-- A flow as the enforcing program first saw it, with the direction it was
allowed in. An IPv4 address fills the first four bytes. -/
structure PolicyCtKey where
  saddr : U128 := 0
  daddr : U128 := 0
  sport : U16 := 0
  dport : U16 := 0
  protocol : U8 := 0
  family : U8 := 0
  egress : U8 := 0
  pad : U8 := 0
  deriving DecidableEq

structure IpCacheKey where
  prefixlen : U32
  clusterId : U16
  pad : U8
  family : U8
  address : U128
  deriving DecidableEq

namespace IpCacheKey

def make (address : U128) (bits : U32) (clusterId : U16) (family : U8) :
    Except InvalidPrefix IpCacheKey :=
  if 32 + bits.toNat < 2 ^ 32 then
    .ok { prefixlen := 32#32 + bits, clusterId, pad := 0, family, address }
  else
    .error .invalidPrefix

/-- The four octets of an IPv4 address at the front of the 16-byte field. -/
def widen (address : U32) : U128 := address.setWidth 128 <<< 96

def v4 (address : U32) (bits : U32) (clusterId : U16) : Except InvalidPrefix IpCacheKey :=
  if bits > 32#32 then .error .invalidPrefix else make (widen address) bits clusterId familyV4

def v6 (address : U128) (bits : U32) (clusterId : U16) : Except InvalidPrefix IpCacheKey :=
  if bits > 128#32 then .error .invalidPrefix else make address bits clusterId familyV6

end IpCacheKey

def ipcacheData (clusterId : U16) (pad family : U8) (address : U128) : List U8 :=
  leBytes 2 clusterId.toNat ++ [pad, family] ++ beBytes 16 address.toNat

def IpCacheKey.toBytes (key : IpCacheKey) : TrieKey :=
  Trie.encode key.prefixlen (ipcacheData key.clusterId key.pad key.family key.address)

structure RemoteEndpointInfo where
  secIdentity : U32 := 0
  tunnelEndpoint : U128 := 0
  pad : U16 := 0
  key : U8 := 0
  flags : U8 := 0
  deriving DecidableEq

section PolicyData

variable {endpoint endpoint' secLabel secLabel' : U32} {egress egress' protocol protocol' : U8}
  {dport dport' : U16}

private theorem labels_eq_iff :
    leBytes 4 endpoint.toNat ++ leBytes 4 secLabel.toNat =
        leBytes 4 endpoint'.toNat ++ leBytes 4 secLabel'.toNat ↔
      endpoint = endpoint' ∧ secLabel = secLabel' := by
  rw [List.append_eq_append_iff_of_size_eq_left (by simp), leBytes_word_inj 4, leBytes_word_inj 4]

/-- Nine bytes decide the endpoint, the identity and the direction. -/
theorem policyData_agree_direction :
    bitsAgree 72 (policyData endpoint secLabel egress protocol dport)
        (policyData endpoint' secLabel' egress' protocol' dport') ↔
      endpoint = endpoint' ∧ secLabel = secLabel' ∧ egress = egress' := by
  have split : ∀ endpoint secLabel egress protocol dport,
      policyData endpoint secLabel egress protocol dport =
        (leBytes 4 endpoint.toNat ++ leBytes 4 secLabel.toNat ++ [egress]) ++
          (protocol :: beBytes 2 dport.toNat) := by
    intros
    simp [policyData]
  have agree := bitsAgree_append (leBytes 4 endpoint.toNat ++ leBytes 4 secLabel.toNat ++ [egress])
    (leBytes 4 endpoint'.toNat ++ leBytes 4 secLabel'.toNat ++ [egress'])
    (protocol :: beBytes 2 dport.toNat) (protocol' :: beBytes 2 dport'.toNat) 0 (by simp)
  rw [← split, ← split] at agree
  simp only [List.length_append, leBytes_length, List.length_singleton] at agree
  rw [agree, List.append_eq_append_iff_of_size_eq_left (by simp), labels_eq_iff]
  simp [bitsAgree_zero, and_assoc]

/-- Ten bytes decide the protocol too, and the rest is bits of the port. -/
theorem policyData_agree_port {length : Nat} (within : length ≤ 16) :
    bitsAgree (80 + length) (policyData endpoint secLabel egress protocol dport)
        (policyData endpoint' secLabel' egress' protocol' dport') ↔
      endpoint = endpoint' ∧ secLabel = secLabel' ∧ egress = egress' ∧ protocol = protocol' ∧
        leadingBits length dport = leadingBits length dport' := by
  have agree := bitsAgree_append
    (leBytes 4 endpoint.toNat ++ leBytes 4 secLabel.toNat ++ [egress, protocol])
    (leBytes 4 endpoint'.toNat ++ leBytes 4 secLabel'.toNat ++ [egress', protocol'])
    (beBytes 2 dport.toNat) (beBytes 2 dport'.toNat) length (by simp)
  simp only [List.length_append, leBytes_length, List.length_cons, List.length_nil] at agree
  rw [policyData, policyData, agree, List.append_eq_append_iff_of_size_eq_left (by simp),
    labels_eq_iff]
  have ports := @bitsAgree_beBytes_word 2 length dport dport' within
  rw [ports]
  simp [and_assoc]

end PolicyData

end FlowSdn.Abi
