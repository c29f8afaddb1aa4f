import FlowSdn.Policy.Ports

/-! # From rule keys to policy map entries

A rule becomes keys of an identity, a protocol and a port block. Denies are made
to win over the allows they meet, and the result is written under an endpoint
and a direction.
-/

namespace FlowSdn.Agent

open Abi Policy Words LongestPrefix OrderedMap

def allowPrecedence : U32 := 1
def hostAllowPrecedence : U32 := 0xFFFFFF01
def hostDenyPrecedence : U32 := BitVec.allOnes 32

/-- One rule key before encoding; protocol 0 is every L4. -/
structure HostKey where
  identity : U32
  protocol : U8
  port : U16
  portPrefix : U8
  deriving DecidableEq

namespace HostKey

instance : Ord HostKey where
  compare := compareLex (compareOn identity) (compareLex (compareOn protocol)
    (compareLex (compareOn port) (compareOn portPrefix)))

instance : Std.TransOrd HostKey := inferInstanceAs (Std.TransCmp (compareLex _ _))

instance : Std.LawfulEqOrd HostKey where
  eq_of_compare {left right} equal := by
    cases left
    cases right
    simp_all [compare]

def block (key : HostKey) : PortBlock := ⟨key.port, key.portPrefix⟩

end HostKey

/-- Whether `outer`'s L4 holds every packet `inner`'s does. -/
def l4Holds (outer inner : HostKey) : Bool :=
  outer.protocol = anyProtocol ||
    (outer.protocol = inner.protocol && outer.portPrefix ≤ inner.portPrefix &&
      outer.block.matches inner.port)

/-- The keys of one (identity, protocol, port range): protocol 0 is every L4. -/
def l4Keys (identity : U32) (protocol : U8) (range : PortRange) : List HostKey :=
  if protocol = anyProtocol then [⟨identity, anyProtocol, 0#16, 0#8⟩]
  else range.blocks.map fun block => ⟨identity, protocol, block.port, block.portPrefix⟩

/-- The denies one allow meets, in order: the first that covers it drops it, and
one inside it is repeated at its identity. -/
def meetDenies (allow : HostKey) : List HostKey → BTreeSet HostKey → BTreeSet HostKey × Bool
  | [], denies => (denies, true)
  | deny :: rest, denies =>
      if deny.identity ≠ allow.identity ∧ deny.identity ≠ wildcard then
        meetDenies allow rest denies
      else if l4Holds deny allow then (denies, false)
      else if l4Holds allow deny then
        meetDenies allow rest (denies.insert { deny with identity := allow.identity })
      else meetDenies allow rest denies

/-- One round of `denyOverAllow`: the allows kept and the denies so far. -/
def keepAllow (denies : BTreeSet HostKey) (state : BTreeSet HostKey × BTreeSet HostKey)
    (allow : HostKey) : BTreeSet HostKey × BTreeSet HostKey :=
  let met := meetDenies allow denies.toList state.2
  (if met.2 then state.1.insert allow else state.1, met.1)

def denyOverAllow (allows denies : BTreeSet HostKey) : BTreeSet HostKey × BTreeSet HostKey :=
  allows.toList.foldl (keepAllow denies) (∅, denies)

/-! ## Writing entries -/

/-- The map key and value of one rule key; none when the ABI refuses it. -/
def encodeEntry (endpoint : U32) (egress : Bool) (allowPrecedence : U32) (key : HostKey)
    (deny : Bool) : Option (TrieKey × PolicyEntry) :=
  match PolicyKey.new key.identity egress key.protocol key.port key.portPrefix with
  | .error _ => none
  | .ok policyKey =>
      let lpm := if key.protocol = anyProtocol then 0#8 else saturatingAdd key.portPrefix 8#8
      let precedence := if deny then hostDenyPrecedence else allowPrecedence
      match PolicyEntry.new 0 deny lpm 0 false precedence 0 with
      | .error _ => none
      | .ok value => some ((EndpointPolicyKey.forEndpoint endpoint policyKey).toBytes, value)

/-- One round of `writeEntries`: the entries so far and how many of them are new. -/
def writeEntry (endpoint : U32) (egress : Bool) (allowPrecedence : U32)
    (written : Trie PolicyEntry × Nat) (key : HostKey × Bool) : Trie PolicyEntry × Nat :=
  match encodeEntry endpoint egress allowPrecedence key.1 key.2 with
  | none => written
  | some (bytes, value) =>
      (written.1.insert bytes value,
        if written.1.contains bytes then written.2 else written.2 + 1)

/-- An allow or deny set's keys, each with whether it denies, allows first so that
a deny replaces an allow at the same map key. -/
def keyVerdicts (allows denies : BTreeSet HostKey) : List (HostKey × Bool) :=
  allows.toList.map (·, false) ++ denies.toList.map (·, true)

def writeEntries (entries : Trie PolicyEntry) (endpoint : U32) (egress : Bool)
    (allows denies : BTreeSet HostKey) (allowPrecedence : U32) : Trie PolicyEntry × Nat :=
  (keyVerdicts allows denies).foldl (writeEntry endpoint egress allowPrecedence) (entries, 0)

theorem foldl_writeEntry (endpoint : U32) (egress : Bool) (allowPrecedence : U32)
    (written : Trie PolicyEntry × Nat) (keys : List (HostKey × Bool)) :
    (keys.foldl (writeEntry endpoint egress allowPrecedence) written).1 =
      insertAll written.1
        (keys.filterMap fun key => encodeEntry endpoint egress allowPrecedence key.1 key.2) := by
  induction keys generalizing written with
  | nil => rfl
  | cons key keys induction =>
      rw [List.foldl_cons, induction]
      cases encoded : encodeEntry endpoint egress allowPrecedence key.1 key.2 with
      | none => simp [writeEntry, encoded]
      | some pair => simp [writeEntry, encoded]

def encodedPairs (endpoint : U32) (egress : Bool) (allowPrecedence : U32) (deny : Bool)
    (keys : BTreeSet HostKey) : List (TrieKey × PolicyEntry) :=
  keys.toList.filterMap fun key => encodeEntry endpoint egress allowPrecedence key deny

def entryPairs (endpoint : U32) (egress : Bool) (allows denies : BTreeSet HostKey)
    (allowPrecedence : U32) : List (TrieKey × PolicyEntry) :=
  encodedPairs endpoint egress allowPrecedence false allows ++
    encodedPairs endpoint egress allowPrecedence true denies

theorem writeEntries_entries (entries : Trie PolicyEntry) (endpoint : U32) (egress : Bool)
    (allows denies : BTreeSet HostKey) (allowPrecedence : U32) :
    (writeEntries entries endpoint egress allows denies allowPrecedence).1 =
      insertAll entries (entryPairs endpoint egress allows denies allowPrecedence) := by
  rw [writeEntries, foldl_writeEntry, keyVerdicts, List.filterMap_append, List.filterMap_map,
    List.filterMap_map]
  rfl

namespace HostKey

/-- A wildcard L4 names no port, and a port block has no bit below its prefix. -/
def Canonical (key : HostKey) : Prop :=
  (key.protocol = anyProtocol → key.port = 0#16 ∧ key.portPrefix = 0#8) ∧ key.block.Aligned

def l4Matches (key : HostKey) (protocol : U8) (port : U16) : Bool :=
  key.protocol = anyProtocol || (key.protocol = protocol && key.block.matches port)

def length (key : HostKey) : Nat :=
  if key.protocol = anyProtocol then 72 else 80 + key.portPrefix.toNat

def bytes (key : HostKey) (endpoint : U32) (egress : Bool) : TrieKey :=
  Trie.encode (BitVec.ofNat 32 key.length)
    (policyData endpoint key.identity (bit egress) key.protocol key.port)

end HostKey

theorem canonical_of_mem_l4Keys {identity : U32} {protocol : U8} {range : PortRange}
    {key : HostKey} (member : key ∈ l4Keys identity protocol range) : key.Canonical := by
  by_cases any : protocol = anyProtocol
  · simp only [l4Keys, if_pos any, List.mem_singleton] at member
    subst member
    exact ⟨fun _ => ⟨rfl, rfl⟩, BitVec.le_def.mpr (Nat.zero_le _), BitVec.zero_and⟩
  · simp only [l4Keys, if_neg any, List.mem_map] at member
    rcases member with ⟨block, inBlocks, equal⟩
    subst equal
    exact ⟨fun zero => absurd zero any, PortRange.aligned_of_mem_blocks inBlocks⟩

theorem exists_mem_l4Keys_matches {identity : U32} {protocol : U8} {range : PortRange}
    {flowProtocol : U8} {port : U16} :
    (∃ key ∈ l4Keys identity protocol range, key.l4Matches flowProtocol port) ↔
      protocol = anyProtocol ∨ (protocol = flowProtocol ∧ range.contains port) := by
  by_cases any : protocol = anyProtocol
  · simp [l4Keys, any, HostKey.l4Matches]
  · rw [← range.exists_mem_blocks_matches]
    constructor
    · intro found
      rcases found with ⟨key, member, matched⟩
      simp only [l4Keys, if_neg any, List.mem_map] at member
      rcases member with ⟨block, inBlocks, equal⟩
      subst equal
      simp only [HostKey.l4Matches, any, decide_false, Bool.false_or, Bool.and_eq_true,
        decide_eq_true_eq] at matched
      exact .inr ⟨matched.1, block, inBlocks, matched.2⟩
    · intro found
      rcases found.resolve_left any with ⟨same, block, inBlocks, matched⟩
      refine ⟨⟨identity, protocol, block.port, block.portPrefix⟩, ?_, ?_⟩
      · simp only [l4Keys, if_neg any, List.mem_map]
        exact ⟨block, inBlocks, rfl⟩
      · simp [HostKey.l4Matches, same, HostKey.block, matched]

section Encoding

variable {key : HostKey} {egress : Bool}

section

variable (canonical : key.Canonical)

include canonical

theorem HostKey.length_le : key.length ≤ 96 := by
  have bound : key.portPrefix.toNat ≤ 16 := canonical.2.1
  unfold HostKey.length
  split <;> omega

theorem HostKey.toNat_length : (BitVec.ofNat 32 key.length).toNat = key.length := by
  have bound := HostKey.length_le canonical
  rw [BitVec.toNat_ofNat, Nat.mod_eq_of_lt (by omega)]

private theorem prefixlen_of_canonical :
    saturatingAdd
        (if key.protocol = anyProtocol then 40#32
          else saturatingAdd 48#32 (key.portPrefix.setWidth 32)) 32#32 =
      BitVec.ofNat 32 key.length := by
  have bound : key.portPrefix.toNat ≤ 16 := canonical.2.1
  have widened : (key.portPrefix.setWidth 32).toNat = key.portPrefix.toNat := by
    rw [BitVec.toNat_setWidth, Nat.mod_eq_of_lt (by omega)]
  apply BitVec.eq_of_toNat_eq
  rw [HostKey.toNat_length canonical]
  by_cases any : key.protocol = anyProtocol
  · simp [any, HostKey.length, saturatingAdd]
  · have inner : (saturatingAdd 48#32 (key.portPrefix.setWidth 32)).toNat =
        48 + key.portPrefix.toNat := by
      rw [toNat_saturatingAdd, widened]
      · rfl
      · rw [widened, BitVec.toNat_ofNat]
        omega
    rw [if_neg any, HostKey.length, if_neg any, toNat_saturatingAdd, inner, BitVec.toNat_ofNat]
    · omega
    · rw [inner, BitVec.toNat_ofNat]
      omega

theorem policyKey_of_canonical (endpoint : U32) (egress : Bool) :
    ∃ policyKey,
      PolicyKey.new key.identity egress key.protocol key.port key.portPrefix = .ok policyKey ∧
        (EndpointPolicyKey.forEndpoint endpoint policyKey).toBytes = key.bytes endpoint egress := by
  refine ⟨_, if_neg ?_, ?_⟩
  · intro refused
    rcases refused with long | ⟨any, constrained⟩
    · exact absurd long (BitVec.not_lt.mpr canonical.2.1)
    · rcases canonical.1 any with ⟨noPort, noPrefix⟩
      rcases constrained with isPrefixed | hasPort
      · exact isPrefixed noPrefix
      · exact hasPort noPort
  · have masked : key.port &&& portMask key.portPrefix = key.port := canonical.2.2
    simp only [EndpointPolicyKey.toBytes, EndpointPolicyKey.forEndpoint, HostKey.bytes, masked,
      prefixlen_of_canonical canonical]

private theorem lpm_of_canonical :
    (if key.protocol = anyProtocol then 0#8 else saturatingAdd key.portPrefix 8#8) = 0#8 ∨
      (8#8 ≤ (if key.protocol = anyProtocol then 0#8 else saturatingAdd key.portPrefix 8#8) ∧
        (if key.protocol = anyProtocol then 0#8 else saturatingAdd key.portPrefix 8#8) ≤
          24#8) := by
  have bound : key.portPrefix.toNat ≤ 16 := canonical.2.1
  by_cases any : key.protocol = anyProtocol
  · exact .inl (if_pos any)
  · have sum : (saturatingAdd key.portPrefix 8#8).toNat = key.portPrefix.toNat + 8 := by
      apply toNat_saturatingAdd
      rw [BitVec.toNat_ofNat]
      omega
    rw [if_neg any]
    refine .inr ⟨?_, ?_⟩
    · rw [BitVec.le_def, sum]
      exact Nat.le_add_left _ _
    · rw [BitVec.le_def, sum]
      exact Nat.add_le_add_right bound 8

/-- Every canonical key is written, and its entry says only whether it denies. -/
theorem encodeEntry_of_canonical (endpoint : U32) (egress : Bool)
    (allowPrecedence : U32) (deny : Bool) :
    ∃ value : PolicyEntry,
      encodeEntry endpoint egress allowPrecedence key deny =
          some (key.bytes endpoint egress, value) ∧
        value.auth = 0 ∧ value.denies = deny ∧
        value.precedence = if deny then hostDenyPrecedence else allowPrecedence := by
  rcases policyKey_of_canonical canonical endpoint egress with ⟨policyKey, made, bytes⟩
  rcases PolicyEntry.new_eq_ok (lpm_of_canonical canonical) deny
    (if deny then hostDenyPrecedence else allowPrecedence) with ⟨value, accepted, fields⟩
  refine ⟨value, ?_, fields⟩
  simp only [encodeEntry, made, accepted, bytes]

end

/-- The key with the port bits that its prefix leaves out cleared. -/
def HostKey.cleaned (key : HostKey) : HostKey :=
  { key with port := key.port &&& portMask key.portPrefix }

theorem valid_of_policyKey_new {egress : Bool} {policyKey : PolicyKey}
    (made : PolicyKey.new key.identity egress key.protocol key.port key.portPrefix =
      .ok policyKey) :
    key.portPrefix ≤ 16#8 ∧
      (key.protocol = anyProtocol → key.port = 0#16 ∧ key.portPrefix = 0#8) := by
  unfold PolicyKey.new at made
  split at made
  · cases made
  · rename_i accepted
    rw [not_or, not_and_or] at accepted
    refine ⟨BitVec.not_lt.mp accepted.1, fun any => ?_⟩
    rcases accepted.2 with specific | clear
    · exact absurd any specific
    · simpa [and_comm] using clear

private theorem policyKey_new_cleaned (egress : Bool) {policyKey : PolicyKey}
    (made : PolicyKey.new key.identity egress key.protocol key.port key.portPrefix =
      .ok policyKey) :
    PolicyKey.new key.identity egress key.protocol key.cleaned.port key.portPrefix =
      .ok policyKey := by
  rcases valid_of_policyKey_new made with ⟨short, clear⟩
  have accepted : ∀ port : U16, (key.protocol = anyProtocol → port = 0#16) →
      ¬(key.portPrefix > 16#8 ∨
        (key.protocol = anyProtocol ∧ (key.portPrefix ≠ 0#8 ∨ port ≠ 0#16))) := by
    intro port noPort refused
    rcases refused with long | ⟨any, constrained⟩
    · exact absurd long (BitVec.not_lt.mpr short)
    · exact constrained.elim (fun long => long (clear any).2) fun ported => ported (noPort any)
  have noPort : key.protocol = anyProtocol → key.cleaned.port = 0#16 := by
    intro any
    simp [HostKey.cleaned, (clear any).1]
  rw [← made, PolicyKey.new, PolicyKey.new, if_neg (accepted _ noPort),
    if_neg (accepted _ fun any => (clear any).1)]
  simp [HostKey.cleaned, BitVec.and_assoc]

theorem canonical_of_encodeEntry {endpoint : U32} {allowPrecedence : U32} {deny : Bool}
    {bytes : TrieKey} {value : PolicyEntry}
    (encoded : encodeEntry endpoint egress allowPrecedence key deny = some (bytes, value)) :
    ∃ written : HostKey, written.Canonical ∧ bytes = written.bytes endpoint egress ∧
      value.auth = 0 ∧ value.denies = deny ∧
      value.precedence = if deny then hostDenyPrecedence else allowPrecedence := by
  cases made : PolicyKey.new key.identity egress key.protocol key.port key.portPrefix with
  | error refused => simp [encodeEntry, made] at encoded
  | ok policyKey =>
      rcases valid_of_policyKey_new made with ⟨short, clear⟩
      have canonical : key.cleaned.Canonical := by
        refine ⟨fun any => ⟨?_, (clear any).2⟩, short, ?_⟩
        · simp [HostKey.cleaned, (clear any).1]
        · simp [HostKey.cleaned, HostKey.block, BitVec.and_assoc]
      have same : encodeEntry endpoint egress allowPrecedence key.cleaned deny =
          encodeEntry endpoint egress allowPrecedence key deny := by
        have cleaned : PolicyKey.new key.cleaned.identity egress key.cleaned.protocol
            key.cleaned.port key.cleaned.portPrefix = .ok policyKey :=
          policyKey_new_cleaned egress made
        rw [encodeEntry, encodeEntry, cleaned, made]
        rfl
      rcases encodeEntry_of_canonical canonical endpoint egress allowPrecedence deny with
        ⟨written, writes, fields⟩
      rw [same, encoded] at writes
      cases writes
      exact ⟨key.cleaned, canonical, rfl, fields⟩

theorem HostKey.portPrefix_le (canonical : key.Canonical) : key.portPrefix.toNat ≤ 16 :=
  canonical.2.1

theorem HostKey.l4Matches_iff (canonical : key.Canonical) {protocol : U8} {port : U16} :
    key.l4Matches protocol port ↔
      key.protocol = anyProtocol ∨
        (key.protocol = protocol ∧
          leadingBits key.portPrefix.toNat port = leadingBits key.portPrefix.toNat key.port) := by
  have matched := @PortBlock.matches_iff key.block canonical.2.1 port
  simp only [HostKey.l4Matches, Bool.or_eq_true, Bool.and_eq_true, decide_eq_true_eq, matched]
  rfl

/-- A lookup meets a written key when the key is of its endpoint, identity and
direction and its L4 holds the packet. -/
theorem covers_bytes (canonical : key.Canonical) {endpoint endpoint' identity : U32}
    {egress' protocol : U8} {port : U16} :
    Trie.covers endpointPolicyFullPrefix (policyData endpoint' identity egress' protocol port)
        (key.bytes endpoint egress) ↔
      endpoint = endpoint' ∧ key.identity = identity ∧
        bit egress = egress' ∧ key.l4Matches protocol port := by
  have short : key.length ≤ endpointPolicyFullPrefix := HostKey.length_le canonical
  rw [HostKey.bytes, Trie.covers_encode, HostKey.toNat_length canonical,
    HostKey.l4Matches_iff canonical]
  by_cases any : key.protocol = anyProtocol
  · have length : key.length = 72 := if_pos any
    rw [length] at short ⊢
    rw [policyData_agree_direction]
    simp [short, any]
  · have length : key.length = 80 + key.portPrefix.toNat := if_neg any
    rw [length] at short ⊢
    rw [policyData_agree_port (HostKey.portPrefix_le canonical)]
    simp only [short, any, true_and, false_or]
    rw [eq_comm (a := leadingBits _ port)]

end Encoding

section Nesting

variable {outer inner : HostKey} {protocol : U8} {port : U16}

theorem l4Holds_iff (canonical : outer.Canonical) :
    l4Holds outer inner ↔
      outer.protocol = anyProtocol ∨
        (outer.protocol = inner.protocol ∧
          outer.portPrefix.toNat ≤ inner.portPrefix.toNat ∧
          leadingBits outer.portPrefix.toNat inner.port =
            leadingBits outer.portPrefix.toNat outer.port) := by
  have matched := @PortBlock.matches_iff outer.block canonical.2.1 inner.port
  simp only [l4Holds, Bool.or_eq_true, Bool.and_eq_true, decide_eq_true_eq, matched,
    BitVec.le_def, and_assoc]
  rfl

section

variable (outerCanonical : outer.Canonical) (innerCanonical : inner.Canonical)

include outerCanonical innerCanonical

theorem l4Matches_of_l4Holds
    (holds : l4Holds outer inner) (matched : inner.l4Matches protocol port) :
    outer.l4Matches protocol port := by
  rw [HostKey.l4Matches_iff outerCanonical]
  rcases (l4Holds_iff outerCanonical).mp holds with any | ⟨same, shorter, inside⟩
  · exact .inl any
  · rcases (HostKey.l4Matches_iff innerCanonical).mp matched with any | ⟨here, agree⟩
    · exact .inl (same.trans any)
    · exact .inr ⟨same.trans here, (leadingBits_eq_of_le shorter agree).trans inside⟩

/-- Of two keys that match one packet, the shorter holds the longer. -/
theorem l4Holds_of_length_le (outerMatches : outer.l4Matches protocol port)
    (innerMatches : inner.l4Matches protocol port) (shorter : outer.length ≤ inner.length) :
    l4Holds outer inner := by
  rw [l4Holds_iff outerCanonical]
  by_cases any : outer.protocol = anyProtocol
  · exact .inl any
  · rcases ((HostKey.l4Matches_iff outerCanonical).mp outerMatches).resolve_left any with
      ⟨outerHere, outerAgree⟩
    have innerNotAny : inner.protocol ≠ anyProtocol := by
      intro innerAny
      rw [HostKey.length, HostKey.length, if_neg any, if_pos innerAny] at shorter
      omega
    rcases ((HostKey.l4Matches_iff innerCanonical).mp innerMatches).resolve_left innerNotAny with
      ⟨innerHere, innerAgree⟩
    rw [HostKey.length, HostKey.length, if_neg any, if_neg innerNotAny] at shorter
    have nested : outer.portPrefix.toNat ≤ inner.portPrefix.toNat := by omega
    exact .inr ⟨outerHere.trans innerHere.symm, nested,
      (leadingBits_eq_of_le nested innerAgree).symm.trans outerAgree⟩

theorem l4_eq_of_length_eq (outerMatches : outer.l4Matches protocol port)
    (innerMatches : inner.l4Matches protocol port) (same : outer.length = inner.length) :
    outer.protocol = inner.protocol ∧ outer.port = inner.port ∧
      outer.portPrefix = inner.portPrefix := by
  have holds := l4Holds_of_length_le outerCanonical innerCanonical outerMatches innerMatches
    (Nat.le_of_eq same)
  rcases (l4Holds_iff outerCanonical).mp holds with any | ⟨protocols, _, inside⟩
  · have innerAny : inner.protocol = anyProtocol := by
      by_contra notAny
      rw [HostKey.length, HostKey.length, if_pos any, if_neg notAny] at same
      omega
    rcases outerCanonical.1 any with ⟨outerPort, outerPrefix⟩
    rcases innerCanonical.1 innerAny with ⟨innerPort, innerPrefix⟩
    exact ⟨any.trans innerAny.symm, outerPort.trans innerPort.symm,
      outerPrefix.trans innerPrefix.symm⟩
  · have lengths : outer.portPrefix.toNat = inner.portPrefix.toNat := by
      rw [HostKey.length, HostKey.length, protocols] at same
      split at same
      · rename_i any
        rw [(outerCanonical.1 (protocols.trans any)).2, (innerCanonical.1 any).2]
      · omega
    have prefixes : outer.portPrefix = inner.portPrefix := BitVec.eq_of_toNat_eq lengths
    refine ⟨protocols, ?_, prefixes⟩
    have outerMasked : outer.port &&& portMask outer.portPrefix = outer.port :=
      outerCanonical.2.2
    have innerMasked : inner.port &&& portMask inner.portPrefix = inner.port :=
      innerCanonical.2.2
    have mask : portMask outer.portPrefix = leadingMask 16 outer.portPrefix.toNat :=
      portMask_eq outerCanonical.2.1
    rw [← outerMasked, ← innerMasked, ← prefixes, mask]
    exact masked_eq_iff.mpr inside.symm

end

end Nesting

end FlowSdn.Agent
