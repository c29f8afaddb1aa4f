import FlowSdn.Datapath.Allowed
import FlowSdn.Net.Address

/-! # The identity of an address

Keys of the identity cache are network prefixes, and a lookup meets exactly the
prefixes that hold the address: its identity is that of the longest of them.
-/

namespace FlowSdn

open Abi Words LongestPrefix OrderedMap

namespace Net

namespace IpAddr

def family : IpAddr → U8
  | v4 _ => familyV4
  | v6 _ => familyV6

def field : IpAddr → U128
  | v4 address => IpCacheKey.widen address
  | v6 address => address

end IpAddr

def CidrPrefix.bytes (cidr : CidrPrefix) : TrieKey :=
  Trie.encode (BitVec.ofNat 32 (32 + cidr.length))
    (ipcacheData 0 0 cidr.network.family cidr.network.field)

end Net

namespace Datapath

open Net

/-! ## Bytes of keys -/

variable {length : Nat}

theorem ipcacheData_agree {family family' : U8} {address address' : U128} (within : length ≤ 128) :
    bitsAgree (32 + length) (ipcacheData 0 0 family address) (ipcacheData 0 0 family' address') ↔
      family = family' ∧ leadingBits length address = leadingBits length address' := by
  have agree := bitsAgree_append (leBytes 2 (0 : U16).toNat ++ [0, family])
    (leBytes 2 (0 : U16).toNat ++ [0, family']) (beBytes 16 address.toNat)
    (beBytes 16 address'.toNat) length (by simp)
  have words := @bitsAgree_beBytes_word 16 length address address' within
  simp only [List.length_append, leBytes_length, List.length_cons, List.length_nil] at agree
  rw [ipcacheData, ipcacheData, agree, words]
  simp

theorem leadingBits_widen {left right : U32} (within : length ≤ 32) :
    leadingBits length (IpCacheKey.widen left) = leadingBits length (IpCacheKey.widen right) ↔
      leadingBits length left = leadingBits length right := by
  have widened : ∀ word : U32, leadingBits length (IpCacheKey.widen word) =
      leadingBits length word := by
    intro word
    have bound := word.isLt
    have value : (IpCacheKey.widen word).toNat = word.toNat * 2 ^ 96 := by
      rw [IpCacheKey.widen, BitVec.toNat_shiftLeft, BitVec.toNat_setWidth,
        Nat.mod_eq_of_lt (by omega), Nat.shiftLeft_eq, Nat.mod_eq_of_lt (by omega)]
    have split : 128 - length = 96 + (32 - length) := by omega
    rw [leadingBits, leadingBits, value, split, Nat.pow_add, ← Nat.div_div_eq_div_mul,
      Nat.mul_div_cancel _ (Nat.two_pow_pos 96)]
  rw [widened, widened]

theorem length_le (cidr : CidrPrefix) : cidr.length ≤ 128 :=
  Nat.le_trans cidr.fits cidr.network.hostBits_le

theorem agree_field_iff {left right : IpAddr} (within : length ≤ left.hostBits) :
    left.family = right.family ∧
        leadingBits length left.field = leadingBits length right.field ↔
      IpAddr.Agree length left right := by
  cases left <;> cases right
  · simpa [IpAddr.family, IpAddr.field, IpAddr.Agree] using leadingBits_widen within
  · simp [IpAddr.family, IpAddr.Agree, familyV4, familyV6]
  · simp [IpAddr.family, IpAddr.Agree, familyV4, familyV6]
  · simp [IpAddr.family, IpAddr.field, IpAddr.Agree]

theorem toNat_keyLength (cidr : CidrPrefix) :
    (BitVec.ofNat 32 (32 + cidr.length)).toNat = 32 + cidr.length := by
  have bound := length_le cidr
  rw [BitVec.toNat_ofNat, Nat.mod_eq_of_lt (by omega)]

@[simp] theorem keyLength_bytes (cidr : CidrPrefix) :
    Trie.keyLength cidr.bytes = 32 + cidr.length := by
  rw [CidrPrefix.bytes, Trie.keyLength_encode, toNat_keyLength]

def lookupBits (family : U8) : Nat := if family = familyV4 then 64 else 160

theorem lookupBits_family (address : IpAddr) :
    lookupBits address.family = 32 + address.hostBits := by
  cases address <;> rfl

theorem covers_cidr {cidr : CidrPrefix} {address : IpAddr} :
    Trie.covers (lookupBits address.family) (ipcacheData 0 0 address.family address.field)
        cidr.bytes ↔ cidr.containsAddress address := by
  rw [CidrPrefix.bytes, Trie.covers_encode, toNat_keyLength, ipcacheData_agree (length_le cidr),
    agree_field_iff cidr.fits, CidrPrefix.containsAddress_iff, lookupBits_family]
  constructor
  · exact fun met => met.2
  · intro agree
    have fits := cidr.fits
    rw [IpAddr.hostBits_eq_of_agree agree] at fits
    exact ⟨Nat.add_le_add_left fits 32, agree⟩

theorem bytes_injective {left right : CidrPrefix} (equal : left.bytes = right.bytes) :
    left = right := by
  have lengths : left.length = right.length := by
    have values := congrArg Trie.keyLength equal
    simpa using values
  have holds : left.containsAddress left.network :=
    CidrPrefix.containsAddress_iff.mpr (IpAddr.agree_iff_masked.mpr rfl)
  have covered := covers_cidr.mpr holds
  rw [equal] at covered
  exact CidrPrefix.eq_of_containsAddress holds (covers_cidr.mp covered) lengths

def PrefixKeyed (ipcache : Trie RemoteEndpointInfo) : Prop :=
  ∀ bytes info, ipcache[bytes]? = some info → ∃ cidr : CidrPrefix, bytes = cidr.bytes

def addressIdentity (ipcache : Trie RemoteEndpointInfo) (address : IpAddr) : U32 :=
  identity ipcache address.family address.field

def Holding (ipcache : Trie RemoteEndpointInfo) (address : IpAddr) (cidr : CidrPrefix)
    (info : RemoteEndpointInfo) : Prop :=
  ipcache[cidr.bytes]? = some info ∧ cidr.containsAddress address

def Longest (ipcache : Trie RemoteEndpointInfo) (address : IpAddr) (cidr : CidrPrefix)
    (info : RemoteEndpointInfo) : Prop :=
  Holding ipcache address cidr info ∧
    ∀ other otherInfo, Holding ipcache address other otherInfo → other.length ≤ cidr.length

section Keyed

variable {ipcache : Trie RemoteEndpointInfo} {address : IpAddr}

/-- The longest prefix that holds the address gives its identity; without one it is
world. -/
theorem addressIdentity_cases (keyed : PrefixKeyed ipcache) :
    (addressIdentity ipcache address = world ∧
        ∀ cidr info, ¬Holding ipcache address cidr info) ∨
      ∃ cidr info, Longest ipcache address cidr info ∧
        addressIdentity ipcache address = info.secIdentity := by
  have bits : (if address.family = familyV4 then 64 else 160) = lookupBits address.family := rfl
  unfold addressIdentity identity
  simp only [bits, Trie.lookup]
  cases found : longest Trie.keyLength
      (Trie.covers (lookupBits address.family) (ipcacheData 0 0 address.family address.field))
      ipcache with
  | none =>
      refine .inl ⟨rfl, fun cidr info holding => ?_⟩
      have missed := longest_eq_none_iff.mp found _ info holding.1
      rw [covers_cidr.mpr holding.2] at missed
      cases missed
  | some pair =>
      rcases pair with ⟨bytes, info⟩
      rcases longest_spec found with ⟨held, covering, longestKey⟩
      rcases keyed bytes info held with ⟨cidr, rfl⟩
      refine .inr ⟨cidr, info, ⟨⟨held, covers_cidr.mp covering⟩, ?_⟩, rfl⟩
      intro other otherInfo holding
      have bound := longestKey _ otherInfo holding.1 (covers_cidr.mpr holding.2)
      simpa using bound

end Keyed

end Datapath

end FlowSdn
