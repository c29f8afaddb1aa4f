import FlowSdn.Agent.Compiled
import FlowSdn.Datapath.Identity

/-! # Blocks of addresses

Every prefix that a rule names has an identity of its own, so the longest prefix
that holds an outside address is inside a block exactly when the address is.
-/

namespace FlowSdn.Agent

open Abi Policy Words LongestPrefix OrderedMap Datapath Net Reported HostPolicy

/-! ## The compiled identity cache -/

theorem ipKey_eq {ip : IpAddr} {bits : Nat} (fits : bits ≤ ip.hostBits) :
    ipKey ip bits =
      some (Trie.encode (BitVec.ofNat 32 (32 + bits)) (ipcacheData 0 0 ip.family ip.field)) := by
  have bound : bits ≤ 128 := Nat.le_trans fits ip.hostBits_le
  have value : (BitVec.ofNat 32 bits).toNat = bits := by
    rw [BitVec.toNat_ofNat, Nat.mod_eq_of_lt (by omega)]
  have sum : 32#32 + BitVec.ofNat 32 bits = BitVec.ofNat 32 (32 + bits) := by
    rw [BitVec.ofNat_add]
  have small : 32 + (BitVec.ofNat 32 bits).toNat < 2 ^ 32 := by omega
  cases ip with
  | v4 address =>
      have short : ¬BitVec.ofNat 32 bits > 32#32 := by
        rw [gt_iff_lt, BitVec.lt_def, value]
        exact Nat.not_lt.mpr fits
      simp only [ipKey, IpCacheKey.v4, if_neg short, IpCacheKey.make, if_pos small, sum]
      rfl
  | v6 address =>
      have short : ¬BitVec.ofNat 32 bits > 128#32 := by
        rw [gt_iff_lt, BitVec.lt_def, value]
        exact Nat.not_lt.mpr fits
      simp only [ipKey, IpCacheKey.v6, if_neg short, IpCacheKey.make, if_pos small, sum]
      rfl

def identityInfo (identity : U32) : RemoteEndpointInfo := { secIdentity := identity }

theorem identityPair_cidr (cidr : CidrPrefix) (identity : U32) :
    identityPair cidr.network cidr.length identity = some (cidr.bytes, identityInfo identity) := by
  rw [identityPair, ipKey_eq cidr.fits]
  rfl

theorem identityPair_address (ip : IpAddr) (identity : U32) :
    identityPair ip ip.hostBits identity =
      some ((CidrPrefix.ofAddress ip).bytes, identityInfo identity) := by
  rw [identityPair, ipKey_eq (Nat.le_refl _), CidrPrefix.bytes, CidrPrefix.network_ofAddress]
  rfl

/-- The prefixes of the identity cache with their identities, in the order written. -/
def identitySources (view : View) (gateways : List IpAddr) : List (CidrPrefix × U32) :=
  view.cidrs.toList ++
    (addressSources view gateways).map fun source => (CidrPrefix.ofAddress source.1, source.2)

theorem identityPairs_eq (view : View) (gateways : List IpAddr) :
    identityPairs view gateways =
      (identitySources view gateways).map fun source =>
        (source.1.bytes, identityInfo source.2) := by
  have mapped : ∀ {α β : Type} (make : α → β) (list : List α),
      list.filterMap (fun element => some (make element)) = list.map make := fun make list =>
    congrFun (List.filterMap_eq_map (f := make)) list
  simp only [identityPairs, identitySources, identityPair_cidr, identityPair_address, mapped,
    List.map_append, List.map_map, Function.comp_def]

section Cache

variable {view : View} {gateways : List IpAddr} {cidr : CidrPrefix} {info : RemoteEndpointInfo}

theorem cases_of_getElem?_ipcache
    (held : (compile view gateways).ipcache[cidr.bytes]? = some info) :
    (∃ id, view.cidrs[cidr]? = some id ∧ info = identityInfo id) ∨
      ∃ source ∈ addressSources view gateways, cidr = CidrPrefix.ofAddress source.1 ∧
        info = identityInfo source.2 := by
  rw [compile_ipcache, identityPairs_eq] at held
  rcases getElem?_insertAll_eq_some held with member | ⟨_, absent⟩
  · rcases List.mem_map.mp member with ⟨⟨source, id⟩, inside, equal⟩
    simp only [Prod.mk.injEq] at equal
    have same := bytes_injective equal.1
    subst same
    rcases List.mem_append.mp inside with block | single
    · exact .inl ⟨id, Std.ExtTreeMap.mem_toList_iff_getElem?_eq_some.mp block, equal.2.symm⟩
    · rcases List.mem_map.mp single with ⟨address, inSources, made⟩
      cases made
      exact .inr ⟨address, inSources, rfl, equal.2.symm⟩
  · simp at absent

theorem prefixKeyed_compile (view : View) (gateways : List IpAddr) :
    PrefixKeyed (compile view gateways).ipcache := by
  intro bytes info held
  rw [compile_ipcache, identityPairs_eq] at held
  rcases getElem?_insertAll_eq_some held with member | ⟨_, absent⟩
  · rcases List.mem_map.mp member with ⟨source, _, equal⟩
    exact ⟨source.1, (congrArg Prod.fst equal).symm⟩
  · simp at absent

theorem getElem?_ipcache_ne_none {id : U32}
    (isSource : (cidr, id) ∈ identitySources view gateways) :
    (compile view gateways).ipcache[cidr.bytes]? ≠ none := by
  intro missing
  rw [compile_ipcache, identityPairs_eq] at missing
  exact getElem?_insertAll_eq_none missing _ (List.mem_map_of_mem isSource) rfl

end Cache

/-- An address of no Pod with an identity, not of this node and not of another. -/
structure External (view : View) (gateways : List IpAddr) (address : IpAddr) : Prop where
  pods : ∀ pod ∈ view.pods, pod.hostNetwork = false →
    (view.podIdentity pod.inNamespace pod.name).isSome → address ∉ pod.ips
  nodes : address ∉ view.remoteNodes gateways
  host : address ∉ view.hostAddresses gateways

theorem External.not_mem_addressSources {view : View} {gateways : List IpAddr}
    {address : IpAddr} (external : External view gateways address) :
    ∀ source ∈ addressSources view gateways, source.1 ≠ address := by
  intro source member same
  subst same
  unfold addressSources at member
  rcases List.mem_append.mp member with earlier | ofHost
  · rcases List.mem_append.mp earlier with ofPod | ofNode
    · rcases List.mem_flatMap.mp ofPod with ⟨pod, isPod, inside⟩
      split at inside
      · cases inside
      · rename_i id known
        rcases List.mem_map.mp inside with ⟨ip, isIp, equal⟩
        subst equal
        simp only [List.mem_filter, Bool.not_eq_true'] at isPod
        exact external.pods pod isPod.1 isPod.2 (by simp [known]) isIp
    · rcases List.mem_map.mp ofNode with ⟨ip, isIp, equal⟩
      subst equal
      exact external.nodes isIp
  · rcases List.mem_map.mp ofHost with ⟨ip, isIp, equal⟩
    subst equal
    exact external.host isIp

/-- For an outside address only the blocks' prefixes count. -/
theorem getElem?_ipcache_of_external {view : View} {gateways : List IpAddr} {address : IpAddr}
    (external : External view gateways address) {cidr : CidrPrefix}
    (holds : cidr.containsAddress address) :
    (compile view gateways).ipcache[cidr.bytes]? = (view.cidrs[cidr]?).map identityInfo := by
  have notAddress : ∀ source ∈ addressSources view gateways,
      cidr ≠ CidrPrefix.ofAddress source.1 := by
    intro source member same
    subst same
    exact external.not_mem_addressSources source member
      (CidrPrefix.containsAddress_ofAddress.mp holds)
  cases held : (compile view gateways).ipcache[cidr.bytes]? with
  | some info =>
      rcases cases_of_getElem?_ipcache held with ⟨id, isBlock, equal⟩ | ⟨source, member, same, _⟩
      · rw [isBlock, equal]
        rfl
      · exact absurd same (notAddress source member)
  | none =>
      cases isBlock : view.cidrs[cidr]? with
      | none => rfl
      | some id =>
          have inSources : (cidr, id) ∈ identitySources view gateways :=
            List.mem_append_left _ (Std.ExtTreeMap.mem_toList_iff_getElem?_eq_some.mpr isBlock)
          exact absurd held (getElem?_ipcache_ne_none inSources)

/-! ## Numbers of prefixes -/

def cidrNumber (index : Nat) : U32 :=
  saturatingAdd cidrIdentityBase (BitVec.ofNat 32 (index + 1))

section Numbers

variable {view : View} {cidr other : CidrPrefix} {id : U32}

theorem mem_numbered :
    (cidr, id) ∈ (view.prefixes.toList.zipIdx 1).map (fun pair =>
        (pair.1, saturatingAdd cidrIdentityBase (BitVec.ofNat 32 pair.2))) ↔
      ∃ index, view.prefixes.toList[index]? = some cidr ∧ id = cidrNumber index := by
  simp only [List.mem_map, Prod.mk.injEq, Prod.exists, List.mem_zipIdx_iff_le_and_getElem?_sub]
  constructor
  · intro found
    rcases found with ⟨_, position, ⟨positive, here⟩, rfl, rfl⟩
    refine ⟨position - 1, here, ?_⟩
    rw [cidrNumber, Nat.sub_add_cancel positive]
  · intro found
    rcases found with ⟨index, here, rfl⟩
    exact ⟨cidr, index + 1, ⟨by omega, by simpa using here⟩, rfl, rfl⟩

theorem nodup_prefixes (view : View) : view.prefixes.toList.Nodup := by
  have ordered := Std.ExtTreeSet.distinct_toList (t := view.prefixes)
  refine ordered.imp fun different same => ?_
  subst same
  exact different Std.ReflCmp.compare_self

theorem getElem?_cidrs :
    view.cidrs[cidr]? = some id ↔
      ∃ index, view.prefixes.toList[index]? = some cidr ∧ id = cidrNumber index := by
  unfold View.cidrs
  constructor
  · intro held
    rcases getElem?_insertAll_eq_some held with member | ⟨_, absent⟩
    · exact mem_numbered.mp member
    · simp at absent
  · intro found
    rcases found with ⟨index, here, rfl⟩
    refine getElem?_insertAll_of_mem (mem_numbered.mpr ⟨index, here, rfl⟩) fun number again => ?_
    rcases mem_numbered.mp again with ⟨otherIndex, there, rfl⟩
    have inside : index < view.prefixes.toList.length := (List.getElem?_eq_some_iff.mp here).1
    have same := (List.getElem?_inj inside (nodup_prefixes view)).mp (here.trans there.symm)
    rw [same]

theorem exists_cidrs_iff : (∃ id, view.cidrs[cidr]? = some id) ↔ cidr ∈ view.prefixes := by
  simp only [getElem?_cidrs]
  constructor
  · intro found
    rcases found with ⟨_, index, here, _⟩
    exact Std.ExtTreeSet.mem_toList.mp (List.mem_of_getElem? here)
  · intro member
    rcases List.mem_iff_getElem?.mp (Std.ExtTreeSet.mem_toList.mpr member) with ⟨index, here⟩
    exact ⟨_, index, here, rfl⟩

theorem base_le_saturatingAdd (word : U32) :
    cidrIdentityBase.toNat ≤ (saturatingAdd cidrIdentityBase word).toNat := by
  by_cases fits : cidrIdentityBase.toNat + word.toNat < 2 ^ 32
  · rw [toNat_saturatingAdd fits]
    exact Nat.le_add_right _ _
  · rw [saturatingAdd, if_neg fits]
    decide

theorem base_le_of_cidrs (held : view.cidrs[cidr]? = some id) :
    cidrIdentityBase.toNat ≤ id.toNat := by
  rcases getElem?_cidrs.mp held with ⟨index, _, rfl⟩
  exact base_le_saturatingAdd _

theorem cidrNumber_toNat {index : Nat} (few : index < 2 ^ 24) :
    (cidrNumber index).toNat = 2 ^ 24 + (index + 1) := by
  have base : cidrIdentityBase.toNat = 2 ^ 24 := by decide
  have word : (BitVec.ofNat 32 (index + 1)).toNat = index + 1 := by
    rw [BitVec.toNat_ofNat, Nat.mod_eq_of_lt (by omega)]
  rw [cidrNumber, toNat_saturatingAdd, base, word]
  rw [base, word]
  omega

theorem cidr_eq_of_number (few : view.prefixes.toList.length < 2 ^ 24)
    (first : view.cidrs[cidr]? = some id) (second : view.cidrs[other]? = some id) :
    cidr = other := by
  rcases getElem?_cidrs.mp first with ⟨index, here, number⟩
  rcases getElem?_cidrs.mp second with ⟨otherIndex, there, otherNumber⟩
  have inside := (List.getElem?_eq_some_iff.mp here).1
  have otherInside := (List.getElem?_eq_some_iff.mp there).1
  have values := congrArg BitVec.toNat (number.symm.trans otherNumber)
  rw [cidrNumber_toNat (by omega), cidrNumber_toNat (by omega)] at values
  have same : index = otherIndex := by omega
  subst same
  exact Option.some.inj (here.symm.trans there)

end Numbers

section Peer

variable {compiler : Compiler} {policy cidr : String} {except : List String}
  {allow : CidrPrefix} {excepted : List CidrPrefix}

/-- An address is in the block: in its CIDR and in none of its exceptions. -/
def InBlock (allow : CidrPrefix) (excepted : List CidrPrefix) (address : IpAddr) : Prop :=
  allow.containsAddress address ∧ ∀ hole ∈ excepted, ¬hole.containsAddress address

theorem blockSelects_iff {candidate : CidrPrefix} :
    blockSelects allow excepted candidate ↔
      allow.containsPrefix candidate ∧ ∀ hole ∈ excepted, ¬hole.containsPrefix candidate := by
  simp [blockSelects]

theorem blockHolds_iff {ips : List IpAddr} :
    blockHolds allow excepted ips ↔ ∃ ip ∈ ips, InBlock allow excepted ip := by
  simp only [blockHolds, CidrPrefix.new_hostBits, List.any_eq_true, blockSelects_iff,
    CidrPrefix.containsPrefix_ofAddress, InBlock]

section

variable (parsed : parseBlock cidr except = some (allow, excepted)) {identity : U32}

include parsed

theorem mem_cidrPeer :
    identity ∈ (compiler.cidrPeer policy cidr except).value ↔
      (∃ candidate, compiler.cidrs[candidate]? = some identity ∧
          blockSelects allow excepted candidate) ∨
        (identity = hostIdentity ∧ ∃ ip ∈ compiler.host, InBlock allow excepted ip) ∨
        (identity = remoteNode ∧ ∃ ip ∈ compiler.remoteNodes, InBlock allow excepted ip) := by
  simp only [Compiler.cidrPeer, parsed, value_pure, ← blockHolds_iff]
  have blocks : identity ∈ collect ((compiler.cidrs.toList.filter fun pair =>
        blockSelects allow excepted pair.1).map (·.2)) ↔
      ∃ candidate, compiler.cidrs[candidate]? = some identity ∧
        blockSelects allow excepted candidate := by
    simp [Std.ExtTreeMap.mem_toList_iff_getElem?_eq_some]
  have inserted : ∀ (set : BTreeSet U32) (element : U32),
      identity ∈ set.insert element ↔ identity = element ∨ identity ∈ set := by
    intro set element
    rw [Std.ExtTreeSet.mem_insert, Std.compare_eq_iff_eq, eq_comm]
  cases blockHolds allow excepted compiler.host <;>
    cases blockHolds allow excepted compiler.remoteNodes <;>
    simp only [blocks, inserted, if_true, Bool.false_eq_true, if_false, and_true, and_false,
      or_false, false_or]
  · exact or_comm
  · exact or_comm
  · exact or_comm.trans (or_congr_left or_comm |>.trans or_assoc)

theorem mem_cidrPeer_of_number (number : cidrIdentityBase.toNat ≤ identity.toNat) :
    identity ∈ (compiler.cidrPeer policy cidr except).value ↔
      ∃ candidate, compiler.cidrs[candidate]? = some identity ∧
        blockSelects allow excepted candidate := by
  have base : cidrIdentityBase.toNat = 2 ^ 24 := by decide
  have notHost : identity ≠ hostIdentity := by
    intro same
    rw [same, base] at number
    exact absurd number (by decide)
  have notRemote : identity ≠ remoteNode := by
    intro same
    rw [same, base] at number
    exact absurd number (by decide)
  simp [mem_cidrPeer parsed, notHost, notRemote]

theorem world_not_mem_cidrPeer
    (numbered : ∀ (candidate : CidrPrefix) (id : U32), compiler.cidrs[candidate]? = some id →
      cidrIdentityBase.toNat ≤ id.toNat) :
    Datapath.world ∉ (compiler.cidrPeer policy cidr except).value := by
  rw [mem_cidrPeer parsed]
  intro member
  rcases member with ⟨candidate, held, _⟩ | ⟨same, _⟩ | ⟨same, _⟩
  · exact absurd (numbered candidate _ held) (by decide)
  · exact absurd same (by decide)
  · exact absurd same (by decide)

end

end Peer

theorem mem_prefixes_of_blocks {view : View} {cidr : String} {except : List String}
    (named : (cidr, except) ∈ view.blocks) {allow : CidrPrefix} {excepted : List CidrPrefix}
    (parsed : parseBlock cidr except = some (allow, excepted)) :
    allow ∈ view.prefixes ∧ ∀ hole ∈ excepted, hole ∈ view.prefixes := by
  have ofText : ∀ text ∈ cidr :: except, ∀ found, (CidrPrefix.parse text).toOption = some found →
      found ∈ view.prefixes := by
    intro text inside found valid
    exact mem_collect.mpr (List.mem_flatMap.mpr
      ⟨_, named, List.mem_filterMap.mpr ⟨text, inside, valid⟩⟩)
  simp only [parseBlock, Option.bind_eq_bind, Option.bind_eq_some_iff, Option.pure_def,
    Option.some.injEq, Prod.mk.injEq] at parsed
  rcases parsed with ⟨_, ofCidr, _, ofExcept, rfl, rfl⟩
  refine ⟨ofText cidr (List.mem_cons_self ..) _ ofCidr, fun hole member => ?_⟩
  rcases Checked.exists_of_mem_mapM_some ofExcept member with ⟨text, inside, valid⟩
  exact ofText text (List.mem_cons_of_mem _ inside) hole valid

section Outside

variable {view : View} {gateways : List IpAddr} {address : IpAddr} {allow : CidrPrefix}
  {excepted : List CidrPrefix}

/-- The longest prefix that holds an address is inside a block exactly when the address
is: the block's own prefixes are among the candidates. -/
theorem blockSelects_iff_inBlock {cidr : CidrPrefix} (holds : cidr.containsAddress address)
    (longest : ∀ other ∈ view.prefixes, other.containsAddress address →
      other.length ≤ cidr.length)
    (isAllow : allow ∈ view.prefixes) (areHoles : ∀ hole ∈ excepted, hole ∈ view.prefixes) :
    blockSelects allow excepted cidr ↔ InBlock allow excepted address := by
  have same : ∀ other ∈ view.prefixes,
      (other.containsPrefix cidr ↔ other.containsAddress address) := by
    intro other member
    constructor
    · exact fun inside => CidrPrefix.containsAddress_of_containsPrefix inside holds
    · intro inside
      exact (CidrPrefix.containsPrefix_iff_containsAddress holds
        (longest other member inside)).mpr inside
  rw [blockSelects_iff, InBlock, same allow isAllow]
  constructor
  · intro selected
    exact ⟨selected.1, fun hole member inside =>
      selected.2 hole member ((same hole (areHoles hole member)).mpr inside)⟩
  · intro selected
    exact ⟨selected.1, fun hole member inside =>
      selected.2 hole member ((same hole (areHoles hole member)).mp inside)⟩

theorem addressIdentity_of_external (external : External view gateways address) :
    (addressIdentity (compile view gateways).ipcache address = Datapath.world ∧
        ∀ cidr ∈ view.prefixes, ¬cidr.containsAddress address) ∨
      ∃ (cidr : CidrPrefix) (id : U32), view.cidrs[cidr]? = some id ∧
        cidr.containsAddress address ∧
        addressIdentity (compile view gateways).ipcache address = id ∧
        ∀ other ∈ view.prefixes, other.containsAddress address → other.length ≤ cidr.length := by
  have holding : ∀ cidr ∈ view.prefixes, cidr.containsAddress address →
      ∃ info, Holding (compile view gateways).ipcache address cidr info := by
    intro cidr member holds
    rcases exists_cidrs_iff.mpr member with ⟨id, held⟩
    exact ⟨identityInfo id, by rw [getElem?_ipcache_of_external external holds, held]; rfl, holds⟩
  rcases @addressIdentity_cases _ address (prefixKeyed_compile view gateways) with
    ⟨isWorld, missed⟩ | ⟨cidr, info, ⟨⟨held, holds⟩, longest⟩, equal⟩
  · refine .inl ⟨isWorld, fun cidr member holds => ?_⟩
    rcases holding cidr member holds with ⟨info, found⟩
    exact missed cidr info found
  · rw [getElem?_ipcache_of_external external holds, Option.map_eq_some_iff] at held
    rcases held with ⟨id, isBlock, rfl⟩
    refine .inr ⟨cidr, id, isBlock, holds, equal, fun other member inside => ?_⟩
    rcases holding other member inside with ⟨info, found⟩
    exact longest other info found

/-- What an ipBlock selects of outside addresses: the identity that the compiled cache
gives an address is among the block's exactly when the address is in the block. -/
theorem addressIdentity_mem_cidrPeer_iff (few : view.prefixes.toList.length < 2 ^ 24)
    {cidr : String} {except : List String} (named : (cidr, except) ∈ view.blocks)
    (parsed : parseBlock cidr except = some (allow, excepted))
    (external : External view gateways address) (policy : String) :
    addressIdentity (compile view gateways).ipcache address ∈
        ((view.compiler gateways).cidrPeer policy cidr except).value ↔
      allow.containsAddress address ∧ ∀ hole ∈ excepted, ¬hole.containsAddress address := by
  rcases mem_prefixes_of_blocks named parsed with ⟨isAllow, areHoles⟩
  rcases addressIdentity_of_external external with
    ⟨isWorld, missed⟩ | ⟨longest, id, isBlock, holds, equal, longer⟩
  · rw [isWorld]
    refine iff_of_false (world_not_mem_cidrPeer parsed fun _ _ => base_le_of_cidrs) ?_
    exact fun inside => missed allow isAllow inside.1
  · rw [equal, mem_cidrPeer_of_number parsed (base_le_of_cidrs isBlock)]
    have selected := blockSelects_iff_inBlock holds longer isAllow areHoles
    rw [InBlock] at selected
    rw [← selected]
    constructor
    · intro found
      rcases found with ⟨candidate, held, selects⟩
      rw [cidr_eq_of_number few isBlock held]
      exact selects
    · exact fun selects => ⟨longest, isBlock, selects⟩

end Outside

/-- Egress to `10.0.0.0/8` except `10.1.0.0/16`. -/
def tenView : View :=
  { webView with
    networkPolicies := [egressPolicy "ten" [ipBlockPeer "10.0.0.0/8" ["10.1.0.0/16"]]] }

theorem tenView_selects :
    addressIdentity (compile tenView []).ipcache (.v4 0x0A020304) ∈
      ((tenView.compiler []).cidrPeer "default/ten" "10.0.0.0/8" ["10.1.0.0/16"]).value := by
  have parsed : parseBlock "10.0.0.0/8" ["10.1.0.0/16"] =
      some (⟨.v4 0x0A000000, 8, by decide, by decide⟩,
        [⟨.v4 0x0A010000, 16, by decide, by decide⟩]) := by
    decide +kernel
  have external : External tenView [] (.v4 0x0A020304) := by
    refine ⟨fun pod _ _ hasIdentity => ?_, by simp [tenView, webView, View.remoteNodes],
      by simp [tenView, webView, View.hostAddresses]⟩
    simp [tenView, webView, View.podIdentity] at hasIdentity
  refine (addressIdentity_mem_cidrPeer_iff ?_ ?_ parsed external "default/ten").mpr (by decide)
  · decide +kernel
  · decide +kernel

end FlowSdn.Agent
