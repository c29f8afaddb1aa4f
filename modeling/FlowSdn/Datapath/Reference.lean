import FlowSdn.Agent.DenyWins
import FlowSdn.Policy.KernelPrepare

/-! # The datapath's verdict is the reference scan's

Canonical records of distinct keys, loaded into the policy trie under one
endpoint: the datapath lets a packet through exactly when the scan allows it
and asks for no authentication.
-/

namespace FlowSdn.Datapath

open Abi Identity LongestPrefix OrderedMap Words Agent Policy Policy.KernelMap

def written (endpoint : U32) (record : Record) : TrieKey × PolicyEntry :=
  ((EndpointPolicyKey.forEndpoint endpoint record.key).toBytes, record.entry)

def loaded (others : Trie PolicyEntry) (endpoint : U32) (records : List Record) :
    Trie PolicyEntry :=
  insertAll others (records.map (written endpoint))

def Flow.packet (flow : Flow) (remote : U32) (egress : Bool) : Oracle.Packet :=
  ⟨remote, egress, flow.key.protocol, flow.port⟩

/-! ## The aggregate -/

theorem cluster_eq_iff (value : U32) (cluster : U16) :
    (value >>> 16 &&& 0xff).setWidth 16 = cluster ↔
      value >>> 16 &&& 0xff = cluster.setWidth 32 := by
  have small : (value >>> 16 &&& 0xff).toNat ≤ 255 := by
    rw [BitVec.toNat_and]
    exact Nat.and_le_right
  have bound := cluster.isLt
  rw [← BitVec.toNat_inj, ← BitVec.toNat_inj, BitVec.toNat_setWidth, BitVec.toNat_setWidth,
    Nat.mod_eq_of_lt (by omega), Nat.mod_eq_of_lt (by omega)]

theorem aggregateScope_standard (remote : NumericIdentity) (cluster : U16)
    (notGroup : ¬(remote.value = wildcard ∨
      (aggregateCluster ≤ remote.value ∧ remote.value ≤ aggregateRemoteNode))) :
    ∃ reserved, ClusterEncoding.standard.aggregateScope remote cluster = .ok reserved ∧
      reserved.number = aggregate (cluster.setWidth 32) remote.value := by
  rw [aggregate, if_neg notGroup]
  by_cases isGlobal : remote.value >>> 24 = 0
  · have scope : remote.scope = .global := if_pos isGlobal
    have notLocal : ¬remote.value >>> 24 = 1 := by rw [isGlobal]; decide
    have notRemote : ¬remote.value >>> 24 = 2 := by rw [isGlobal]; decide
    have clusterOf : ClusterEncoding.standard.globalClusterId remote =
        .ok ((remote.value >>> 16 &&& 0xff).setWidth 16) := by
      rw [ClusterEncoding.globalClusterId, if_neg (not_not.mpr scope)]
      rfl
    rw [if_neg notLocal, if_neg notRemote, ClusterEncoding.aggregateScope, scope]
    simp only [clusterOf]
    by_cases reserved : remote.value < 100
    · exact ⟨_, if_pos reserved, by rw [if_pos reserved]; rfl⟩
    · refine ⟨_, if_neg reserved, ?_⟩
      rw [if_neg reserved]
      by_cases same : remote.value >>> 16 &&& 0xff = cluster.setWidth 32
      · rw [if_pos ((cluster_eq_iff _ _).mpr same), if_pos same]
        rfl
      · rw [if_neg (fun equal => same ((cluster_eq_iff _ _).mp equal)), if_neg same]
        rfl
  · rcases (remote.valid.resolve_left isGlobal).1 with isLocal | isRemote
    · have scope : remote.scope = .nodeLocal := by
        rw [NumericIdentity.scope, if_neg isGlobal, if_pos isLocal]
      refine ⟨.aggregateWorld, ?_, ?_⟩
      · rw [ClusterEncoding.aggregateScope, scope]
      · rw [if_pos isLocal]
        rfl
    · have notLocal : ¬remote.value >>> 24 = 1 := by rw [isRemote]; decide
      have scope : remote.scope = .remoteNode := by
        rw [NumericIdentity.scope, if_neg isGlobal, if_neg notLocal]
      refine ⟨.aggregateRemoteNode, ?_, ?_⟩
      · rw [ClusterEncoding.aggregateScope, scope]
      · rw [if_neg notLocal, if_pos isRemote]
        rfl

/-- Under the standard encoding the datapath computes the reference aggregate. -/
theorem aggregateFor_standard (remote : NumericIdentity) {cluster : U16}
    (within : cluster ≤ 255#16) :
    ∃ reserved, ClusterEncoding.standard.aggregateFor remote cluster = .ok reserved ∧
      reserved.number = aggregate (cluster.setWidth 32) remote.value := by
  have validated : ClusterEncoding.standard.validateCluster cluster = .ok () :=
    if_neg (BitVec.not_lt.mpr within)
  unfold ClusterEncoding.aggregateFor
  rw [validated]
  simp only
  split_ifs with zero eleven twelve thirteen fourteen
  · exact ⟨_, rfl, by rw [zero]; rfl⟩
  · exact ⟨_, rfl, by rw [eleven]; rfl⟩
  · exact ⟨_, rfl, by rw [twelve]; rfl⟩
  · exact ⟨_, rfl, by rw [thirteen]; rfl⟩
  · exact ⟨_, rfl, by rw [fourteen]; rfl⟩
  · apply aggregateScope_standard
    intro group
    rcases group with isWildcard | ⟨atLeast, atMost⟩
    · exact zero isWildcard
    · have low : 11 ≤ remote.value.toNat := atLeast
      have high : remote.value.toNat ≤ 14 := atMost
      have different : ∀ number : U32, remote.value ≠ number →
          remote.value.toNat ≠ number.toNat := fun number notEqual equal =>
        notEqual (BitVec.eq_of_toNat_eq equal)
      have not11 : remote.value.toNat ≠ 11 := different 11 eleven
      have not12 : remote.value.toNat ≠ 12 := different 12 twelve
      have not13 : remote.value.toNat ≠ 13 := different 13 thirteen
      have not14 : remote.value.toNat ≠ 14 := different 14 fourteen
      omega

section Lookup

variable (others : Trie PolicyEntry) (endpoint : U32) {records : List Record} {egress : Bool}

variable {record : Record} {flow : Flow} {identity remote : U32}

theorem written_eq (sound : Sound record) :
    written endpoint record = (record.l4.bytes endpoint record.egress, record.entry) := by
  have short := HostKey.length_le sound.key
  have length := sound.length
  have lengths : saturatingAdd record.key.prefixlen 32#32 =
      BitVec.ofNat 32 record.l4.length := by
    apply BitVec.eq_of_toNat_eq
    rw [HostKey.toNat_length sound.key, toNat_saturatingAdd] <;> rw [BitVec.toNat_ofNat] <;> omega
  simp only [written, EndpointPolicyKey.toBytes, EndpointPolicyKey.forEndpoint, lengths,
    HostKey.bytes, sound.egress]
  rfl

theorem covers_written (sound : Sound record) :
    Trie.covers endpointPolicyFullPrefix
        (policyData endpoint identity (bit egress) flow.key.protocol flow.port)
        (written endpoint record).1 ↔ record.matches (flow.packet remote egress) identity := by
  rw [written_eq endpoint sound, covers_bytes sound.key, sound.matches_iff]
  constructor
  · intro covering
    rcases covering with ⟨_, identities, directions, l4⟩
    exact ⟨identities, bit_injective directions, l4⟩
  · intro matched
    rcases matched with ⟨identities, directions, l4⟩
    exact ⟨rfl, identities, congrArg bit directions, l4⟩

theorem keyLength_written (sound : Sound record) :
    Trie.keyLength (written endpoint record).1 = record.key.prefixlen.toNat + 32 := by
  rw [written_eq endpoint sound, HostKey.bytes, Trie.keyLength_encode,
    HostKey.toNat_length sound.key, sound.length]

theorem record_of_covers (foreign : Foreign others endpoint egress)
    (sound : ∀ record ∈ records, Sound record) {bytes : TrieKey} {value : PolicyEntry}
    (held : (loaded others endpoint records)[bytes]? = some value)
    (covering : Trie.covers endpointPolicyFullPrefix
      (policyData endpoint identity (bit egress) flow.key.protocol flow.port) bytes) :
    ∃ record ∈ records, written endpoint record = (bytes, value) ∧
      record.matches (flow.packet remote egress) identity := by
  rcases getElem?_insertAll_eq_some held with member | ⟨_, elsewhere⟩
  · rcases List.mem_map.mp member with ⟨record, inRecords, equal⟩
    have bytesOf : (written endpoint record).1 = bytes := congrArg Prod.fst equal
    rw [← bytesOf] at covering
    exact ⟨record, inRecords, equal, (covers_written endpoint (sound record inRecords)).mp covering⟩
  · exact absurd ⟨_, _, _, covering⟩ (foreign bytes (by simp [elsewhere]))

theorem held_of_record (sound : ∀ record ∈ records, Sound record)
    (distinct : records.Pairwise (·.key ≠ ·.key)) (member : record ∈ records)
    (matched : record.matches (flow.packet remote egress) identity) :
    (loaded others endpoint records)[(written endpoint record).1]? = some record.entry := by
  have isPair : ((written endpoint record).1, record.entry) ∈ records.map (written endpoint) :=
    List.mem_map_of_mem member
  apply getElem?_insertAll_of_mem isPair
  intro other inPairs
  rcases List.mem_map.mp inPairs with ⟨rival, inRecords, equal⟩
  have bytes : (written endpoint rival).1 = (written endpoint record).1 := by rw [equal]
  have rivalMatched : rival.matches (flow.packet remote egress) identity := by
    rw [← covers_written endpoint (sound rival inRecords), bytes,
      covers_written endpoint (sound record member)]
    exact matched
  have lengths : rival.key.prefixlen.toNat = record.key.prefixlen.toNat := by
    have rivalLength := keyLength_written endpoint (sound rival inRecords)
    rw [bytes, keyLength_written endpoint (sound record member)] at rivalLength
    omega
  have keys := (sound rival inRecords).key_eq_of_prefixlen (sound record member) rivalMatched
    matched lengths
  have same : rival = record :=
    List.inj_on_of_nodup_map (List.pairwise_map.mpr distinct) inRecords member keys
  have entries : rival.entry = other := congrArg Prod.snd equal
  rw [← entries, same]

/-- A lookup of the endpoint finds the entry of the record that the scan finds. -/
theorem lookup_loaded (foreign : Foreign others endpoint egress)
    (sound : ∀ record ∈ records, Sound record)
    (distinct : records.Pairwise (·.key ≠ ·.key)) (identity remote : U32) (flow : Flow) :
    Trie.lookup (loaded others endpoint records) endpointPolicyFullPrefix
        (policyData endpoint identity (bit egress) flow.key.protocol flow.port) =
      (best records (flow.packet remote egress) identity).map Record.entry := by
  cases found : best records (flow.packet remote egress) identity with
  | none =>
      rw [Option.map_none, Trie.lookup, Option.map_eq_none_iff, longest_eq_none_iff]
      intro bytes value held
      by_contra covering
      rcases record_of_covers others endpoint foreign sound held (by simpa using covering) with
        ⟨record, member, _, matched⟩
      rw [best_eq_none found record member] at matched
      cases matched
  | some record =>
      have isBest := isBest_of_best found
      have recordSound := sound record isBest.member
      have covering := (covers_written endpoint recordSound).mpr isBest.matched
      have held := held_of_record others endpoint sound distinct isBest.member isBest.matched
      rw [Trie.lookup, longest_eq_some held covering]
      · rfl
      · intro bytes value otherHeld otherCovers
        rcases record_of_covers others endpoint foreign sound otherHeld otherCovers with
          ⟨rival, member, equal, matched⟩
        have bytesOf : (written endpoint rival).1 = bytes := congrArg Prod.fst equal
        have atMost := isBest.longest rival member matched
        rw [← bytesOf, keyLength_written endpoint (sound rival member),
          keyLength_written endpoint recordSound]
        by_cases same : rival.key.prefixlen.toNat = record.key.prefixlen.toNat
        · have keys := (sound rival member).key_eq_of_prefixlen recordSound matched
            isBest.matched same
          exact .inl (by rw [written, written, keys])
        · exact .inr (by omega)

end Lookup

/-! ## Verdicts -/

def Hit.of : Option PolicyEntry → Hit
  | none => .miss
  | some value => ⟨true, value⟩

def passes : Outcome → Bool
  | .allow _ authentication _ => authentication == 0#8
  | _ => false

theorem passes_iff {outcome : Outcome} :
    passes outcome = true ↔ ∃ proxyPort cookie, outcome = .allow proxyPort 0#8 cookie := by
  cases outcome with
  | miss => simp [passes]
  | deny => simp [passes]
  | allow proxyPort authentication cookie =>
      simp only [passes, beq_iff_eq, Outcome.allow.injEq]
      constructor
      · intro none
        exact ⟨proxyPort, cookie, rfl, none, rfl⟩
      · intro equal
        rcases equal with ⟨_, _, _, none, _⟩
        exact none

theorem entry_eq_of (policy : Trie PolicyEntry) (endpoint identity : U32) (egress : U8)
    (flow : Flow) :
    entry policy endpoint identity egress flow =
      .of (Trie.lookup policy endpointPolicyFullPrefix
        (policyData endpoint identity egress flow.key.protocol flow.port)) := by
  cases found : Trie.lookup policy endpointPolicyFullPrefix
      (policyData endpoint identity egress flow.key.protocol flow.port) with
  | none => exact entry_of_lookup_none found
  | some value => exact entry_of_lookup_some found

theorem inherited_eq (chosen other : PolicyEntry) :
    inherited chosen other =
      if other.precedence = chosen.precedence ∧ chosen.hasExplicitAuthType = false ∧
          chosen.authType < other.authType then other.authType
      else chosen.authType := by
  unfold inherited stronger
  by_cases explicit : chosen.hasExplicitAuthType = true
  · simp [explicit]
  · by_cases same : other.precedence = chosen.precedence
    · rcases BitVec.lt_trichotomy chosen.authType other.authType with below | equal | above
      · simp [explicit, same, below, BitVec.le_of_lt below]
      · simp [explicit, same, equal]
      · simp [explicit, same, BitVec.not_le.mpr above, BitVec.not_lt.mpr (BitVec.le_of_lt above)]
    · simp [explicit, same]

theorem passes_settled (chosen other : PolicyEntry) :
    passes (settled chosen other) = (!chosen.denies && inherited chosen other == 0#8) := by
  cases denies : chosen.denies <;> simp [passes, settled, denies]

theorem winner_pair (own wide : PolicyEntry) :
    winner ⟨true, own⟩ ⟨true, wide⟩ =
      if wide.precedence > own.precedence ∨
          (wide.precedence = own.precedence ∧ wide.lpmPrefixLength > own.lpmPrefixLength) then
        passes (settled wide own)
      else passes (settled own wide) := by
  rw [passes_settled, passes_settled, inherited_eq, inherited_eq]
  by_cases above : wide.precedence > own.precedence ∨
      (wide.precedence = own.precedence ∧ wide.lpmPrefixLength > own.lpmPrefixLength)
  · rw [if_pos above]
    cases denies : wide.denies <;> simp [winner, denies, above, and_assoc]
  · rw [if_neg above]
    cases denies : own.denies <;> simp [winner, denies, above, and_assoc]

/-- The datapath's choice between two hits lets through what the index's does. -/
theorem winner_eq_settle (specific broader : Option PolicyEntry) :
    winner (.of specific) (.of broader) =
      passes (Index.settle (candidatesOf specific broader)) := by
  cases specific with
  | none =>
      cases broader with
      | none => rfl
      | some wide =>
          cases denies : wide.denies <;>
            simp [winner, Hit.of, Hit.miss, candidatesOf, settle_singleton, passes, denies]
  | some own =>
      cases broader with
      | none =>
          cases denies : own.denies <;>
            simp [winner, Hit.of, Hit.miss, candidatesOf, settle_singleton, passes, denies]
      | some wide =>
          have candidates : candidatesOf (some own) (some wide) =
              [(wide, false), (own, true)] := rfl
          have order : Index.noLater (wide, false) (own, true) ↔
              ¬(wide.precedence > own.precedence ∨
                (wide.precedence = own.precedence ∧
                  wide.lpmPrefixLength > own.lpmPrefixLength)) := by
            simp only [Index.noLater, gt_iff_lt, BitVec.lt_def, BitVec.toNat_inj.symm,
              Bool.false_eq_true, false_implies, and_true]
            omega
          rw [candidates, settle_pair, Hit.of, Hit.of, winner_pair]
          by_cases above : wide.precedence > own.precedence ∨
              (wide.precedence = own.precedence ∧
                wide.lpmPrefixLength > own.lpmPrefixLength)
          · rw [if_pos above, if_neg (fun earlier => order.mp earlier above)]
          · rw [if_neg above, if_pos (order.mpr above)]

def standardContext (cluster : U16) : Context := ⟨.standard, cluster⟩

theorem scan_eq_ok {records : List Record} (checked : ∀ record ∈ records, canonical record = .ok ())
    (distinct : records.Pairwise (·.key ≠ ·.key)) (remote : NumericIdentity) {cluster : U16}
    (within : cluster ≤ 255#16) (flow : Flow) (egress : Bool) :
    scan records (standardContext cluster) (flow.packet remote.value egress) =
      .ok (scanAt records (flow.packet remote.value egress)
        (aggregate (cluster.setWidth 32) remote.value)) := by
  rcases aggregateFor_standard remote within with ⟨reserved, aggregated, number⟩
  have group : (standardContext cluster).aggregate remote.value =
      .ok (aggregate (cluster.setWidth 32) remote.value) := by
    rw [Context.aggregate, remote.new_value]
    simp only [standardContext, aggregated, number]
  have identity : (flow.packet remote.value egress).identity = remote.value := rfl
  have passed : checkRecords [] records = .ok () :=
    checkRecords_eq_ok.mpr ⟨checked, List.pairwise_map.mpr distinct, by simp⟩
  rw [scan, passed]
  simp only [identity, group]

theorem of_broader {records : List Record} {packet : Oracle.Packet} {group : U32} {hit : U32 → Hit}
    (looked : ∀ identity, hit identity = .of ((best records packet identity).map Record.entry)) :
    (if !(if group ≠ packet.identity then hit group else .miss).found &&
          !(hit packet.identity).found && group ≠ wildcard then hit wildcard
        else if group ≠ packet.identity then hit group else .miss) =
      .of ((broader records packet group).map Record.entry) := by
  simp only [looked, broader]
  by_cases same : group = packet.identity
  · cases best records packet packet.identity with
    | none => by_cases zero : packet.identity = wildcard <;> simp [same, zero, Hit.of, Hit.miss]
    | some own => simp [same, Hit.of, Hit.miss]
  · cases best records packet packet.identity with
    | none =>
        cases best records packet group with
        | none => by_cases zero : group = wildcard <;> simp [same, zero, Hit.of, Hit.miss]
        | some wide => simp [same, Hit.of]
    | some own => simp [same, Hit.of]

theorem conclude_of_top {own : Record} (sound : Sound own)
    (top : own.entry.precedence = BitVec.allOnes 32) (other : Option Record) :
    conclude (some own) other = .deny := by
  have denies := sound.denies_of_top top
  cases other <;> simp [conclude, choose, Record.outcome, top, denies]

theorem allowed_loaded {others : Trie PolicyEntry} {endpoint : U32} {records : List Record}
    {egress : Bool} (foreign : Foreign others endpoint egress)
    (sound : ∀ record ∈ records, Sound record)
    (distinct : records.Pairwise (·.key ≠ ·.key)) (clusterId remote : U32) (flow : Flow) :
    allowed clusterId (loaded others endpoint records) endpoint remote (bit egress) flow =
      passes (scanAt records (flow.packet remote egress) (aggregate clusterId remote)) := by
  have looked : ∀ identity,
      entry (loaded others endpoint records) endpoint identity (bit egress) flow =
        .of ((best records (flow.packet remote egress) identity).map Record.entry) := by
    intro identity
    rw [entry_eq_of, lookup_loaded others endpoint foreign sound distinct identity remote]
  have broadest := @of_broader records (flow.packet remote egress) (aggregate clusterId remote) _
    looked
  have self : (flow.packet remote egress).identity = remote := rfl
  rw [self] at broadest
  have compared : winner (.of ((best records (flow.packet remote egress) remote).map Record.entry))
        (.of ((broader records (flow.packet remote egress) (aggregate clusterId remote)).map
          Record.entry)) =
      passes (scanAt records (flow.packet remote egress) (aggregate clusterId remote)) := by
    rw [winner_eq_settle, scanAt, self,
      conclude_eq_settle (sound_of_best sound) (sound_of_broader sound)]
  unfold allowed
  simp only [broadest]
  rw [looked remote, compared]
  cases found : best records (flow.packet remote egress) remote with
  | none => rfl
  | some own =>
      by_cases top : own.entry.precedence = maxPrecedence
      · have ownSound := sound_of_best sound own found
        have denies := ownSound.denies_of_top top
        rw [scanAt, self, found, conclude_of_top ownSound top]
        simp [Hit.of, top, denies, passes]
      · simp [Hit.of, top]

/-- The datapath lets a packet through exactly when the reference scan allows it
without authentication. -/
theorem allowed_iff_scan {others : Trie PolicyEntry} {endpoint : U32} {records : List Record}
    {egress : Bool} (foreign : Foreign others endpoint egress)
    (checked : ∀ record ∈ records, canonical record = .ok ())
    (distinct : records.Pairwise (·.key ≠ ·.key)) (cluster : U16) (within : cluster ≤ 255#16)
    (remote : NumericIdentity) (flow : Flow) :
    allowed (cluster.setWidth 32) (loaded others endpoint records) endpoint remote.value
        (bit egress) flow = true ↔
      ∃ proxyPort cookie,
        scan records (standardContext cluster) (flow.packet remote.value egress) =
          .ok (.allow proxyPort 0#8 cookie) := by
  have sound : ∀ record ∈ records, Sound record := fun record member =>
    sound_of_canonical (checked record member)
  rw [allowed_loaded foreign sound distinct, passes_iff, scan_eq_ok checked distinct remote within]
  simp only [Except.ok.injEq]

/-- One endpoint's records: every identity may reach TCP 80, and identity 1000 may
not. -/
def webRecords : List Record :=
  [⟨⟨64, 0, 0, 6, 80⟩, ⟨0, 0xc0, 0, 1, 0⟩, "web"⟩,
    ⟨⟨64, 1000, 0, 6, 80⟩, ⟨0, 0xc1, 0, 0xffffffff, 0⟩, "blocked"⟩]

theorem webRecords_agree :
    allowed 1 (loaded ∅ 7 webRecords) 7 1001 (bit false)
        { key := { protocol := 6 }, port := 80 } = true ↔
      ∃ proxyPort cookie, scan webRecords (standardContext 1)
            (Flow.packet { key := { protocol := 6 }, port := 80 } 1001 false) =
          .ok (.allow proxyPort 0#8 cookie) :=
  @allowed_iff_scan ∅ 7 webRecords false (by intro bytes held; simp at held)
    (by simp only [webRecords, List.forall_mem_cons]; decide) (by decide) 1 (by decide)
    ⟨1001, .inl (by decide)⟩ { key := { protocol := 6 }, port := 80 }

end FlowSdn.Datapath
