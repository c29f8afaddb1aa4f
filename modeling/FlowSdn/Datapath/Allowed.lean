import FlowSdn.Abi

/-! # The datapath's policy lookup

The remote identity of an address and the three-way lookup that decides a
packet: the identity's own entry, its aggregate's, then the wildcard's.
-/

namespace FlowSdn.Datapath

open Abi LongestPrefix

def host : U32 := 1
def world : U32 := 2
def aggregateCluster : U32 := 11
def aggregateClusterMesh : U32 := 12
def aggregateWorld : U32 := 13
def aggregateRemoteNode : U32 := 14
def maxPrecedence : U32 := BitVec.allOnes 32

/-- A parsed IP packet as the policy sees it. -/
structure Flow where
  key : PolicyCtKey := {}
  /-- The L4 destination port, 0 for other protocols. -/
  port : U16 := 0
  tcpFlags : U8 := 0
  /-- A fragment other than the first: no L4 header. -/
  fragment : Bool := false
  deriving DecidableEq

def enforced (row : PolicyEndpoint) (egress : U8) : Bool :=
  row.flags &&& (if egress ≠ 0#8 then enforceEgress else enforceIngress) ≠ 0#32

/-- The remote's security identity; an address the ipcache lacks is world. -/
def identity (ipcache : Trie RemoteEndpointInfo) (family : U8) (address : U128) : U32 :=
  let bits := if family = familyV4 then 64 else 160
  match Trie.lookup ipcache bits (ipcacheData 0 0 family address) with
  | some info => info.secIdentity
  | none => world

/-- The aggregate of an identity, with the cluster ID in bits 16-23 of a global one. -/
def aggregate (clusterId identity : U32) : U32 :=
  if identity = wildcard ∨ (aggregateCluster ≤ identity ∧ identity ≤ aggregateRemoteNode) then
    identity
  else if identity >>> 24 = 1 then aggregateWorld
  else if identity >>> 24 = 2 then aggregateRemoteNode
  else if identity < 100 then wildcard
  else if (identity >>> 16) &&& 0xff = clusterId then aggregateCluster
  else aggregateClusterMesh

/-- What the aggregate of another identity can be. -/
def groups : List U32 :=
  [wildcard, aggregateCluster, aggregateClusterMesh, aggregateWorld, aggregateRemoteNode]

theorem aggregate_cases (clusterId identity : U32) :
    aggregate clusterId identity = identity ∨ aggregate clusterId identity ∈ groups := by
  unfold aggregate
  split
  · exact .inl rfl
  · right
    repeat' split
    all_goals decide

/-- One policy lookup: the entry is zeroed on a miss. -/
structure Hit where
  found : Bool
  entry : PolicyEntry
  deriving DecidableEq

def Hit.miss : Hit where
  found := false
  entry := .default

def entry (policy : Trie PolicyEntry) (endpoint identity : U32) (egress : U8) (flow : Flow) :
    Hit :=
  match Trie.lookup policy endpointPolicyFullPrefix
      (policyData endpoint identity egress flow.key.protocol flow.port) with
  | some found => ⟨true, found⟩
  | none => .miss

/-- The winner of two hits by precedence, then L4 prefix length, and whether it
lets the packet through: an entry that requires authentication is never satisfied. -/
def winner (specific broader : Hit) : Bool :=
  if !specific.found && !broader.found then false
  else
    let (chosen, other) :=
      if !specific.found ||
          (broader.found &&
            (broader.entry.precedence > specific.entry.precedence ||
              (broader.entry.precedence == specific.entry.precedence &&
                broader.entry.lpmPrefixLength > specific.entry.lpmPrefixLength))) then
        (broader.entry, specific)
      else (specific.entry, broader)
    if chosen.denies then false
    else
      let auth :=
        if other.found && other.entry.precedence == chosen.precedence &&
            !chosen.hasExplicitAuthType && other.entry.authType > chosen.authType then
          other.entry.authType
        else chosen.authType
      auth == 0

def allowed (clusterId : U32) (policy : Trie PolicyEntry) (endpoint remote : U32)
    (egress : U8) (flow : Flow) : Bool :=
  let specific := entry policy endpoint remote egress flow
  if specific.found && specific.entry.precedence == maxPrecedence then
    !specific.entry.denies
  else
    let group := aggregate clusterId remote
    let broader := if group ≠ remote then entry policy endpoint group egress flow else .miss
    let broader :=
      if !broader.found && !specific.found && group ≠ wildcard then
        entry policy endpoint wildcard egress flow
      else broader
    winner specific broader

/-! ## Tries without authentication

Where no entry asks for authentication and exactly the denies have the maximal
precedence, a lookup is one of three answers and the packet's fate follows from
the answers of its identities.
-/

inductive Answer
  | miss
  | allow
  | deny
  deriving DecidableEq

def Hit.answer (hit : Hit) : Answer :=
  if hit.found then if hit.entry.denies then .deny else .allow else .miss

/-- What the answers for the identity, its aggregate and the wildcard say. -/
def settle (clusterId remote : U32) (answer : U32 → Answer) : Bool :=
  let group := aggregate clusterId remote
  match answer remote with
  | .deny => false
  | .allow => group = remote ∨ answer group ≠ .deny
  | .miss =>
      match if group = remote then .miss else answer group with
      | .deny => false
      | .allow => true
      | .miss => group ≠ wildcard ∧ answer wildcard = .allow

def Plain (value : PolicyEntry) : Prop :=
  value.auth = 0 ∧ (value.denies ↔ value.precedence = maxPrecedence)

def Hit.Plain (hit : Hit) : Prop := hit.found → Datapath.Plain hit.entry

theorem authType_of_plain {value : PolicyEntry} (plain : Plain value) : value.authType = 0 := by
  simp [PolicyEntry.authType, plain.1]

theorem precedence_lt_of_plain {value denying : PolicyEntry} (plain : Plain value)
    (allows : value.denies = false) (plainDenying : Plain denying)
    (denies : denying.denies = true) : value.precedence < denying.precedence := by
  have below : value.precedence ≠ maxPrecedence := fun equal => by
    rw [plain.2.mpr equal] at allows
    cases allows
  rw [plainDenying.2.mp denies]
  have bound := value.precedence.isLt
  have different : value.precedence.toNat ≠ maxPrecedence.toNat := fun equal =>
    below (BitVec.eq_of_toNat_eq equal)
  have top : maxPrecedence.toNat = 2 ^ 32 - 1 := rfl
  rw [BitVec.lt_def]
  omega

variable {hit : Hit} {clusterId remote : U32}

theorem Hit.answer_eq_miss : hit.answer = .miss ↔ hit.found = false := by
  cases found : hit.found <;> cases denies : hit.entry.denies <;> simp [answer, found, denies]

theorem Hit.answer_eq_allow :
    hit.answer = .allow ↔ hit.found = true ∧ hit.entry.denies = false := by
  cases found : hit.found <;> cases denies : hit.entry.denies <;> simp [answer, found, denies]

theorem Hit.answer_eq_deny : hit.answer = .deny ↔ hit.found = true ∧ hit.entry.denies = true := by
  cases found : hit.found <;> cases denies : hit.entry.denies <;> simp [answer, found, denies]

section Entry

variable {policy : Trie PolicyEntry} {endpoint identity : U32} {egress : U8} {flow : Flow}

theorem entry_of_lookup_none (missed : Trie.lookup policy endpointPolicyFullPrefix
      (policyData endpoint identity egress flow.key.protocol flow.port) = none) :
    entry policy endpoint identity egress flow = .miss := by
  rw [entry, missed]

theorem entry_of_lookup_some {value : PolicyEntry}
    (found : Trie.lookup policy endpointPolicyFullPrefix
      (policyData endpoint identity egress flow.key.protocol flow.port) = some value) :
    entry policy endpoint identity egress flow = ⟨true, value⟩ := by
  rw [entry, found]

theorem answer_cases (policy : Trie PolicyEntry) (endpoint identity : U32) (egress : U8)
    (flow : Flow) :
    (Trie.lookup policy endpointPolicyFullPrefix
          (policyData endpoint identity egress flow.key.protocol flow.port) = none ∧
        (entry policy endpoint identity egress flow).answer = .miss) ∨
      ∃ value, Trie.lookup policy endpointPolicyFullPrefix
            (policyData endpoint identity egress flow.key.protocol flow.port) = some value ∧
          (entry policy endpoint identity egress flow).answer =
            if value.denies then .deny else .allow := by
  cases looked : Trie.lookup policy endpointPolicyFullPrefix
      (policyData endpoint identity egress flow.key.protocol flow.port) with
  | none => exact .inl ⟨rfl, by rw [entry_of_lookup_none looked]; rfl⟩
  | some value => exact .inr ⟨value, rfl, by rw [entry_of_lookup_some looked]; rfl⟩

end Entry

theorem winner_eq {specific broader : Hit} (specificPlain : specific.Plain)
    (broaderPlain : broader.Plain) (notDenied : specific.answer ≠ .deny) :
    winner specific broader =
      match specific.answer, broader.answer with
      | _, .deny => false
      | .allow, _ => true
      | _, .allow => true
      | _, _ => false := by
  cases answer : specific.answer with
  | deny => exact absurd answer notDenied
  | miss =>
      have missed := Hit.answer_eq_miss.mp answer
      cases broaderAnswer : broader.answer with
      | miss => simp [winner, missed, Hit.answer_eq_miss.mp broaderAnswer]
      | deny =>
          rcases Hit.answer_eq_deny.mp broaderAnswer with ⟨found, denies⟩
          simp [winner, missed, found, denies]
      | allow =>
          rcases Hit.answer_eq_allow.mp broaderAnswer with ⟨found, allows⟩
          simp [winner, missed, found, allows, authType_of_plain (broaderPlain found)]
  | allow =>
      rcases Hit.answer_eq_allow.mp answer with ⟨found, allows⟩
      have plain := specificPlain found
      cases broaderAnswer : broader.answer with
      | miss =>
          simp [winner, found, allows, Hit.answer_eq_miss.mp broaderAnswer, authType_of_plain plain]
      | deny =>
          rcases Hit.answer_eq_deny.mp broaderAnswer with ⟨broaderFound, denies⟩
          have above := precedence_lt_of_plain plain allows (broaderPlain broaderFound) denies
          simp [winner, found, broaderFound, denies, above]
      | allow =>
          rcases Hit.answer_eq_allow.mp broaderAnswer with ⟨broaderFound, broaderAllows⟩
          have broaderPlain := broaderPlain broaderFound
          simp only [winner, found, broaderFound]
          split
          · simp at *
          · split <;> simp [allows, broaderAllows, authType_of_plain plain,
              authType_of_plain broaderPlain]

theorem Hit.plain_miss : Hit.miss.Plain := by
  simp [Hit.Plain, Hit.miss]

theorem Hit.answer_miss : Hit.miss.answer = .miss := rfl

theorem allowed_eq_settle {policy : Trie PolicyEntry} {endpoint : U32} {egress : U8} {flow : Flow}
    (plain : ∀ identity, (entry policy endpoint identity egress flow).Plain) :
    allowed clusterId policy endpoint remote egress flow =
      settle clusterId remote fun identity =>
        (entry policy endpoint identity egress flow).answer := by
  cases answer : (entry policy endpoint remote egress flow).answer with
  | deny =>
      rcases Hit.answer_eq_deny.mp answer with ⟨found, denies⟩
      have top := (plain remote found).2.mp denies
      simp [allowed, settle, answer, found, denies, top]
  | allow =>
      rcases Hit.answer_eq_allow.mp answer with ⟨found, allows⟩
      have below : (entry policy endpoint remote egress flow).entry.precedence ≠
          maxPrecedence := fun equal => by
        rw [(plain remote found).2.mpr equal] at allows
        cases allows
      have notDenied : (entry policy endpoint remote egress flow).answer ≠ .deny := by
        simp [answer]
      by_cases same : aggregate clusterId remote = remote
      · simp [allowed, settle, answer, found, below, same, Hit.answer_miss,
          winner_eq (plain remote) Hit.plain_miss notDenied]
      · have decided :=
          winner_eq (plain remote) (plain (aggregate clusterId remote)) notDenied
        cases broader : (entry policy endpoint (aggregate clusterId remote) egress flow).answer <;>
          simp [allowed, settle, answer, found, below, same, broader, decided]
  | miss =>
      have missed := Hit.answer_eq_miss.mp answer
      have notDenied : (entry policy endpoint remote egress flow).answer ≠ .deny := by
        simp [answer]
      have last := winner_eq (plain remote) (plain wildcard) notDenied
      have nothing := winner_eq (plain remote) Hit.plain_miss notDenied
      by_cases same : aggregate clusterId remote = remote
      · by_cases zero : remote = wildcard
        · subst zero
          simp [allowed, settle, answer, missed, same, nothing, Hit.answer_miss]
        · cases lastAnswer : (entry policy endpoint wildcard egress flow).answer <;>
            simp [allowed, settle, answer, missed, same, zero, lastAnswer, last, Hit.miss]
      · have decided :=
          winner_eq (plain remote) (plain (aggregate clusterId remote)) notDenied
        cases broader : (entry policy endpoint (aggregate clusterId remote) egress flow).answer with
        | miss =>
            have broaderMissed := Hit.answer_eq_miss.mp broader
            by_cases zero : aggregate clusterId remote = wildcard
            · rw [zero] at same broader broaderMissed
              simp [allowed, settle, answer, missed, zero, same, broader, broaderMissed, last]
            · cases lastAnswer : (entry policy endpoint wildcard egress flow).answer <;>
                simp [allowed, settle, answer, missed, same, broader, broaderMissed, zero,
                  lastAnswer, last]
        | allow =>
            have found := (Hit.answer_eq_allow.mp broader).1
            simp [allowed, settle, answer, missed, same, broader, found, decided]
        | deny =>
            have found := (Hit.answer_eq_deny.mp broader).1
            simp [allowed, settle, answer, missed, same, broader, found, decided]

/-! ## Rules behind the answers -/

/-- The answers speak for rules: `allowAt` and `denyAt` say for which identities a
rule matches the packet. A deny may come from the wildcard's rules, an allow has
seen them, and a miss leaves only an allow that the wildcard denies. -/
structure SpeaksFor (answer : U32 → Answer) (allowAt denyAt : U32 → Prop) : Prop where
  deny : ∀ identity, answer identity = .deny → denyAt identity ∨ denyAt wildcard
  allow : ∀ identity, answer identity = .allow →
    allowAt identity ∧ ¬denyAt identity ∧ ¬denyAt wildcard
  miss : ∀ identity, answer identity = .miss →
    ¬denyAt identity ∧ (allowAt identity → denyAt wildcard)

def Consulted (clusterId remote identity : U32) : Prop :=
  identity = remote ∨ identity = aggregate clusterId remote ∨ identity = wildcard

theorem exists_consulted {holds : U32 → Prop} :
    (∃ identity, Consulted clusterId remote identity ∧ holds identity) ↔
      holds remote ∨ holds (aggregate clusterId remote) ∨ holds wildcard := by
  simp [Consulted, or_and_right, exists_or]

theorem settle_iff {answer : U32 → Answer}
    {allowAt denyAt : U32 → Prop} (speaks : SpeaksFor answer allowAt denyAt) :
    settle clusterId remote answer ↔
      (allowAt remote ∨ allowAt (aggregate clusterId remote) ∨ allowAt wildcard) ∧
        ¬(denyAt remote ∨ denyAt (aggregate clusterId remote) ∨ denyAt wildcard) := by
  have group := speaks.deny (aggregate clusterId remote)
  cases specific : answer remote with
  | deny =>
      have denied := speaks.deny remote specific
      simp only [settle, specific]
      tauto
  | allow =>
      have allows := speaks.allow remote specific
      by_cases same : aggregate clusterId remote = remote
      · simp only [settle, specific, same]
        tauto
      · cases broader : answer (aggregate clusterId remote) with
        | deny =>
            simp [settle, specific, same, broader]
            tauto
        | allow =>
            have broaderAllows := speaks.allow _ broader
            simp [settle, specific, same, broader]
            tauto
        | miss =>
            have broaderMisses := speaks.miss _ broader
            simp [settle, specific, same, broader]
            tauto
  | miss =>
      have misses := speaks.miss remote specific
      have last : ∀ broaderMisses : ¬denyAt (aggregate clusterId remote) ∧
            (allowAt (aggregate clusterId remote) → denyAt wildcard),
          decide (aggregate clusterId remote ≠ wildcard ∧ answer wildcard = .allow) ↔
            (allowAt remote ∨ allowAt (aggregate clusterId remote) ∨ allowAt wildcard) ∧
              ¬(denyAt remote ∨ denyAt (aggregate clusterId remote) ∨ denyAt wildcard) := by
        intro broaderMisses
        by_cases zero : aggregate clusterId remote = wildcard
        · rw [zero] at broaderMisses ⊢
          simp
          tauto
        · cases wild : answer wildcard with
          | deny =>
              have denied := speaks.deny _ wild
              simp [zero]
              tauto
          | allow =>
              have allows := speaks.allow _ wild
              simp [zero]
              tauto
          | miss =>
              have wildMisses := speaks.miss _ wild
              simp [zero]
              tauto
      by_cases same : aggregate clusterId remote = remote
      · have decided := last (by rw [same]; exact misses)
        simpa [settle, specific, same] using decided
      · cases broader : answer (aggregate clusterId remote) with
        | deny =>
            simp [settle, specific, same, broader]
            tauto
        | allow =>
            have broaderAllows := speaks.allow _ broader
            simp [settle, specific, same, broader]
            tauto
        | miss =>
            have decided := last (speaks.miss _ broader)
            simpa [settle, specific, same, broader] using decided

end FlowSdn.Datapath
