import FlowSdn.Agent.Compiled

/-! # What a Pod's rules mean

A rule matches a packet when its peers select one of the identities the datapath consults and its
ports hold the packet's, and the keys of a rule say exactly that.
-/

namespace FlowSdn.Agent

open Abi Policy Words LongestPrefix OrderedMap Datapath Net Reported HostPolicy

def EntryHolds (entry : K8s.Entry) (flow : Flow) : Prop :=
  entry.l4 = none ∨
    ∃ ports, entry.l4 = some ports ∧ ∃ rule ∈ ports, ∃ range, rule.numericRange = some range ∧
      rule.protocol.number = flow.key.protocol ∧ range.contains flow.port

def RuleHolds (rule : HostPolicy.Rule) (flow : Flow) : Prop :=
  rule.ports = [] ∨
    ∃ port ∈ rule.ports, port.1 = flow.key.protocol ∧ port.2.contains flow.port

/-- One of the identities that the datapath consults for a remote is selected. -/
def Selects (peers : BTreeSet U32) (clusterId remote : U32) : Prop :=
  ∃ identity, Consulted clusterId remote identity ∧ identity ∈ peers

namespace Compiler

def EntryMatches (compiler : Compiler) (clusterId remote : U32) (flow : Flow)
    (entry : String × K8s.Entry) : Prop :=
  entry.2.verdict = .allow ∧
    Selects (compiler.peers entry.1 entry.2).value clusterId remote ∧ EntryHolds entry.2 flow

def RuleMatches (compiler : Compiler) (clusterId remote : U32) (flow : Flow)
    (rule : HostPolicy.Rule) : Prop :=
  Selects (compiler.hostPeers rule.policy rule.peers).value clusterId remote ∧
    RuleHolds rule flow

end Compiler

/-! ## Keys of rules -/

theorem identity_of_mem_l4Keys {identity : U32} {protocol : U8} {range : PortRange}
    {key : HostKey} (member : key ∈ l4Keys identity protocol range) : key.identity = identity := by
  unfold l4Keys at member
  split at member
  · rw [List.mem_singleton.mp member]
  · rcases List.mem_map.mp member with ⟨block, _, equal⟩
    rw [← equal]

theorem exists_l4Keys_matches {peers : BTreeSet U32} {clusterId remote : U32} {protocol : U8}
    {range : PortRange} {flow : Flow} :
    (∃ identity ∈ peers, ∃ key ∈ l4Keys identity protocol range,
        Consulted clusterId remote key.identity ∧
          key.l4Matches flow.key.protocol flow.port) ↔
      Selects peers clusterId remote ∧
        (protocol = anyProtocol ∨ (protocol = flow.key.protocol ∧ range.contains flow.port)) := by
  constructor
  · intro found
    rcases found with ⟨identity, selected, key, member, consulted, matched⟩
    rw [identity_of_mem_l4Keys member] at consulted
    exact ⟨⟨identity, consulted, selected⟩, exists_mem_l4Keys_matches.mp ⟨key, member, matched⟩⟩
  · intro found
    rcases found with ⟨⟨identity, consulted, selected⟩, holds⟩
    rcases (@exists_mem_l4Keys_matches identity _ _ _ _).mpr holds with ⟨key, member, matched⟩
    refine ⟨identity, selected, key, member, ?_, matched⟩
    rw [identity_of_mem_l4Keys member]
    exact consulted

section Entries

variable {compiler : Compiler} {subject : PodInfo} {entry : String × K8s.Entry} {key : HostKey}

theorem mem_portRules {policy : String} {entry : K8s.Entry} {peers : BTreeSet U32}
    {rule : K8s.PortRule} (numeric : (Text.parseUnsigned 65536 rule.port).isSome)
    {triple : U32 × U8 × PortRange} :
    triple ∈ (compiler.portRules policy entry subject peers rule).value ↔
      triple.1 ∈ peers ∧ triple.2.1 = rule.protocol.number ∧
        rule.numericRange = some triple.2.2 := by
  rcases triple with ⟨identity, protocol, range⟩
  rcases Option.isSome_iff_exists.mp numeric with ⟨port, parsed⟩
  unfold Compiler.portRules K8s.PortRule.numericRange
  simp only [parsed, Option.bind_some]
  cases PortRange.fromApi (BitVec.ofNat 16 port) rule.endPort with
  | error error => simp [Except.toOption]
  | ok held =>
      simp only [value_pure, List.mem_map, Std.ExtTreeSet.mem_toList, Prod.mk.injEq,
        Except.toOption, Option.some.injEq]
      constructor
      · intro found
        rcases found with ⟨other, inside, rfl, rfl, rfl⟩
        exact ⟨inside, rfl, rfl⟩
      · intro found
        rcases found with ⟨inside, rfl, rfl⟩
        exact ⟨identity, inside, rfl, rfl, rfl⟩

theorem mem_entryKeys (numeric : K8s.NumericEntry entry.2) :
    key ∈ (compiler.entryKeys subject entry).value ↔
      entry.2.verdict = .allow ∧
        ∃ identity ∈ (compiler.peers entry.1 entry.2).value,
          (entry.2.l4 = none ∧ key ∈ l4Keys identity anyProtocol .any) ∨
            ∃ ports, entry.2.l4 = some ports ∧ ∃ rule ∈ ports, ∃ range,
              rule.numericRange = some range ∧
                key ∈ l4Keys identity rule.protocol.number range := by
  unfold Compiler.entryKeys
  by_cases allows : entry.2.verdict = .allow
  · rw [if_neg (by simpa using allows)]
    simp only [value_bind, value_pure, Compiler.rules, List.mem_flatMap, allows, true_and]
    cases ports : entry.2.l4 with
    | none => simp
    | some ports' =>
        have each := numeric ports' ports
        simp only [value_map, value_mapEach, List.mem_flatten, List.mem_map, reduceCtorEq,
          false_and, false_or, Option.some.injEq]
        constructor
        · intro found
          rcases found with ⟨triple, ⟨triples, ⟨rule, inside, rfl⟩, member⟩, isKey⟩
          rcases (mem_portRules (each rule inside)).mp member with ⟨selected, number, range⟩
          rw [number] at isKey
          exact ⟨triple.1, selected, ports', rfl, rule, inside, _, range, isKey⟩
        · intro found
          rcases found with ⟨identity, selected, _, rfl, rule, inside, range, valid, isKey⟩
          exact ⟨(identity, rule.protocol.number, range), ⟨_, ⟨rule, inside, rfl⟩,
            (mem_portRules (each rule inside)).mpr ⟨selected, rfl, valid⟩⟩, isKey⟩
  · simp [allows]

theorem canonical_of_mem_entryKeys (member : key ∈ (compiler.entryKeys subject entry).value) :
    key.Canonical := by
  unfold Compiler.entryKeys at member
  split at member
  · simp at member
  · simp only [value_bind, value_pure, List.mem_flatMap] at member
    rcases member with ⟨triple, _, isKey⟩
    exact canonical_of_mem_l4Keys isKey

theorem exists_mem_entryKeys_matches (numeric : K8s.NumericEntry entry.2)
    {clusterId remote : U32} {flow : Flow} :
    (∃ key ∈ (compiler.entryKeys subject entry).value,
        Consulted clusterId remote key.identity ∧
          key.l4Matches flow.key.protocol flow.port) ↔
      compiler.EntryMatches clusterId remote flow entry := by
  constructor
  · intro found
    rcases found with ⟨key, member, consulted, matched⟩
    rcases (mem_entryKeys numeric).mp member with ⟨allows, identity, selected, cases⟩
    rcases cases with ⟨noPorts, isKey⟩ | ⟨ports, some, rule, inside, range, valid, isKey⟩
    · have selects := (exists_l4Keys_matches.mp
        ⟨identity, selected, key, isKey, consulted, matched⟩).1
      exact ⟨allows, selects, .inl noPorts⟩
    · rcases exists_l4Keys_matches.mp ⟨identity, selected, key, isKey, consulted, matched⟩ with
        ⟨selects, holds⟩
      have held := holds.resolve_left (K8s.number_ne_anyProtocol rule.protocol)
      exact ⟨allows, selects, .inr ⟨ports, some, rule, inside, range, valid, held⟩⟩
  · intro found
    rcases found with ⟨allows, selects, noPorts | ⟨ports, some, rule, inside, range, valid, held⟩⟩
    · rcases (@exists_l4Keys_matches _ _ _ anyProtocol .any flow).mpr ⟨selects, .inl rfl⟩ with
        ⟨identity, selected, key, isKey, matched⟩
      exact ⟨key, (mem_entryKeys numeric).mpr
        ⟨allows, identity, selected, .inl ⟨noPorts, isKey⟩⟩, matched⟩
    · rcases exists_l4Keys_matches.mpr ⟨selects, .inr held⟩ with
        ⟨identity, selected, key, isKey, matched⟩
      exact ⟨key, (mem_entryKeys numeric).mpr
        ⟨allows, identity, selected, .inr ⟨ports, some, rule, inside, range, valid, isKey⟩⟩,
        matched⟩

end Entries

section Rules

variable {compiler : Compiler} {subject : PodInfo} {ingress : Bool} {rule : HostPolicy.Rule}
  {key : HostKey}

theorem mem_podRule (numeric : rule.named = []) :
    key ∈ (compiler.podRule rule ingress subject).value ↔
      ∃ identity ∈ (compiler.hostPeers rule.policy rule.peers).value,
        (rule.ports = [] ∧ key ∈ l4Keys identity anyProtocol .any) ∨
          ∃ port ∈ rule.ports, key ∈ l4Keys identity port.1 port.2 := by
  have any : ∀ identity, l4Keys identity anyProtocol .any =
      [⟨identity, anyProtocol, 0#16, 0#8⟩] := fun identity => if_pos rfl
  simp only [Compiler.podRule, value_bind, value_pure, List.mem_flatMap,
    Std.ExtTreeSet.mem_toList, numeric, List.isEmpty_nil, Bool.and_true, List.flatMap_nil,
    List.append_nil, List.mem_append, any]
  cases rule.ports with
  | nil => simp
  | cons port ports => simp

theorem canonical_of_mem_podRule (numeric : rule.named = [])
    (member : key ∈ (compiler.podRule rule ingress subject).value) : key.Canonical := by
  rcases (mem_podRule numeric).mp member with ⟨identity, _, ⟨_, isKey⟩ | ⟨port, _, isKey⟩⟩
  · exact canonical_of_mem_l4Keys isKey
  · exact canonical_of_mem_l4Keys isKey

theorem exists_mem_podRule_matches (numeric : rule.named = []) (transport : Transport rule.ports)
    {clusterId remote : U32} {flow : Flow} :
    (∃ key ∈ (compiler.podRule rule ingress subject).value,
        Consulted clusterId remote key.identity ∧
          key.l4Matches flow.key.protocol flow.port) ↔
      compiler.RuleMatches clusterId remote flow rule := by
  constructor
  · intro found
    rcases found with ⟨key, member, consulted, matched⟩
    rcases (mem_podRule numeric).mp member with
      ⟨identity, selected, ⟨noPorts, isKey⟩ | ⟨port, inside, isKey⟩⟩
    · have selects := (exists_l4Keys_matches.mp
        ⟨identity, selected, key, isKey, consulted, matched⟩).1
      exact ⟨selects, .inl noPorts⟩
    · rcases exists_l4Keys_matches.mp ⟨identity, selected, key, isKey, consulted, matched⟩ with
        ⟨selects, holds⟩
      exact ⟨selects, .inr ⟨port, inside, holds.resolve_left (transport port inside)⟩⟩
  · intro found
    rcases found with ⟨selects, noPorts | ⟨port, inside, held⟩⟩
    · rcases (@exists_l4Keys_matches _ _ _ anyProtocol .any flow).mpr ⟨selects, .inl rfl⟩ with
        ⟨identity, selected, key, isKey, matched⟩
      exact ⟨key, (mem_podRule numeric).mpr ⟨identity, selected, .inl ⟨noPorts, isKey⟩⟩, matched⟩
    · rcases exists_l4Keys_matches.mpr ⟨selects, .inr held⟩ with
        ⟨identity, selected, key, isKey, matched⟩
      exact ⟨key, (mem_podRule numeric).mpr
        ⟨identity, selected, .inr ⟨port, inside, isKey⟩⟩, matched⟩

end Rules

/-! ## Keys of a direction -/

def View.selectedRules (view : View) (labels : BTreeMap String String) (ingress : Bool) :
    List HostPolicy.Rule :=
  (view.selectedDirections labels ingress).flatMap (·.rules)

/-- Nothing that selects a Pod in a direction asks for default deny. -/
def View.OpenByDefault (view : View) (labels : BTreeMap String String) (ingress : Bool) : Prop :=
  view.selectedEntries labels ingress = [] ∧
    ∀ direction ∈ view.selectedDirections labels ingress, direction.defaultDeny = false

section Direction

variable {compiler : Compiler} {subject : PodInfo} {labels : BTreeMap String String}
  {ingress : Bool}

theorem directionKeys_isSome :
    (directionKeys compiler subject labels ingress).value.isSome ↔
      compiler.view.selectedEntries labels ingress ≠ [] ∨
        compiler.view.selectedDirections labels ingress ≠ [] := by
  unfold directionKeys
  simp only
  split
  · rename_i unselected
    simp only [Bool.and_eq_true, List.isEmpty_iff] at unselected
    simp [unselected]
  · rename_i selected
    simp only [Bool.and_eq_true, List.isEmpty_iff, not_and_or] at selected
    simpa using selected

private theorem mem_ruleKeys {rules : List PodDirection} {keysOf : HostPolicy.Rule → List HostKey}
    {key : HostKey} :
    key ∈ (((rules.flatMap (·.rules)).map fun rule => (rule.deny, keysOf rule)).filter
        (!·.1)).flatMap (·.2) ↔
      ∃ rule ∈ rules.flatMap (·.rules), rule.deny = false ∧ key ∈ keysOf rule := by
  simp [and_assoc]

theorem mem_directionKeys {allows denies : BTreeSet HostKey}
    (keys : (directionKeys compiler subject labels ingress).value = some (allows, denies)) :
    (∀ key, key ∈ allows ↔
      (∃ entry ∈ compiler.view.selectedEntries labels ingress,
          key ∈ (compiler.entryKeys subject entry).value) ∨
        (∃ rule ∈ compiler.view.selectedRules labels ingress, rule.deny = false ∧
          key ∈ (compiler.podRule rule ingress subject).value) ∨
        (compiler.view.OpenByDefault labels ingress ∧
          key = ⟨wildcard, anyProtocol, 0#16, 0#8⟩)) ∧
      ∀ key, key ∈ denies ↔
        ∃ rule ∈ compiler.view.selectedRules labels ingress, rule.deny = true ∧
          key ∈ (compiler.podRule rule ingress subject).value := by
  unfold directionKeys at keys
  simp only at keys
  split at keys
  · cases keys
  · simp only [value_bind, value_pure, value_mapEach, Option.some.injEq, Prod.mk.injEq] at keys
    rcases keys with ⟨allowsEqual, deniesEqual⟩
    subst deniesEqual
    subst allowsEqual
    constructor
    · intro key
      by_cases isOpen : compiler.view.OpenByDefault labels ingress
      · have test : ((compiler.view.selectedEntries labels ingress).isEmpty &&
            !(compiler.view.selectedDirections labels ingress).any (·.defaultDeny)) = true := by
          simpa [View.OpenByDefault] using isOpen
        simp only [test, isOpen, if_true, true_and, Std.ExtTreeSet.mem_insert,
          Std.compare_eq_iff_eq, mem_collect, List.mem_append, List.mem_flatten, List.mem_map,
          exists_exists_and_eq_and, mem_ruleKeys, View.selectedRules]
        rw [eq_comm, or_comm, or_assoc]
      · have test : ((compiler.view.selectedEntries labels ingress).isEmpty &&
            !(compiler.view.selectedDirections labels ingress).any (·.defaultDeny)) = false := by
          rw [← Bool.not_eq_true]
          simpa [View.OpenByDefault] using isOpen
        simp only [test, isOpen, Bool.false_eq_true, if_false, false_and, or_false, mem_collect,
          List.mem_append, List.mem_flatten, List.mem_map, exists_exists_and_eq_and,
          mem_ruleKeys, View.selectedRules]
    · intro key
      simp [View.selectedRules, and_assoc]

end Direction

/-! ## A direction of an endpoint -/

/-- The datapath finds the endpoint behind its interface and enforces the direction. -/
def DirectionEnforced (desired : Desired) (endpoint : LocalEndpoint) (ingress : Bool) : Prop :=
  ∃ row, desired.endpoints[endpoint.ifindex]? = some row ∧
    row.endpoint = endpoint.id.setWidth 32 ∧ enforced row (bit (!ingress))

private theorem enforced_bits (id : U32) (ofIngress ofEgress ingress : Bool) :
    enforced ⟨id, (if ofIngress then enforceBit true else 0#32) |||
        (if ofEgress then enforceBit false else 0#32)⟩ (bit (!ingress)) =
      if ingress then ofIngress else ofEgress := by
  cases ofIngress <;> cases ofEgress <;> cases ingress <;>
    simp [enforced, enforceBit, bit, enforceIngress, enforceEgress]

theorem enforced_endpointFlags {compiler : Compiler} {subject : PodInfo}
    {labels : BTreeMap String String} {ingress : Bool} {id : U32} :
    enforced ⟨id, endpointFlags compiler subject labels⟩ (bit (!ingress)) ↔
      (directionKeys compiler subject labels ingress).value.isSome := by
  unfold endpointFlags directionFlag
  rw [enforced_bits]
  cases ingress <;> rfl

section Meaning

variable {view : View} {gateways : List IpAddr} {endpoint : LocalEndpoint}
  {labels : BTreeMap String String} {pod : PodInfo} {ingress : Bool}

section

variable (separate : Separate view) (isLocal : endpoint ∈ view.endpoints)
  (known : view.subject endpoint = some (labels, pod))

include separate isLocal known

theorem directionEnforced_iff_isSome :
    DirectionEnforced (compile view gateways) endpoint ingress ↔
      (directionKeys (view.compiler gateways) pod labels ingress).value.isSome := by
  have row := @getElem?_endpoints_compile view gateways endpoint labels pod separate isLocal known
  rw [← @enforced_endpointFlags _ _ _ _ (endpoint.id.setWidth 32)]
  constructor
  · intro found
    rcases found with ⟨held, present, _, enforces⟩
    rw [row] at present
    split at present
    · cases present
    · cases present
      exact enforces
  · intro enforces
    have flagged : endpointFlags (view.compiler gateways) pod labels ≠ 0#32 := by
      intro unflagged
      rw [unflagged] at enforces
      simp [enforced] at enforces
    rw [if_neg flagged] at row
    exact ⟨_, row, rfl, enforces⟩

theorem directionEnforced_iff :
    DirectionEnforced (compile view gateways) endpoint ingress ↔
      view.selectedEntries labels ingress ≠ [] ∨ view.selectedDirections labels ingress ≠ [] :=
  (directionEnforced_iff_isSome separate isLocal known).trans directionKeys_isSome

end

theorem transport_of_mem_selectedRules {rule : HostPolicy.Rule}
    (member : rule ∈ view.selectedRules labels ingress) : Transport rule.ports := by
  rcases List.mem_flatMap.mp member with ⟨direction, selected, inside⟩
  simp only [View.selectedDirections, List.mem_filter, List.mem_map] at selected
  rcases selected with ⟨⟨policy, ⟨parsed, _⟩, equal⟩, _⟩
  have inAll : rule ∈ policy.allRules := by
    subst equal
    split at inside
    · exact List.mem_append_left _ inside
    · exact List.mem_append_right _ inside
  unfold View.parsedPodPolicies at parsed
  split at parsed
  · exact transport_of_podPolicies parsed rule inAll
  · cases parsed

/-- Every selecting entry and rule of a direction names its ports by number. -/
structure NumericDirection (view : View) (labels : BTreeMap String String) (ingress : Bool) :
    Prop where
  entries : ∀ entry ∈ view.selectedEntries labels ingress, K8s.NumericEntry entry.2
  rules : ∀ rule ∈ view.selectedRules labels ingress, rule.named = []

section Keys

variable {allows denies : BTreeSet HostKey} (numeric : NumericDirection view labels ingress)
  (keys : (directionKeys (view.compiler gateways) pod labels ingress).value =
    some (allows, denies))

include numeric keys

theorem allCanonical_directionKeys : AllCanonical allows ∧ AllCanonical denies := by
  rcases mem_directionKeys keys with ⟨ofAllows, ofDenies⟩
  constructor
  · intro key member
    rcases (ofAllows key).mp member with ⟨entry, selected, inside⟩ | ⟨rule, selected, _, inside⟩ |
      ⟨_, equal⟩
    · exact canonical_of_mem_entryKeys inside
    · exact canonical_of_mem_podRule (numeric.rules rule selected) inside
    · have any : key ∈ l4Keys wildcard anyProtocol .any := by simp [l4Keys, equal]
      exact canonical_of_mem_l4Keys any
  · intro key member
    rcases (ofDenies key).mp member with ⟨rule, selected, _, inside⟩
    exact canonical_of_mem_podRule (numeric.rules rule selected) inside

variable {clusterId remote : U32} {flow : Flow}

theorem exists_denies_matches :
    (∃ key ∈ denies, Consulted clusterId remote key.identity ∧
        key.l4Matches flow.key.protocol flow.port) ↔
      ∃ rule ∈ view.selectedRules labels ingress, rule.deny = true ∧
        (view.compiler gateways).RuleMatches clusterId remote flow rule := by
  have ofDenies := (mem_directionKeys keys).2
  constructor
  · intro found
    rcases found with ⟨key, member, matched⟩
    rcases (ofDenies key).mp member with ⟨rule, selected, deny, inside⟩
    exact ⟨rule, selected, deny, (exists_mem_podRule_matches (numeric.rules rule selected)
      (transport_of_mem_selectedRules selected)).mp ⟨key, inside, matched⟩⟩
  · intro found
    rcases found with ⟨rule, selected, deny, ruleMatches⟩
    rcases (@exists_mem_podRule_matches _ pod ingress _ (numeric.rules rule selected)
      (transport_of_mem_selectedRules selected) _ _ _).mpr ruleMatches with ⟨key, inside, matched⟩
    exact ⟨key, (ofDenies key).mpr ⟨rule, selected, deny, inside⟩, matched⟩

theorem exists_allows_matches :
    (∃ key ∈ allows, Consulted clusterId remote key.identity ∧
        key.l4Matches flow.key.protocol flow.port) ↔
      (∃ entry ∈ view.selectedEntries labels ingress,
          (view.compiler gateways).EntryMatches clusterId remote flow entry) ∨
        (∃ rule ∈ view.selectedRules labels ingress, rule.deny = false ∧
          (view.compiler gateways).RuleMatches clusterId remote flow rule) ∨
        view.OpenByDefault labels ingress := by
  have ofAllows := (mem_directionKeys keys).1
  constructor
  · intro found
    rcases found with ⟨key, member, matched⟩
    rcases (ofAllows key).mp member with ⟨entry, selected, inside⟩ |
      ⟨rule, selected, allow, inside⟩ | ⟨isOpen, _⟩
    · exact .inl ⟨entry, selected, (exists_mem_entryKeys_matches
        (numeric.entries entry selected)).mp ⟨key, inside, matched⟩⟩
    · exact .inr (.inl ⟨rule, selected, allow, (exists_mem_podRule_matches
        (numeric.rules rule selected) (transport_of_mem_selectedRules selected)).mp
          ⟨key, inside, matched⟩⟩)
    · exact .inr (.inr isOpen)
  · intro found
    rcases found with
      ⟨entry, selected, entryMatches⟩ | ⟨rule, selected, allow, ruleMatches⟩ | isOpen
    · rcases (@exists_mem_entryKeys_matches _ pod _ (numeric.entries entry selected) _ _ _).mpr
        entryMatches with ⟨key, inside, matched⟩
      exact ⟨key, (ofAllows key).mpr (.inl ⟨entry, selected, inside⟩), matched⟩
    · rcases (@exists_mem_podRule_matches _ pod ingress _ (numeric.rules rule selected)
        (transport_of_mem_selectedRules selected) _ _ _).mpr ruleMatches with
        ⟨key, inside, matched⟩
      exact ⟨key, (ofAllows key).mpr (.inr (.inl ⟨rule, selected, allow, inside⟩)), matched⟩
    · exact ⟨_, (ofAllows _).mpr (.inr (.inr ⟨isOpen, rfl⟩)), .inr (.inr rfl), rfl⟩

end Keys

/-- What the compiled maps let through in an enforced direction. -/
theorem allowed_compile_iff (separate : Separate view) (isLocal : endpoint ∈ view.endpoints)
    (known : view.subject endpoint = some (labels, pod))
    (numeric : NumericDirection view labels ingress)
    (isEnforced : DirectionEnforced (compile view gateways) endpoint ingress)
    (clusterId remote : U32) (flow : Flow) :
    allowed clusterId (compile view gateways).entries (endpoint.id.setWidth 32) remote
        (bit (!ingress)) flow ↔
      (¬∃ rule ∈ view.selectedRules labels ingress, rule.deny = true ∧
          (view.compiler gateways).RuleMatches clusterId remote flow rule) ∧
        ((∃ entry ∈ view.selectedEntries labels ingress,
            (view.compiler gateways).EntryMatches clusterId remote flow entry) ∨
          (∃ rule ∈ view.selectedRules labels ingress, rule.deny = false ∧
            (view.compiler gateways).RuleMatches clusterId remote flow rule) ∨
          view.OpenByDefault labels ingress) := by
  rw [directionEnforced_iff_isSome separate isLocal known] at isEnforced
  rcases Option.isSome_iff_exists.mp isEnforced with ⟨⟨allows, denies⟩, keys⟩
  have canonical := allCanonical_directionKeys numeric keys
  rw [allowed_iff_of_carries (carries_compile separate isLocal known keys) canonical.1 canonical.2
    (below_maxPrecedence (.inl rfl)), exists_consulted_matchAt, exists_consulted_matchAt,
    exists_denies_matches numeric keys, exists_allows_matches numeric keys, and_comm]

/-- Pod rules mean what they say: a direction is enforced exactly when an entry or a
policy selects it, and then a packet passes when no deny matches it and an allow
does or nothing asks for default deny. -/
theorem enforced_iff_and_allowed_iff (separate : Separate view)
    (isLocal : endpoint ∈ view.endpoints) (known : view.subject endpoint = some (labels, pod))
    (numeric : NumericDirection view labels ingress) (clusterId remote : U32) (flow : Flow) :
    (DirectionEnforced (compile view gateways) endpoint ingress ↔
        view.selectedEntries labels ingress ≠ [] ∨ view.selectedDirections labels ingress ≠ []) ∧
      (DirectionEnforced (compile view gateways) endpoint ingress →
        (allowed clusterId (compile view gateways).entries (endpoint.id.setWidth 32) remote
            (bit (!ingress)) flow ↔
          (¬∃ rule ∈ view.selectedRules labels ingress, rule.deny = true ∧
              (view.compiler gateways).RuleMatches clusterId remote flow rule) ∧
            ((∃ entry ∈ view.selectedEntries labels ingress,
                (view.compiler gateways).EntryMatches clusterId remote flow entry) ∨
              (∃ rule ∈ view.selectedRules labels ingress, rule.deny = false ∧
                (view.compiler gateways).RuleMatches clusterId remote flow rule) ∨
              view.OpenByDefault labels ingress))) :=
  ⟨directionEnforced_iff separate isLocal known, fun isEnforced =>
    allowed_compile_iff separate isLocal known numeric isEnforced clusterId remote flow⟩

end Meaning

/-! ## Uplinks apart from Pod interfaces -/

/-- A Pod policy for every Pod that refuses UDP to everyone and allows the rest. -/
def noUdpPolicy : Json :=
  .object [
    ("metadata", .object [("name", .string "no-udp"), ("namespace", .string "default")]),
    ("spec", .object [
      ("egress", .array [.object [("toEntities", .array [.string "all"])]]),
      ("egressDeny", .array [.object [
        ("toEntities", .array [.string "all"]),
        ("toPorts", .array [.object [
          ("ports", .array [.object [("port", .string "0"), ("protocol", .string "UDP")]])]])]]),
      ("endpointSelector", .object [])])]

def noUdpView : View :=
  { webView with flowsdnPolicy := true, podPolicies := [noUdpPolicy] }

theorem noUdpView_numeric (labels : BTreeMap String String) :
    NumericDirection noUdpView labels false := by
  have parsed : ∀ policy ∈ noUdpView.parsedPodPolicies.value, ∀ rule ∈ policy.egress.rules,
      rule.named = [] := by
    decide +kernel
  refine ⟨fun entry member => ?_, fun rule member => ?_⟩
  · cases (List.mem_filter.mp member).1
  · simp only [View.selectedRules, View.selectedDirections, List.mem_flatMap, List.mem_filter,
      List.mem_map] at member
    rcases member with ⟨direction, ⟨⟨policy, ⟨inside, _⟩, rfl⟩, _⟩, isRule⟩
    exact parsed policy inside rule isRule

theorem noUdpView_enforced_iff :
    ∃ labels pod, noUdpView.subject webEndpoint = some (labels, pod) ∧
      (DirectionEnforced (compile noUdpView []) webEndpoint false ↔
        noUdpView.selectedEntries labels false ≠ [] ∨
          noUdpView.selectedDirections labels false ≠ []) := by
  have separate : Separate noUdpView :=
    { ids := by decide, indexes := by decide, indexed := by decide
      uplinks := fun on => absurd rfl on }
  rcases Option.isSome_iff_exists.mp webView_subject_isSome with ⟨⟨labels, pod⟩, known⟩
  exact ⟨labels, pod, known, (enforced_iff_and_allowed_iff separate (List.mem_singleton.mpr rfl)
    known (noUdpView_numeric labels) 0 300 {}).1⟩

/-- The host firewall is on, on the uplink that the Pod's interface is taken for. -/
def sharedUplinkView : View :=
  { noUdpView with hostFirewall := .enforce, hostInterfaces := insertAll ∅ [("eth0", 4)] }

/-- An uplink with the index of a Pod's interface takes its row: a policy selects the
Pod's egress, which is then not enforced. -/
theorem sharedUplinkView_not_enforced :
    (sharedUplinkView.endpoints.map (·.id)).Nodup ∧
      (sharedUplinkView.endpoints.map (·.ifindex)).Nodup ∧
      (∀ endpoint ∈ sharedUplinkView.endpoints, endpoint.ifindex ≠ 0#32) ∧
      webEndpoint ∈ sharedUplinkView.endpoints ∧
      ∃ labels pod, sharedUplinkView.subject webEndpoint = some (labels, pod) ∧
        NumericDirection sharedUplinkView labels false ∧
        sharedUplinkView.selectedDirections labels false ≠ [] ∧
        ¬DirectionEnforced (compile sharedUplinkView []) webEndpoint false := by
  have selected : (noUdpView.subject webEndpoint).any fun known =>
      !(noUdpView.selectedDirections known.1 false).isEmpty := by
    decide +kernel
  rcases (Option.any_eq_true _ _).mp selected with ⟨⟨labels, pod⟩, known, nonempty⟩
  have numeric := noUdpView_numeric labels
  have directions : noUdpView.selectedDirections labels false ≠ [] := by simpa using nonempty
  refine ⟨by decide, by decide, by decide, by decide, labels, pod, known,
    ⟨numeric.entries, numeric.rules⟩, directions, ?_⟩
  intro isEnforced
  rcases isEnforced with ⟨row, present, same, _⟩
  have uplinks : sharedUplinkView.uplinkPairs = [(4#32, ⟨hostEndpoint, 0#32⟩)] := by
    decide +kernel
  rw [(compile_maps sharedUplinkView []).2, uplinks, insertAll_append] at present
  have host : (⟨hostEndpoint, 0#32⟩ : PolicyEndpoint) = row := by
    simpa [webEndpoint] using present
  rw [← host] at same
  exact absurd same (by decide)

end FlowSdn.Agent
