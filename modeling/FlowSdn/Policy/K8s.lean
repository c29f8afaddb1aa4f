import FlowSdn.Policy.Simulator

/-! # Kubernetes NetworkPolicy objects

Translation of a NetworkPolicy object to policy entries, and the lowering of
entries to the simulator's.
-/

namespace FlowSdn.Policy.K8s

open OrderedMap Checked

def source : String := "k8s"
def podNamespace : String := "io.kubernetes.pod.namespace"
def policyCluster : String := "io.flowsdn.k8s.policy.cluster"
def namespaceLabels : String := "io.flowsdn.k8s.namespace.labels"
def derivedFrom : String := "io.flowsdn.k8s.policy.derived-from"
def policyName : String := "io.flowsdn.k8s.policy.name"
def policyNamespace : String := "io.flowsdn.k8s.policy.namespace"
def policyUid : String := "io.flowsdn.k8s.policy.uid"
def nameAnnotation : String := "flowsdn.io/policy-name"

def sourced (selector : LabelSelector) : LabelSelector :=
  selector.rekey fun key => source ++ ":" ++ key

inductive Peer
  | selector (selector : LabelSelector)
  | cidr (cidr : String) (except : List String)

inductive Protocol
  | tcp
  | udp
  | sctp
  deriving DecidableEq

def Protocol.number : Protocol → U8
  | tcp => 6#8
  | udp => 17#8
  | sctp => 132#8

/-- A port: a number (`"0"` for every port) or a named container port. -/
structure PortRule where
  protocol : Protocol
  port : String
  endPort : Option U16
  deriving DecidableEq

structure Entry where
  tier : Tier
  priority : Priority
  verdict : Verdict
  ingress : Bool
  subject : LabelSelector
  /-- None: every peer. An empty list: no peer (a default-deny marker). -/
  l3 : Option (List Peer)
  /-- None: all traffic to the peers. -/
  l4 : Option (List PortRule)
  labels : List String
  defaultDeny : Bool

/-! ## Translation -/

def list (value : Option Json) (what : String) : Except ImportError (List Json) :=
  match value.filter (!·.isNull) with
  | none => .ok []
  | some value =>
      match value.asArray with
      | some items => .ok items
      | none => .error (what ++ " must be a list")

def exceptEntry (item : Json) : Except ImportError String :=
  match item.asStr with
  | some text => .ok text
  | none => .error "ipBlock.except entries must be strings"

def ipBlock (block : Json) : Except ImportError Peer := do
  match ((block.get "cidr").bind Json.asStr).filter (!·.isEmpty) with
  | none => .error "ipBlock without cidr"
  | some cidr =>
      let items ← list (block.get "except") "ipBlock.except"
      let except ← items.mapM exceptEntry
      return .cidr cidr except

/-- The selector of namespaces, on the keys their Pods' identities carry. -/
def namespaceSelector (namespaces : LabelSelector) : LabelSelector :=
  if namespaces.isEmpty then
    { matchExpressions := [{ key := podNamespace, operator := .exists, values := ∅ }] }
  else namespaces.rekey fun key => namespaceLabels ++ "." ++ key

def peer (value : Json) (inNamespace : String) (cluster : Option String) :
    Except ImportError Peer := do
  match value.present "ipBlock" with
  | some block => ipBlock block
  | none =>
      let pods ← LabelSelector.parse (value.get "podSelector")
      let pods := match cluster with
        | some cluster =>
            if pods.constrains policyCluster then pods else pods.withLabel policyCluster cluster
        | none => pods
      match value.present "namespaceSelector" with
      | some namespaces =>
          let namespaces ← LabelSelector.parse (some namespaces)
          return .selector (sourced ((namespaceSelector namespaces).and pods))
      | none => return .selector (sourced (pods.withLabel podNamespace inNamespace))

def portProtocol (value : Json) : Except ImportError Protocol :=
  match (value.get "protocol").bind Json.asStr with
  | none => .ok .tcp
  | some "TCP" => .ok .tcp
  | some "UDP" => .ok .udp
  | some "SCTP" => .ok .sctp
  | some other => .error ("unsupported protocol " ++ other)

def asU16 (value : Json) : Option U16 :=
  (value.asU64.filter (· < 65536)).map (BitVec.ofNat 16)

def portText (value : Json) : Except ImportError String :=
  match value.get "port" with
  | none => .ok "0"
  | some .null => .ok "0"
  | some (.number number) =>
      match asU16 (.number number) with
      | some port => .ok (toString port.toNat)
      | none => .error ("invalid port " ++ number.text)
  | some (.string name) =>
      if name.isEmpty then .error ("invalid port " ++ (Json.string name).text) else .ok name
  | some other => .error ("invalid port " ++ other.text)

def port (value : Json) : Except ImportError PortRule := do
  let protocol ← portProtocol value
  let port ← portText value
  let endPort ← match value.present "endPort" with
    | none => .ok none
    | some found =>
        match asU16 found with
        | some finish => .ok (some finish)
        | none => .error ("invalid endPort " ++ found.text)
  return { protocol, port, endPort }

structure PolicyTypes where
  ingress : Bool
  egress : Bool
  deriving DecidableEq

def addPolicyType (types : PolicyTypes) (item : Json) : Except ImportError PolicyTypes :=
  match item.asStr with
  | some "Ingress" => .ok { types with ingress := true }
  | some "Egress" => .ok { types with egress := true }
  | other => .error ("unknown policyType " ++ Text.debugOption (other.map Text.debug))

def policyTypes (spec : Json) : Except ImportError PolicyTypes := do
  let items ← list (spec.get "policyTypes") "policyTypes"
  let types ← items.foldlM addPolicyType ⟨false, false⟩
  if types.ingress ∨ types.egress then return types
  else return ⟨true, (spec.present "egress").isSome⟩

/-- The peers and ports of one rule, an entry for each peer. -/
def ruleEntries (entry : Option (List Peer) → Option (List PortRule) → Entry)
    (peersKey : String) (inNamespace : String) (cluster : Option String) (rule : Json) :
    Except ImportError (List Entry) := do
  let items ← list (rule.get "ports") "ports"
  let ports ← items.mapM port
  let l4 := if ports.isEmpty then none else some ports
  let peers ← list (rule.get peersKey) peersKey
  if peers.isEmpty then return [entry none l4]
  else
    peers.mapM fun item => do
      let peer ← peer item inNamespace cluster
      return entry (some [peer]) l4

/-- One direction's entries; a direction without rules is a default-deny marker. -/
def directionEntries (entry : Option (List Peer) → Option (List PortRule) → Entry)
    (spec : Json) (rulesKey peersKey : String) (inNamespace : String)
    (cluster : Option String) : Except ImportError (List Entry) := do
  let rules ← list (spec.get rulesKey) rulesKey
  let entries ← rules.mapM (ruleEntries entry peersKey inNamespace cluster)
  if entries.flatten.isEmpty then return [entry (some []) none] else return entries.flatten

/-- The entries of a direction, where the policy is about it. -/
def whenAbout (about : Bool) (entries : Except ImportError (List Entry)) :
    Except ImportError (List Entry) :=
  if about then entries else .ok []

/-- Translate one NetworkPolicy object. `cluster` limits peer selectors to it. -/
def networkPolicy (object : Json) (cluster : Option String) :
    Except ImportError (List Entry) := do
  match object.get "metadata" with
  | none => .error "NetworkPolicy without metadata"
  | some metadata =>
      let inNamespace := match metadata.textAt ["namespace"] with
        | "" => "default"
        | text => text
      let name := ((metadata.pointer ["annotations", nameAnnotation]).bind Json.asStr).getD
        (metadata.textAt ["name"])
      match object.get "spec" with
      | none => .error "NetworkPolicy without spec"
      | some spec =>
          let subject ← LabelSelector.parse (spec.get "podSelector")
          let subject := sourced (subject.withLabel podNamespace inNamespace)
          let labels := [
            source ++ ":" ++ derivedFrom ++ "=NetworkPolicy",
            source ++ ":" ++ policyName ++ "=" ++ name,
            source ++ ":" ++ policyNamespace ++ "=" ++ inNamespace,
            source ++ ":" ++ policyUid ++ "=" ++ metadata.textAt ["uid"]].insertionSort (· ≤ ·)
          let types ← policyTypes spec
          let entry := fun ingress l3 l4 =>
            { tier := .normal, priority := .finite 0, verdict := .allow, ingress, subject, l3, l4,
              labels, defaultDeny := true : Entry }
          let ingress ← whenAbout types.ingress
            (directionEntries (entry true) spec "ingress" "from" inNamespace cluster)
          let egress ← whenAbout types.egress
            (directionEntries (entry false) spec "egress" "to" inNamespace cluster)
          return ingress ++ egress

/-! ## Lowering -/

/-- A peer the lowering cannot express. -/
structure Unsupported where
  labels : List String
  peer : Peer
  why : String

/-- The peer selectors of an entry; a CIDR becomes one that selects nothing. -/
def lowerPeers (entry : Entry) : List Simulator.Selector :=
  match entry.l3 with
  | none => [.any]
  | some [] => [.none]
  | some peers =>
      peers.map fun peer =>
        match peer with
        | .selector selector => .kubernetes selector
        | .cidr _ _ => .none

def unsupportedPeers (entry : Entry) : List Unsupported :=
  (entry.l3.getD []).filterMap fun peer =>
    match peer with
    | .selector _ => none
    | .cidr _ _ =>
        some { labels := entry.labels, peer, why := "ipBlock peers need CIDR identities" }

def lowerPort (rule : PortRule) : Except Error (U8 × Simulator.Port) :=
  match Text.parseUnsigned 65536 rule.port with
  | some number =>
      if number = 0 ∧ rule.endPort.isNone then .ok (rule.protocol.number, .numeric .any)
      else do
        let range ← PortRange.fromApi (BitVec.ofNat 16 number) rule.endPort
        return (rule.protocol.number, .numeric range)
  | none => .ok (rule.protocol.number, .named rule.port)

def lowerPorts (entry : Entry) : Except Error (List (U8 × Simulator.Port)) :=
  match entry.l4 with
  | none => .ok [(Abi.anyProtocol, .numeric .any)]
  | some rules => rules.mapM lowerPort

/-- The simulator entry of one peer and one port of an entry. -/
def simulatorEntry (entry : Entry) (selector : Simulator.Selector) (port : U8 × Simulator.Port) :
    Simulator.Entry where
  subject := .kubernetes entry.subject
  peers := selector
  defaultDeny := entry.defaultDeny
  rule := {
    tier := entry.tier
    priority := entry.priority
    verdict := entry.verdict
    egress := !entry.ingress
    peer := .any
    protocol := port.1
    ports := .any
    authentication := none
    proxyPort := 0#16
    listenerPriority := 0#8 }
  port := port.2

def lowerEntry (entry : Entry) : Except Error (List Simulator.Entry) := do
  let ports ← lowerPorts entry
  return (lowerPeers entry).flatMap fun selector => ports.map (simulatorEntry entry selector)

/-- One simulator entry for each entry, peer and port, and the peers left out. -/
def lower (entries : List Entry) :
    Except Error (List Simulator.Entry × List Unsupported) := do
  let lowered ← entries.mapM lowerEntry
  return (lowered.flatten, entries.flatMap unsupportedPeers)

/-! ## What translated entries have in common -/

/-- A default-denying allow of the normal tier; a list of ports is not empty. -/
structure Standard (entry : Entry) : Prop where
  tier : entry.tier = .normal
  priority : entry.priority = .finite 0
  verdict : entry.verdict = .allow
  defaultDeny : entry.defaultDeny = true
  ports : entry.l4 ≠ some []

section Standard

variable {make : Option (List Peer) → Option (List PortRule) → Entry}
  (made : ∀ l3 l4, l4 ≠ some [] → Standard (make l3 l4)) {cluster : Option String}

include made

theorem standard_of_ruleEntries {peersKey inNamespace : String} {rule : Json} {entries : List Entry}
    (translated : ruleEntries make peersKey inNamespace cluster rule = .ok entries) :
    ∀ entry ∈ entries, Standard entry := by
  simp only [ruleEntries, bind_eq_ok] at translated
  rcases translated with ⟨_, _, ports, _, peers, _, rest⟩
  have someOrNone : (if ports.isEmpty then none else some ports) ≠ some [] := by
    cases ports <;> simp
  split at rest
  · rw [pure_eq_ok] at rest
    subst rest
    intro entry member
    rw [List.mem_singleton.mp member]
    exact made _ _ someOrNone
  · intro entry member
    rcases exists_of_mem_mapM rest member with ⟨item, _, single⟩
    simp only [bind_eq_ok, pure_eq_ok] at single
    rcases single with ⟨_, _, equal⟩
    rw [← equal]
    exact made _ _ someOrNone

theorem standard_of_directionEntries {spec : Json} {rulesKey peersKey inNamespace : String}
    {entries : List Entry}
    (translated : directionEntries make spec rulesKey peersKey inNamespace cluster =
      .ok entries) : ∀ entry ∈ entries, Standard entry := by
  simp only [directionEntries, bind_eq_ok] at translated
  rcases translated with ⟨rules, _, lists, each, rest⟩
  intro entry member
  split at rest
  · rw [pure_eq_ok] at rest
    subst rest
    rw [List.mem_singleton.mp member]
    exact made _ _ (by simp)
  · rw [pure_eq_ok] at rest
    subst rest
    rcases List.mem_flatten.mp member with ⟨list, isList, inside⟩
    rcases exists_of_mem_mapM each isList with ⟨rule, _, single⟩
    exact standard_of_ruleEntries made single entry inside

end Standard

variable {entries : List Entry} {lowered : List Simulator.Entry} {unsupported : List Unsupported}
  {entry : Entry} {port : U8 × Simulator.Port} {ports : List (U8 × Simulator.Port)}

theorem standard_of_networkPolicy {object : Json} {cluster : Option String}
    (translated : networkPolicy object cluster = .ok entries) :
    ∀ entry ∈ entries, Standard entry := by
  unfold networkPolicy at translated
  split at translated
  · cases translated
  · simp only at translated
    split at translated
    · cases translated
    · simp only [bind_eq_ok] at translated
      rcases translated with ⟨subject, _, types, _, ingress, ofIngress, egress, ofEgress, rest⟩
      rw [pure_eq_ok] at rest
      subst rest
      intro entry member
      rcases List.mem_append.mp member with inIngress | inEgress
      · unfold whenAbout at ofIngress
        split at ofIngress
        · exact standard_of_directionEntries (fun _ _ some => ⟨rfl, rfl, rfl, rfl, some⟩)
            ofIngress entry inIngress
        · cases ofIngress
          cases inIngress
      · unfold whenAbout at ofEgress
        split at ofEgress
        · exact standard_of_directionEntries (fun _ _ some => ⟨rfl, rfl, rfl, rfl, some⟩)
            ofEgress entry inEgress
        · cases ofEgress
          cases inEgress

/-! ## What lowering keeps -/

/-- The range of a numeric port; none for a name or for what is not a range. -/
def PortRule.numericRange (rule : PortRule) : Option PortRange :=
  (Text.parseUnsigned 65536 rule.port).bind fun port =>
    (PortRange.fromApi (BitVec.ofNat 16 port) rule.endPort).toOption

def NumericEntry (entry : Entry) : Prop :=
  ∀ ports, entry.l4 = some ports →
    ∀ rule ∈ ports, (Text.parseUnsigned 65536 rule.port).isSome

theorem lowerPort_eq_ok {rule : PortRule} (numeric : (Text.parseUnsigned 65536 rule.port).isSome) :
    lowerPort rule = .ok port ↔
      ∃ range, rule.numericRange = some range ∧ port = (rule.protocol.number, .numeric range) := by
  rcases Option.isSome_iff_exists.mp numeric with ⟨number, parsed⟩
  unfold lowerPort PortRule.numericRange
  simp only [parsed, Option.bind_some]
  by_cases every : number = 0 ∧ rule.endPort.isNone
  · have noEnd : rule.endPort = none := by simpa using every.2
    simp [every.1, noEnd, PortRange.fromApi, Except.toOption, eq_comm]
  · rw [if_neg every, bind_eq_ok]
    cases PortRange.fromApi (BitVec.ofNat 16 number) rule.endPort with
    | error error => simp [Except.toOption]
    | ok range =>
        simp only [Except.ok.injEq, exists_eq_left', pure_eq_ok, Except.toOption, Option.some.injEq]
        exact eq_comm

theorem mem_lower (lowers : lower entries = .ok (lowered, unsupported)) {sim : Simulator.Entry} :
    sim ∈ lowered ↔ ∃ entry ∈ entries, ∃ ports, lowerPorts entry = .ok ports ∧
      ∃ selector ∈ lowerPeers entry, ∃ port ∈ ports, sim = simulatorEntry entry selector port := by
  simp only [lower, bind_eq_ok, pure_eq_ok, Prod.mk.injEq] at lowers
  rcases lowers with ⟨lists, each, rfl, _⟩
  constructor
  · intro member
    rcases List.mem_flatten.mp member with ⟨list, isList, inside⟩
    rcases exists_of_mem_mapM each isList with ⟨entry, isEntry, single⟩
    simp only [lowerEntry, bind_eq_ok, pure_eq_ok] at single
    rcases single with ⟨ports, ofPorts, rfl⟩
    rcases List.mem_flatMap.mp inside with ⟨selector, isSelector, mapped⟩
    rcases List.mem_map.mp mapped with ⟨port, isPort, equal⟩
    exact ⟨entry, isEntry, ports, ofPorts, selector, isSelector, port, isPort, equal.symm⟩
  · intro found
    rcases found with ⟨entry, isEntry, ports, ofPorts, selector, isSelector, port, isPort, rfl⟩
    rcases exists_mem_of_mapM each isEntry with ⟨list, isList, single⟩
    simp only [lowerEntry, bind_eq_ok, pure_eq_ok] at single
    rcases single with ⟨other, ofOther, rfl⟩
    rw [ofPorts] at ofOther
    cases ofOther
    exact List.mem_flatten.mpr ⟨_, isList, List.mem_flatMap.mpr
      ⟨selector, isSelector, List.mem_map_of_mem isPort⟩⟩

theorem exists_lowerPorts (lowers : lower entries = .ok (lowered, unsupported))
    (isEntry : entry ∈ entries) : ∃ ports, lowerPorts entry = .ok ports := by
  simp only [lower, bind_eq_ok] at lowers
  rcases lowers with ⟨lists, each, _⟩
  rcases exists_mem_of_mapM each isEntry with ⟨list, _, single⟩
  simp only [lowerEntry, bind_eq_ok] at single
  rcases single with ⟨ports, ofPorts, _⟩
  exact ⟨ports, ofPorts⟩

theorem mem_lowerPorts (numeric : NumericEntry entry) (lowers : lowerPorts entry = .ok ports) :
    port ∈ ports ↔
      (entry.l4 = none ∧ port = (Abi.anyProtocol, .numeric .any)) ∨
        ∃ rules, entry.l4 = some rules ∧ ∃ rule ∈ rules, ∃ range,
          rule.numericRange = some range ∧ port = (rule.protocol.number, .numeric range) := by
  unfold lowerPorts at lowers
  cases l4 : entry.l4 with
  | none =>
      rw [l4] at lowers
      cases lowers
      simp
  | some rules =>
      rw [l4] at lowers
      have each := numeric rules l4
      simp only [reduceCtorEq, false_and, false_or, Option.some.injEq, exists_eq_left']
      constructor
      · intro member
        rcases exists_of_mem_mapM lowers member with ⟨rule, inside, single⟩
        exact ⟨rule, inside, (lowerPort_eq_ok (each rule inside)).mp single⟩
      · intro found
        rcases found with ⟨rule, inside, valid⟩
        rcases exists_mem_of_mapM lowers inside with ⟨other, isPort, single⟩
        have same := (lowerPort_eq_ok (each rule inside)).mpr valid
        rw [single] at same
        cases same
        exact isPort

theorem number_ne_anyProtocol (protocol : Protocol) : protocol.number ≠ Abi.anyProtocol := by
  cases protocol <;> decide

theorem plainEntry_of_mem_lower (lowers : lower entries = .ok (lowered, unsupported))
    (standard : ∀ entry ∈ entries, Standard entry)
    (numeric : ∀ entry ∈ entries, NumericEntry entry) :
    ∀ sim ∈ lowered, Simulator.PlainEntry sim := by
  intro sim member
  rcases (mem_lower lowers).mp member with
    ⟨entry, isEntry, ports, ofPorts, selector, _, port, isPort, rfl⟩
  have common := standard entry isEntry
  refine ⟨⟨common.tier, common.priority, common.verdict, rfl, rfl, rfl, rfl, fun _ => rfl⟩,
    common.defaultDeny, ?_⟩
  rcases (mem_lowerPorts (numeric entry isEntry) ofPorts).mp isPort with
    ⟨_, rfl⟩ | ⟨_, _, rule, _, range, _, rfl⟩
  · exact ⟨.any, rfl, fun _ => rfl⟩
  · exact ⟨range, rfl, fun any => absurd any (number_ne_anyProtocol rule.protocol)⟩

theorem lowerPeers_ne_nil (entry : Entry) : lowerPeers entry ≠ [] := by
  unfold lowerPeers
  split <;> simp_all

theorem ports_ne_nil (standard : Standard entry) (lowers : lowerPorts entry = .ok ports) :
    ports ≠ [] := by
  unfold lowerPorts at lowers
  split at lowers
  · cases lowers
    simp
  · rename_i rules l4
    intro empty
    subst empty
    have none := List.forall₂_nil_right_iff.mp (mapM_eq_ok.mp lowers)
    exact standard.ports (by rw [l4, none])

end FlowSdn.Policy.K8s
