import FlowSdn.Foundation.Reported
import FlowSdn.Policy.K8s

/-! # Rules of the flowsdn policy kinds

The host-policy and Pod-policy parts of FlowsdnNetworkPolicy and
FlowsdnClusterwideNetworkPolicy objects, parsed to rules of one model. What is not
enforced is reported.
-/

namespace FlowSdn.Agent.HostPolicy

open Abi OrderedMap Policy Reported

def auditAnnotation : String := "policy.flowsdn.io/audit"

def host : U32 := 1
def world : U32 := 2
def unmanaged : U32 := 3
def health : U32 := 4
def init : U32 := 5
def remoteNode : U32 := 6
def kubeApiserver : U32 := 7
def ingress : U32 := 8
def aggregateCluster : U32 := 11
def aggregateWorld : U32 := 13

inductive Peer
  | identities (identities : List U32)
  | cidr (cidr : String) (except : List String)
  | endpoints (selector : LabelSelector)

structure Rule where
  /-- `namespace/name` of the policy. -/
  policy : String
  deny : Bool
  /-- None: every source. An empty list: nothing. -/
  peers : Option (List Peer)
  /-- With `named` also empty: every protocol and port. -/
  ports : List (U8 × PortRange)
  /-- A protocol and the name of a container port of the destination. -/
  named : List (U8 × String)

structure HostPolicies where
  names : List String := []
  enforceIngress : Bool := false
  audit : Bool := false
  rules : List Rule := []

/-- A node selector's key without its label source. -/
def plainKey (key : String) : String :=
  ((Text.stripLeading "k8s:" key).or (Text.stripLeading "any:" key)).getD key

/-- An endpoint selector's key as identity labels spell it. -/
def sourcedKey (key : String) : String :=
  match Text.splitOnce ':' key with
  | some (source, rest) =>
      if source = "any" then "k8s:" ++ rest
      else if !Text.containsChar '/' source && !Text.containsChar '.' source then key
      else "k8s:" ++ key
  | none => "k8s:" ++ key

/-! ## Peers and ports -/

/-- The identities an entity names; none for an unknown entity. -/
def entity (name : String) : Option (List U32) :=
  match name with
  | "all" => some [Abi.wildcard]
  | "world" => some [world, aggregateWorld]
  | "world-ipv4" => some [world, aggregateWorld]
  | "world-ipv6" => some [world, aggregateWorld]
  | "cluster" =>
      some [host, unmanaged, health, init, remoteNode, kubeApiserver, ingress, aggregateCluster]
  | "host" => some [host]
  | "remote-node" => some [remoteNode]
  | "health" => some [health]
  | "init" => some [init]
  | "kube-apiserver" => some [kubeApiserver]
  | "ingress" => some [ingress]
  | "unmanaged" => some [unmanaged]
  | "none" => some []
  | _ => none

def strings (value : Option Json) : Option (List String) :=
  (value.bind Json.asArray).bind fun items => items.mapM Json.asStr

/-- A computation that may give up on a rule and reports why. -/
abbrev Parse := OptionT Reported

def refuse (line : String) : Parse α := OptionT.mk do
  report line
  return none

def warn (line : String) : Parse Unit := OptionT.lift (report line)

structure Ports where
  ranges : List (U8 × PortRange) := []
  named : List (U8 × String) := []

def portProtocols (policy : String) (port : Json) : Parse (List U8) :=
  match (port.get "protocol").bind Json.asStr with
  | none => pure [6#8, 17#8, 132#8]
  | some "ANY" => pure [6#8, 17#8, 132#8]
  | some "TCP" => pure [6#8]
  | some "UDP" => pure [17#8]
  | some "SCTP" => pure [132#8]
  | some other => refuse (policy ++ ": protocol " ++ other ++ " is not enforced")

def portText (port : Json) : Parse String :=
  match port.get "port" with
  | none => pure "0"
  | some .null => pure "0"
  | some (.string text) => pure text
  | some (.number number) => pure number.text
  | some _ => failure

/-- The end of a port range; zero or one beyond 16 bits is none. -/
def portEnd (port : Json) : Option U16 :=
  ((port.get "endPort").bind K8s.asU16).filter (· ≠ 0#16)

-- `str::to_lowercase`, whose tables of Unicode are the standard library's.
variable (lowercase : String → String)

def addPort (policy : String) (allowNamed : Bool) (ports : Ports) (port : Json) :
    Parse Ports := do
  let protocols ← portProtocols policy port
  let text ← portText port
  match Text.parseUnsigned 65536 text with
  | none =>
      if allowNamed then
        return { ports with
          named := ports.named ++ protocols.map (·, lowercase text) }
      else
        refuse (policy ++ ": named port " ++ text ++
          " has no meaning on the host; the rule is skipped")
  | some number =>
      match PortRange.fromApi (BitVec.ofNat 16 number) (portEnd port) with
      | .ok range =>
          return { ports with ranges := ports.ranges ++ protocols.map (·, range) }
      | .error _ =>
          let finish := Text.debugOption ((portEnd port).map fun finish => toString finish.toNat)
          refuse (policy ++ ": port " ++ text ++ "-" ++ finish ++ " is not a range")

def addPortItem (policy : String) (allowNamed : Bool) (ports : Ports) (item : Json) :
    Parse Ports :=
  if (item.present "rules").isSome || (item.present "listener").isSome then
    refuse (policy ++ ": L7 rules are not enforced; the rule is skipped")
  else
    match (item.get "ports").bind Json.asArray with
    | none => pure ports
    | some entries => entries.foldlM (addPort lowercase policy allowNamed) ports

/-- The ports of `toPorts`; any protocol is TCP, UDP and SCTP. -/
def ports (rule : Json) (policy : String) (allowNamed : Bool) : Parse Ports :=
  match rule.present "toPorts" with
  | none => pure {}
  | some list =>
      match list.asArray with
      | none => failure
      | some items => items.foldlM (addPortItem lowercase policy allowNamed) {}

/-- Which rule a parse reads: the first part of its peer fields (`from` or `to`)
and, for Pod rules, the namespace and cluster that peers get. -/
structure Side where
  lead : String
  pods : Option (Option String × String)

def hasReserved (selector : LabelSelector) : Bool :=
  selector.keys.any (Text.startsWith "reserved:")

/-- Limit a peer selector to the policy's namespace and cluster where it names
neither. -/
def inject (selector : LabelSelector) (inNamespace : Option String) (cluster : String) :
    LabelSelector :=
  if hasReserved selector then selector
  else
    let namespaceKey := "k8s:" ++ K8s.podNamespace
    let namesNamespaceLabels :=
      selector.keys.any (Text.startsWith ("k8s:" ++ K8s.namespaceLabels ++ "."))
    let selector :=
      if selector.constrains namespaceKey then selector
      else
        match inNamespace with
        | none =>
            { selector with
              matchExpressions := selector.matchExpressions ++
                [{ key := namespaceKey, operator := .exists, values := ∅ }] }
        | some name =>
            if namesNamespaceLabels then selector else selector.withLabel namespaceKey name
    let clusterKey := "k8s:" ++ K8s.policyCluster
    if selector.constrains clusterKey then selector else selector.withLabel clusterKey cluster

/-! ## Rules -/

def members : List String := ["Endpoints", "CIDR", "CIDRSet", "Entities", "Nodes", "Groups"]

def mayCombine (first second : String) : Bool :=
  (first = "Endpoints" ∧ second = "Entities") || (first = "CIDR" ∧ second = "CIDRSet")

/-- The first member that may not be combined with an earlier one. -/
def badPair (lead : String) : List String → Option String
  | [] => none
  | first :: rest =>
      match rest.find? fun second => !mayCombine first second with
      | some second =>
          some ("combining " ++ lead ++ first ++ " and " ++ lead ++ second ++ " is not supported")
      | none => badPair lead rest

/-- The first pair of a rule's L3 members that may not be combined. -/
def badCombination (value : Json) (lead : String) : Option String :=
  badPair lead (members.filter fun member =>
    ((value.get (lead ++ member)).bind Json.asArray).any fun items => !items.isEmpty)

def unsupportedFields (lead : String) : List String :=
  [lead ++ "Requires", lead ++ "Nodes", lead ++ "Groups", "icmps", "authentication"] ++
    if lead = "to" then ["toServices", "toFQDNs"] else []

def fieldPeers (value : Json) (name : String) (parse : Json → Parse (List Peer)) :
    Parse (Option (List Peer)) :=
  match value.present name with
  | none => pure none
  | some list => some <$> parse list

def entityPeers (policy : String) (list : Json) : Parse (List Peer) :=
  match strings (some list) with
  | none => failure
  | some names =>
      List.flatten <$> names.mapM fun name =>
        match entity name with
        | some identities => pure [.identities identities]
        | none => do
            warn (policy ++ ": unknown entity " ++ name ++ "; it allows nothing")
            return []

def cidrPeers (list : Json) : Parse (List Peer) :=
  match strings (some list) with
  | none => failure
  | some cidrs => pure (cidrs.map fun cidr => .cidr cidr [])

def cidrSetPeers (policy lead : String) (list : Json) : Parse (List Peer) :=
  match list.asArray with
  | none => failure
  | some items =>
      List.flatten <$> items.mapM fun item =>
        match (item.get "cidr").bind Json.asStr with
        | some cidr => pure [.cidr cidr ((strings (item.get "except")).getD [])]
        | none => do
            warn (policy ++ ": " ++ lead ++ "CIDRSet without cidr (cidrGroupRef) is not enforced")
            return []

def endpointPeers (policy : String) (side : Side) (list : Json) : Parse (List Peer) :=
  match list.asArray with
  | none => failure
  | some items =>
      List.flatten <$> items.mapM fun item =>
        match LabelSelector.parse (some item) with
        | .error error => do
            warn (policy ++ ": " ++ side.lead ++ "Endpoints " ++ error ++ "; it allows nothing")
            return []
        | .ok selector =>
            let selector := selector.rekey sourcedKey
            match side.pods with
            | none => pure [.endpoints selector]
            | some (inNamespace, cluster) =>
                if hasReserved selector then do
                  warn (policy ++ ": " ++ side.lead ++ "Endpoints with a reserved: label " ++
                    "selects no identity; use " ++ side.lead ++ "Entities")
                  return []
                else pure [.endpoints (inject selector inNamespace cluster)]

def rule (value : Json) (deny : Bool) (policy : String) (side : Side) : Parse Rule := do
  match (unsupportedFields side.lead).find? fun name => (value.present name).isSome with
  | some name => refuse (policy ++ ": " ++ name ++ " is not enforced; the rule is skipped")
  | none =>
      let entities ← fieldPeers value (side.lead ++ "Entities") (entityPeers policy)
      let cidrs ← fieldPeers value (side.lead ++ "CIDR") cidrPeers
      let cidrSets ← fieldPeers value (side.lead ++ "CIDRSet") (cidrSetPeers policy side.lead)
      let endpoints ← fieldPeers value (side.lead ++ "Endpoints") (endpointPeers policy side)
      let ports ← ports lowercase value policy side.pods.isSome
      let fields := [entities, cidrs, cidrSets, endpoints]
      let anyL3 := fields.any Option.isSome
      let noPorts := ports.ranges.isEmpty && ports.named.isEmpty
      return {
        policy
        deny
        peers := if anyL3 || noPorts then some (fields.flatMap (·.getD [])) else none
        ports := ports.ranges
        named := ports.named }

def rules (items : List Json) (deny : Bool) (policy : String) (side : Side) :
    Reported (List Rule) :=
  List.flatten <$> mapEach
    (fun item => Option.toList <$> (rule lowercase item deny policy side).run) items

/-! ## Pod policies -/

structure PodDirection where
  /-- The spec has rules of this direction, or turns its default deny on. -/
  selects : Bool
  defaultDeny : Bool
  rules : List Rule

structure PodPolicy where
  name : String
  subject : LabelSelector
  ingress : PodDirection
  egress : PodDirection

def items (spec : Json) (name : String) : List Json :=
  ((spec.get name).bind Json.asArray).getD []

def podDirection (spec : Json) (egress : Bool) (name : String) (inNamespace : Option String)
    (cluster : String) : Reported PodDirection := do
  let (allow, deny, lead, switch) :=
    if egress then ("egress", "egressDeny", "to", "egress")
    else ("ingress", "ingressDeny", "from", "ingress")
  let side : Side := { lead, pods := some (inNamespace, cluster) }
  let allows ← rules lowercase (items spec allow) false name side
  let denies ← rules lowercase (items spec deny) true name side
  let hasRules := !(items spec allow).isEmpty || !(items spec deny).isEmpty
  let defaultDeny :=
    ((spec.pointer ["enableDefaultDeny", switch]).bind Json.asBool).getD hasRules
  return { selects := hasRules || defaultDeny, defaultDeny, rules := allows ++ denies }

def specCombination (spec : Json) : Option String :=
  let ingress := (items spec "ingress" ++ items spec "ingressDeny").findSome?
    (badCombination · "from")
  let egress := (items spec "egress" ++ items spec "egressDeny").findSome?
    (badCombination · "to")
  ingress.or egress

/-- One spec of a policy: none for a host rule, an error for one that fails its
whole resource. -/
def podSpec (spec : Json) (name : String) (inNamespace : Option String) (cluster : String) :
    Reported (Except String (Option PodPolicy)) :=
  match (spec.present "endpointSelector").isSome, (spec.present "nodeSelector").isSome with
  | false, true =>
      if inNamespace.isNone then pure (.ok none)
      else pure (.error "nodeSelector is cluster-scoped")
  | true, true => pure (.error "both endpointSelector and nodeSelector")
  | false, false => pure (.error "neither endpointSelector nor nodeSelector")
  | true, false =>
      match specCombination spec with
      | some error => pure (.error error)
      | none =>
          match LabelSelector.parse (spec.get "endpointSelector") with
          | .error error => pure (.error ("endpointSelector " ++ error))
          | .ok subject => do
              let subject := subject.rekey sourcedKey
              if hasReserved subject then
                report (name ++ ": an endpointSelector with a reserved: label selects no Pod")
                return .ok none
              else
                let subject := match inNamespace with
                  | some inNamespace => subject.withLabel ("k8s:" ++ K8s.podNamespace) inNamespace
                  | none => subject
                let ingress ← podDirection lowercase spec false name inNamespace cluster
                let egress ← podDirection lowercase spec true name inNamespace cluster
                return .ok (some { name, subject, ingress, egress })

def specs (object : Json) : List Json :=
  (object.present "spec").toList ++ items object "specs"

/-- The policies of a resource's specs; the first that fails fails all. -/
def podSpecs (name : String) (inNamespace : Option String) (cluster : String) :
    List Json → Reported (Except String (List PodPolicy))
  | [] => pure (.ok [])
  | spec :: rest => do
      match ← podSpec lowercase spec name inNamespace cluster with
      | .error error => return .error error
      | .ok policy =>
          match ← podSpecs name inNamespace cluster rest with
          | .error error => return .error error
          | .ok policies => return .ok (policy.toList ++ policies)

def podObject (isNamespaced : Bool) (cluster : String) (object : Json) :
    Reported (List PodPolicy) := do
  let inNamespace :=
    if isNamespaced then some (object.textAt ["metadata", "namespace"]) else none
  let name := inNamespace.getD "" ++ "/" ++ object.textAt ["metadata", "name"]
  match ← podSpecs lowercase name inNamespace cluster (specs object) with
  | .ok policies => return policies
  | .error error => do
      report (name ++ ": not enforced, " ++ error)
      return []

def podPolicies (namespaced clusterwide : List Json) (cluster : String) :
    Reported (List PodPolicy) := do
  let first ← mapEach (podObject lowercase true cluster) namespaced
  let second ← mapEach (podObject lowercase false cluster) clusterwide
  return first.flatten ++ second.flatten

def selectRules (name : String) (out : HostPolicies) (spec : Json) : Reported HostPolicies := do
  let side : Side := { lead := "from", pods := none }
  discard (mapEach (fun name' =>
    if (spec.present name').isSome then
      report (name ++ ": host " ++ name' ++ " rules are not enforced")
    else pure ()) ["egress", "egressDeny"])
  let allows ← rules lowercase (items spec "ingress") false name side
  let denies ← rules lowercase (items spec "ingressDeny") true name side
  let hasIngress := ((spec.get "ingress").bind Json.asArray).isSome ||
    ((spec.get "ingressDeny").bind Json.asArray).isSome
  let defaultDeny :=
    ((spec.pointer ["enableDefaultDeny", "ingress"]).bind Json.asBool).getD true
  return { out with
    rules := out.rules ++ allows ++ denies
    enforceIngress := out.enforceIngress || (hasIngress && defaultDeny) }

/-- One spec of a clusterwide object, and whether one has selected this node. -/
def selectSpec (labels : BTreeMap String String) (podRules : Bool) (name : String)
    (state : HostPolicies × Bool) (spec : Json) : Reported (HostPolicies × Bool) :=
  match spec.present "nodeSelector" with
  | none => do
      if !podRules && (spec.present "endpointSelector").isSome then
        report (name ++ ": endpointSelector rules (Pod policy) are not enforced")
      return state
  | some nodeSelector =>
      match LabelSelector.parse (some nodeSelector) with
      | .error error => do
          report (name ++ ": nodeSelector " ++ error ++ "; not enforced")
          return state
      | .ok selector =>
          if !(selector.rekey plainKey).matches labels then pure state
          else do
            let out ← selectRules lowercase name state.1 spec
            return (out, true)

def selectObject (labels : BTreeMap String String) (podRules : Bool) (out : HostPolicies)
    (object : Json) : Reported HostPolicies := do
  let name := "/" ++ object.textAt ["metadata", "name"]
  let (out, selected) ← (specs object).foldlM (selectSpec lowercase labels podRules name)
    (out, false)
  if !selected then return out
  else
    let audit := ((object.pointer ["metadata", "annotations", auditAnnotation]).bind
      Json.asStr) = some "true"
    return { out with names := out.names ++ [name], audit := out.audit || audit }

def select (objects : List Json) (labels : BTreeMap String String) (podRules : Bool) :
    Reported HostPolicies :=
  objects.foldlM (selectObject lowercase labels podRules) {}

/-! ## Protocols of parsed rules -/

def Transport (ranges : List (U8 × PortRange)) : Prop :=
  ∀ range ∈ ranges, range.1 ≠ anyProtocol

theorem ensures_refuse (line : String) (post : α → Prop) : Ensures (refuse line) post := by
  intro value equal
  cases equal

theorem ensures_failure (post : α → Prop) : Ensures (failure : Parse α) post := by
  intro value equal
  cases equal

theorem ensures_true (computed : Parse α) : Ensures computed fun _ => True :=
  fun _ _ => trivial

variable {lowercase} {list : List Json} {parsed : Rule}

theorem portProtocols_ensures (policy : String) (port : Json) :
    Ensures (portProtocols policy port) fun protocols => ∀ protocol ∈ protocols,
      protocol ≠ anyProtocol := by
  unfold portProtocols
  split
  all_goals first
    | exact ensures_refuse _ _
    | exact ensures_pure (by decide)

theorem addPort_ensures (policy : String) (allowNamed : Bool) (ports : Ports) (port : Json)
    (transport : Transport ports.ranges) :
    Ensures (addPort lowercase policy allowNamed ports port) (Transport ·.ranges) := by
  unfold addPort
  refine ensures_bind (portProtocols_ensures policy port) fun protocols chosen => ?_
  refine ensures_bind (ensures_true _) fun text _ => ?_
  split
  · split
    · exact ensures_pure transport
    · exact ensures_refuse _ _
  · split
    · apply ensures_pure
      intro range member
      rcases List.mem_append.mp member with earlier | added
      · exact transport range earlier
      · rcases List.mem_map.mp added with ⟨protocol, inside, equal⟩
        rw [← equal]
        exact chosen protocol inside
    · exact ensures_refuse _ _

theorem addPortItem_ensures (policy : String) (allowNamed : Bool) (ports : Ports) (item : Json)
    (transport : Transport ports.ranges) :
    Ensures (addPortItem lowercase policy allowNamed ports item) (Transport ·.ranges) := by
  unfold addPortItem
  split
  · exact ensures_refuse _ _
  · split
    · exact ensures_pure transport
    · exact ensures_foldlM (addPort_ensures policy allowNamed) _ _ transport

theorem ports_ensures (value : Json) (policy : String) (allowNamed : Bool) :
    Ensures (ports lowercase value policy allowNamed) (Transport ·.ranges) := by
  have empty : Transport ({} : Ports).ranges := by simp [Transport]
  unfold ports
  split
  · exact ensures_pure empty
  · split
    · exact ensures_failure _
    · exact ensures_foldlM (addPortItem_ensures policy allowNamed) _ _ empty

theorem rule_ensures (value : Json) (deny : Bool) (policy : String) (side : Side) :
    Ensures (rule lowercase value deny policy side) (Transport ·.ports) := by
  unfold rule
  split
  · exact ensures_refuse _ _
  · refine ensures_bind (ensures_true _) fun _ _ => ?_
    refine ensures_bind (ensures_true _) fun _ _ => ?_
    refine ensures_bind (ensures_true _) fun _ _ => ?_
    refine ensures_bind (ensures_true _) fun _ _ => ?_
    refine ensures_bind (ports_ensures value policy _) fun found transport => ?_
    exact ensures_pure transport

theorem transport_of_mem_rules {deny : Bool} {policy : String} {side : Side}
    (member : parsed ∈ (rules lowercase list deny policy side).value) : Transport parsed.ports := by
  simp only [rules, value_map, value_mapEach, List.mem_flatten, List.mem_map] at member
  rcases member with ⟨found, ⟨item, _, equal⟩, inside⟩
  rw [← equal, Option.mem_toList] at inside
  exact rule_ensures item deny policy side parsed inside

variable {cluster name : String} {inNamespace : Option String} {policy : PodPolicy}

theorem transport_of_mem_podDirection {spec : Json} {egress : Bool}
    (member : parsed ∈ (podDirection lowercase spec egress name inNamespace cluster).value.rules) :
    Transport parsed.ports := by
  simp only [podDirection, value_bind, value_pure, List.mem_append] at member
  rcases member with allow | deny
  · exact transport_of_mem_rules allow
  · exact transport_of_mem_rules deny

def PodPolicy.allRules (policy : PodPolicy) : List Rule :=
  policy.ingress.rules ++ policy.egress.rules

theorem transport_of_podSpec {spec : Json}
    (parsed : (podSpec lowercase spec name inNamespace cluster).value = .ok (some policy)) :
    ∀ rule ∈ policy.allRules, Transport rule.ports := by
  unfold podSpec at parsed
  split at parsed
  · split at parsed <;> cases parsed
  · cases parsed
  · cases parsed
  · split at parsed
    · cases parsed
    · split at parsed
      · cases parsed
      · simp only at parsed
        split at parsed
        · simp only [value_bind, value_pure, Except.ok.injEq, reduceCtorEq] at parsed
        · simp only [value_bind, value_pure, Except.ok.injEq, Option.some.injEq] at parsed
          subst parsed
          intro rule member
          simp only [PodPolicy.allRules, List.mem_append] at member
          rcases member with ingress | egress
          · exact transport_of_mem_podDirection ingress
          · exact transport_of_mem_podDirection egress

theorem transport_of_podSpecs {policies : List PodPolicy}
    (parsed : (podSpecs lowercase name inNamespace cluster list).value = .ok policies) :
    ∀ policy ∈ policies, ∀ rule ∈ policy.allRules, Transport rule.ports := by
  induction list generalizing policies with
  | nil =>
      cases parsed
      simp
  | cons spec rest induction =>
      simp only [podSpecs, value_bind] at parsed
      cases first : (podSpec lowercase spec name inNamespace cluster).value with
      | error error =>
          rw [first] at parsed
          cases parsed
      | ok policy =>
          rw [first] at parsed
          simp only [value_bind] at parsed
          cases others : (podSpecs lowercase name inNamespace cluster rest).value with
          | error error =>
              rw [others] at parsed
              cases parsed
          | ok later =>
              rw [others] at parsed
              cases parsed
              intro chosen member
              rcases List.mem_append.mp member with here | inside
              · rw [Option.mem_toList.mp here] at first
                exact transport_of_podSpec first
              · exact induction others chosen inside

theorem transport_of_podPolicies {namespaced clusterwide : List Json}
    (member : policy ∈ (podPolicies lowercase namespaced clusterwide cluster).value) :
    ∀ rule ∈ policy.allRules, Transport rule.ports := by
  have ofObject : ∀ (isNamespaced : Bool) (object : Json),
      policy ∈ (podObject lowercase isNamespaced cluster object).value →
        ∀ rule ∈ policy.allRules, Transport rule.ports := by
    intro isNamespaced object inside
    simp only [podObject, value_bind] at inside
    split at inside
    · rename_i policies parsed
      exact transport_of_podSpecs parsed policy inside
    · cases inside
  simp only [podPolicies, value_bind, value_mapEach, value_pure, List.mem_append,
    List.mem_flatten, List.mem_map] at member
  rcases member with ⟨found, ⟨object, _, equal⟩, inside⟩ | ⟨found, ⟨object, _, equal⟩, inside⟩
  · exact ofObject true object (equal ▸ inside)
  · exact ofObject false object (equal ▸ inside)

end FlowSdn.Agent.HostPolicy
