import FlowSdn.Agent.Entries
import FlowSdn.Agent.HostPolicy
import FlowSdn.Agent.View

/-! # The policy compiler

From the controller's view to the desired contents of the policy maps: enforcement
rows by interface, policy entries, and the identity cache.
-/

namespace FlowSdn.Agent

open Abi Policy Words LongestPrefix OrderedMap Net Reported HostPolicy

def hostIdentity : U32 := 1

/-- Local CIDR identities come after this: scope 1 in the top byte. -/
def cidrIdentityBase : U32 := 1#32 <<< 24

structure EnforcedEndpoint where
  id : U16
  pod : String
  ingress : Bool
  egress : Bool
  entries : Nat
  deriving DecidableEq

structure HostStatus where
  mode : HostFirewall
  policies : List String
  ingressEnforced : Bool
  audit : Bool
  interfaces : List String
  learning : List String
  enforcingOn : List String
  entries : Nat
  deriving DecidableEq

structure Desired where
  endpoints : BTreeMap U32 PolicyEndpoint := ∅
  entries : Trie PolicyEntry := ∅
  ipcache : Trie RemoteEndpointInfo := ∅
  problems : List String := []
  enforced : List EnforcedEndpoint := []
  host : Option HostStatus := none
  podPolicies : BTreeSet String := ∅

/-- `k8s:<key>=<value>` label strings as the map a selector reads. -/
def labelMap (labels : List String) : BTreeMap String String :=
  insertAll ∅ (labels.filterMap (Text.splitOnce '='))

def ipKey (ip : IpAddr) (bits : Nat) : Option TrieKey :=
  let key := match ip with
    | .v4 address => IpCacheKey.v4 address (BitVec.ofNat 32 bits) 0
    | .v6 address => IpCacheKey.v6 address (BitVec.ofNat 32 bits) 0
  key.toOption.map IpCacheKey.toBytes

/-! ## What the view holds -/

/-- The NetworkPolicy entries, each with its policy's `namespace/name`. -/
def importPolicies (view : View) : Reported (List (String × K8s.Entry)) :=
  List.flatten <$> mapEach (fun object => do
    let name := object.textAt ["metadata", "namespace"] ++ "/" ++
      object.textAt ["metadata", "name"]
    match K8s.networkPolicy object (some view.clusterName) with
    | .ok entries => return entries.map (name, ·)
    | .error error => do
        report (name ++ ": not enforced, " ++ error)
        return []) view.networkPolicies

namespace View

def networkEntries (view : View) : List (String × K8s.Entry) := (importPolicies view).value

def parsedPodPolicies (view : View) : Reported (List PodPolicy) :=
  if view.flowsdnPolicy then
    HostPolicy.podPolicies view.lowercase view.podPolicies view.clusterwidePolicies view.clusterName
  else pure []

/-- The host policies that select this node; none with the host firewall off. -/
def hostPolicies (view : View) : Option (Reported HostPolicies) :=
  if view.hostFirewall = .off then none
  else
    let labels := ((view.nodes.find? (·.name = view.localNode)).map (·.labels)).getD ∅
    some (select view.lowercase view.clusterwidePolicies labels view.flowsdnPolicy)

def flowsdnRules (view : View) : List HostPolicy.Rule :=
  (view.hostPolicies.map (·.value.rules)).getD [] ++
    view.parsedPodPolicies.value.flatMap fun policy => policy.ingress.rules ++ policy.egress.rules

/-- The blocks that rules name, each a CIDR and its exceptions. -/
def blocks (view : View) : List (String × List String) :=
  (view.flowsdnRules.flatMap fun rule => (rule.peers.getD []).filterMap fun peer =>
    match peer with
    | .cidr cidr except => some (cidr, except)
    | _ => none) ++
  view.networkEntries.flatMap fun entry => (entry.2.l3.getD []).filterMap fun peer =>
    match peer with
    | .cidr cidr except => some (cidr, except)
    | _ => none

def prefixes (view : View) : BTreeSet CidrPrefix :=
  collect (view.blocks.flatMap fun block => (block.1 :: block.2).filterMap fun text =>
    (CidrPrefix.parse text).toOption)

/-- The local identity of each prefix, by its position. -/
def cidrs (view : View) : BTreeMap CidrPrefix U32 :=
  insertAll ∅ ((view.prefixes.toList.zipIdx 1).map fun pair =>
    (pair.1, saturatingAdd cidrIdentityBase (BitVec.ofNat 32 pair.2)))

/-- This node's addresses. `gateways` are its router addresses. -/
def hostAddresses (view : View) (gateways : List IpAddr) : List IpAddr :=
  (view.nodes.filter (·.name = view.localNode)).flatMap (·.internalIps) ++ gateways

def remoteNodes (view : View) (gateways : List IpAddr) : List IpAddr :=
  ((view.nodes.filter (·.name ≠ view.localNode)).flatMap (·.internalIps)).filter fun ip =>
    !(view.hostAddresses gateways).contains ip

def subjects (view : View) : BTreeMap PodName (BTreeMap String String) :=
  match Identity.LabelFilter.identity with
  | none => ∅
  | some filter =>
      insertAll ∅ (((view.podLabelSets filter).filter (·.isLocal)).map fun set =>
        (set.pod, labelMap (labelStrings set.labels)))

end View

/-! ## Peers -/

structure Compiler where
  view : View
  identities : BTreeMap U32 (BTreeMap String String)
  cidrs : BTreeMap CidrPrefix U32
  host : List IpAddr
  remoteNodes : List IpAddr

/-- A CIDR and its exceptions, parsed; none when one of them is not a CIDR. -/
def parseBlock (cidr : String) (except : List String) :
    Option (CidrPrefix × List CidrPrefix) := do
  let allow ← (CidrPrefix.parse cidr).toOption
  let except ← except.mapM fun text => (CidrPrefix.parse text).toOption
  return (allow, except)

/-- Whether a block selects a prefix: it lies in the CIDR and in no exception. -/
def blockSelects (allow : CidrPrefix) (except : List CidrPrefix) (candidate : CidrPrefix) :
    Bool :=
  allow.containsPrefix candidate && !except.any (·.containsPrefix candidate)

def blockHolds (allow : CidrPrefix) (except : List CidrPrefix) (ips : List IpAddr) : Bool :=
  ips.any fun ip =>
    match CidrPrefix.new ip ip.hostBits with
    | .ok candidate => blockSelects allow except candidate
    | .error _ => false

namespace Compiler

def selectorPeer (compiler : Compiler) (selector : LabelSelector) : List U32 :=
  (compiler.identities.toList.filter fun pair => selector.matches pair.2).map (·.1)

/-- The identities a CIDR minus its exceptions selects: the local CIDR identities
inside it, and the host and remote nodes whose addresses are. -/
def cidrPeer (compiler : Compiler) (policy cidr : String) (except : List String) :
    Reported (BTreeSet U32) :=
  match parseBlock cidr except with
  | none => do
      report (policy ++ ": CIDR " ++ cidr ++ " is not a CIDR; it allows nothing")
      return ∅
  | some (allow, except) =>
      let out := collect
        ((compiler.cidrs.toList.filter fun pair => blockSelects allow except pair.1).map (·.2))
      let out := if blockHolds allow except compiler.host then out.insert hostIdentity else out
      pure (if blockHolds allow except compiler.remoteNodes then out.insert remoteNode else out)

def peer (compiler : Compiler) (policy : String) (peer : K8s.Peer) : Reported (List U32) :=
  match peer with
  | .selector selector => pure (compiler.selectorPeer selector)
  | .cidr cidr except => (·.toList) <$> compiler.cidrPeer policy cidr except

/-- The identities an entry's peers select (the wildcard is every identity). -/
def peers (compiler : Compiler) (policy : String) (entry : K8s.Entry) :
    Reported (BTreeSet U32) :=
  match entry.l3 with
  | none => pure (collect [wildcard])
  | some peers => (fun found => collect found.flatten) <$> mapEach (compiler.peer policy) peers

def hostPeer (compiler : Compiler) (policy : String) (peer : HostPolicy.Peer) :
    Reported (List U32) :=
  match peer with
  | .identities identities => pure identities
  | .cidr cidr except => (·.toList) <$> compiler.cidrPeer policy cidr except
  | .endpoints selector => pure (compiler.selectorPeer selector)

def hostPeers (compiler : Compiler) (policy : String) (peers : Option (List HostPolicy.Peer)) :
    Reported (BTreeSet U32) :=
  match peers with
  | none => pure (collect [wildcard])
  | some peers =>
      (fun found => collect found.flatten) <$> mapEach (compiler.hostPeer policy) peers

/-! ## Ports -/

/-- The Pods holding an identity (every Pod for the wildcard). -/
def podsOf (compiler : Compiler) (identity : U32) : List PodInfo :=
  compiler.view.pods.filter fun pod =>
    !pod.hostNetwork &&
      (identity = wildcard ||
        compiler.view.podIdentity pod.inNamespace pod.name = some identity)

def namedPorts (pods : List PodInfo) (protocol : U8) (name : String) : BTreeSet U16 :=
  collect (pods.flatMap fun pod => pod.namedPorts.filterMap fun port =>
    if port.protocol = protocol ∧ port.name = name then some port.port else none)

/-- The ports a name stands for between a subject and a peer: the destination's
container ports name them. -/
def destinationPorts (compiler : Compiler) (ingress : Bool) (subject : PodInfo) (peer : U32)
    (protocol : U8) (name : String) : List U16 :=
  (namedPorts (if ingress then [subject] else compiler.podsOf peer) protocol name).toList

def podRule (compiler : Compiler) (rule : HostPolicy.Rule) (ingress : Bool)
    (subject : PodInfo) : Reported (List HostKey) := do
  let peers ← compiler.hostPeers rule.policy rule.peers
  return peers.toList.flatMap fun id =>
    (if rule.ports.isEmpty && rule.named.isEmpty then [⟨id, anyProtocol, 0#16, 0#8⟩] else []) ++
      (rule.ports.flatMap fun port => l4Keys id port.1 port.2) ++
      rule.named.flatMap fun named =>
        (compiler.destinationPorts ingress subject id named.1 named.2).map fun port =>
          ⟨id, named.1, port, 16#8⟩

def portRules (compiler : Compiler) (policy : String) (entry : K8s.Entry) (subject : PodInfo)
    (peers : BTreeSet U32) (rule : K8s.PortRule) : Reported (List (U32 × U8 × PortRange)) :=
  let protocol := rule.protocol.number
  match Text.parseUnsigned 65536 rule.port with
  | some port =>
      match PortRange.fromApi (BitVec.ofNat 16 port) rule.endPort with
      | .ok range => pure (peers.toList.map (·, protocol, range))
      | .error error => do
          let finish := Text.debugOption (rule.endPort.map fun finish => toString finish.toNat)
          report (policy ++ ": port " ++ toString port ++ "-" ++ finish ++ ": " ++ error.text ++
            "; it allows nothing")
          return []
  | none =>
      pure (peers.toList.flatMap fun id =>
        (compiler.destinationPorts entry.ingress subject id protocol rule.port).filterMap
          fun port => (PortRange.fromApi port none).toOption.map (id, protocol, ·))

def rules (compiler : Compiler) (policy : String) (entry : K8s.Entry) (subject : PodInfo) :
    Reported (List (U32 × U8 × PortRange)) := do
  let peers ← compiler.peers policy entry
  match entry.l4 with
  | none => return peers.toList.map (·, anyProtocol, PortRange.any)
  | some ports => List.flatten <$> mapEach (compiler.portRules policy entry subject peers) ports

def entryKeys (compiler : Compiler) (subject : PodInfo) (entry : String × K8s.Entry) :
    Reported (List HostKey) :=
  if entry.2.verdict ≠ .allow then do
    report (entry.1 ++ ": only allow rules are enforced")
    return []
  else do
    let rules ← compiler.rules entry.1 entry.2 subject
    return rules.flatMap fun rule => l4Keys rule.1 rule.2.1 rule.2.2

end Compiler

namespace View

def compiler (view : View) (gateways : List IpAddr) : Compiler where
  view
  identities := insertAll ∅ (view.identities.toList.map fun pair => (pair.1, labelMap pair.2))
  cidrs := view.cidrs
  host := view.hostAddresses gateways
  remoteNodes := view.remoteNodes gateways

def selectedEntries (view : View) (labels : BTreeMap String String) (ingress : Bool) :
    List (String × K8s.Entry) :=
  view.networkEntries.filter fun entry =>
    entry.2.ingress = ingress && entry.2.subject.matches labels

def selectedDirections (view : View) (labels : BTreeMap String String) (ingress : Bool) :
    List PodDirection :=
  ((view.parsedPodPolicies.value.filter (·.subject.matches labels)).map fun policy =>
    if ingress then policy.ingress else policy.egress).filter (·.selects)

end View

/-! ## Endpoints -/

/-- The allow and deny keys of one direction of a Pod; none where nothing selects it. -/
def directionKeys (compiler : Compiler) (subject : PodInfo) (labels : BTreeMap String String)
    (ingress : Bool) : Reported (Option (BTreeSet HostKey × BTreeSet HostKey)) :=
  let selected := compiler.view.selectedEntries labels ingress
  let directions := compiler.view.selectedDirections labels ingress
  if selected.isEmpty && directions.isEmpty then pure none
  else do
    let entryKeys ← mapEach (compiler.entryKeys subject) selected
    let ruleKeys ← mapEach (fun rule => do
      let keys ← compiler.podRule rule ingress subject
      return (rule.deny, keys)) (directions.flatMap (·.rules))
    let allows := collect (entryKeys.flatten ++
      (ruleKeys.filter (!·.1)).flatMap (·.2))
    let denies := collect ((ruleKeys.filter (·.1)).flatMap (·.2))
    let allows :=
      if selected.isEmpty && !directions.any (·.defaultDeny) then
        allows.insert ⟨wildcard, anyProtocol, 0#16, 0#8⟩
      else allows
    return some (allows, denies)

structure EndpointState where
  entries : Trie PolicyEntry
  flags : U32
  count : Nat

def enforceBit (ingress : Bool) : U32 := if ingress then enforceIngress else enforceEgress

def compileDirection (compiler : Compiler) (id : U16) (subject : PodInfo)
    (labels : BTreeMap String String) (state : EndpointState) (ingress : Bool) :
    Reported EndpointState := do
  match ← directionKeys compiler subject labels ingress with
  | none => return state
  | some (allows, denies) =>
      let rewritten := denyOverAllow allows denies
      let written := writeEntries state.entries (id.setWidth 32) (!ingress)
        rewritten.1 rewritten.2 allowPrecedence
      return {
        entries := written.1
        flags := state.flags ||| enforceBit ingress
        count := state.count + written.2 }

def View.subject (view : View) (endpoint : LocalEndpoint) :
    Option (BTreeMap String String × PodInfo) := do
  let labels ← view.subjects[(⟨endpoint.inNamespace, endpoint.name⟩ : PodName)]?
  let pod ← view.pods.find? fun pod =>
    pod.inNamespace = endpoint.inNamespace && pod.name = endpoint.name
  return (labels, pod)

def compileEndpoint (compiler : Compiler) (desired : Desired) (endpoint : LocalEndpoint) :
    Reported Desired :=
  match compiler.view.subject endpoint with
  | none => pure desired
  | some (labels, pod) => do
      let state ← compileDirection compiler endpoint.id pod labels ⟨desired.entries, 0#32, 0⟩ true
      let state ← compileDirection compiler endpoint.id pod labels state false
      let desired := { desired with entries := state.entries }
      if state.flags ≠ 0#32 ∧ endpoint.ifindex ≠ 0#32 then
        return { desired with
          endpoints := desired.endpoints.insert endpoint.ifindex
            { endpoint := endpoint.id.setWidth 32, flags := state.flags }
          enforced := desired.enforced ++ [{
            id := endpoint.id
            pod := endpoint.inNamespace ++ "/" ++ endpoint.name
            ingress := state.flags &&& enforceIngress ≠ 0#32
            egress := state.flags &&& enforceEgress ≠ 0#32
            entries := state.count }] }
      else return desired

/-- The L4 parts of a host rule: every L4 when it names no port. -/
def hostL4 (rule : HostPolicy.Rule) : List (U8 × U16 × U8) :=
  (if rule.ports.isEmpty then [(anyProtocol, 0#16, 0#8)] else []) ++
    rule.ports.flatMap fun port => port.2.blocks.map fun block =>
      (port.1, block.port, block.portPrefix)

def Compiler.hostRule (compiler : Compiler) (rule : HostPolicy.Rule) :
    Reported (Bool × List HostKey) := do
  let peers ← compiler.hostPeers rule.policy rule.peers
  return (rule.deny, peers.toList.flatMap fun id =>
    (hostL4 rule).map fun l4 => ⟨id, l4.1, l4.2.1, l4.2.2⟩)

def enforcesUplink (view : View) (hosts : HostPolicies) (ifindex : U32) : Bool :=
  hosts.enforceIngress && !view.hostLearning.contains ifindex

def uplinkRow (view : View) (hosts : HostPolicies) (audit : Bool) (ifindex : U32) :
    PolicyEndpoint where
  endpoint := hostEndpoint
  flags :=
    if enforcesUplink view hosts ifindex then
      if audit then enforceIngress ||| enforceAudit else enforceIngress
    else 0#32

def hostFirewall (compiler : Compiler) (hosts : HostPolicies) (desired : Desired) :
    Reported Desired := do
  let view := compiler.view
  let ruleKeys ← mapEach compiler.hostRule hosts.rules
  let allows := collect ((ruleKeys.filter (!·.1)).flatMap (·.2))
  let denies := collect ((ruleKeys.filter (·.1)).flatMap (·.2))
  let rewritten := denyOverAllow allows denies
  let written := writeEntries desired.entries hostEndpoint false rewritten.1 rewritten.2
    hostAllowPrecedence
  let audit := hosts.audit || view.hostFirewall = .audit
  return { desired with
    entries := written.1
    endpoints := insertAll desired.endpoints (view.hostInterfaces.toList.map fun uplink =>
      (uplink.2, uplinkRow view hosts audit uplink.2))
    host := some {
      mode := view.hostFirewall
      policies := hosts.names
      ingressEnforced := hosts.enforceIngress
      audit
      interfaces := view.hostInterfaces.toList.map (·.1)
      learning := (view.hostInterfaces.toList.filter fun uplink =>
        view.hostLearning.contains uplink.2).map (·.1)
      enforcingOn := (view.hostInterfaces.toList.filter fun uplink =>
        enforcesUplink view hosts uplink.2).map (·.1)
      entries := written.2 } }

def identityPair (ip : IpAddr) (bits : Nat) (identity : U32) :
    Option (TrieKey × RemoteEndpointInfo) :=
  (ipKey ip bits).map (·, { secIdentity := identity })

def podAddresses (view : View) : List (IpAddr × U32) :=
  (view.pods.filter (!·.hostNetwork)).flatMap fun pod =>
    match view.podIdentity pod.inNamespace pod.name with
    | none => []
    | some id => pod.ips.map (·, id)

def addressSources (view : View) (gateways : List IpAddr) : List (IpAddr × U32) :=
  podAddresses view ++ (view.remoteNodes gateways).map (·, remoteNode) ++
    (view.hostAddresses gateways).map (·, hostIdentity)

/-- What the identity cache is written from, in order: CIDRs, then single addresses. A
CIDR's network is the one its text names. -/
def identityPairs (view : View) (gateways : List IpAddr) :
    List (TrieKey × RemoteEndpointInfo) :=
  (view.cidrs.toList.filterMap fun pair =>
    identityPair pair.1.network pair.1.length pair.2) ++
  (addressSources view gateways).filterMap fun source =>
    identityPair source.1 source.1.hostBits source.2

def identityOff : String :=
  "identity allocation is off: selector peers match no identity, so they allow nothing"

def compileEndpoints (compiler : Compiler) :
    Desired → List LocalEndpoint → Reported Desired
  | desired, [] => pure desired
  | desired, endpoint :: rest => do
      let desired ← compileEndpoint compiler desired endpoint
      compileEndpoints compiler desired rest

/-- Without identity allocation, selectors select nothing. -/
def checkIdentity (view : View) (entries : List (String × K8s.Entry))
    (podPolicies : List PodPolicy) : Reported Unit :=
  if !view.identity && (!entries.isEmpty || !podPolicies.isEmpty) then report identityOff
  else pure ()

/-- The host firewall, where it is on; its problems are marked as its own. -/
def compileHost (compiler : Compiler) (desired : Desired) : Reported Desired :=
  match compiler.view.hostPolicies with
  | none => pure desired
  | some hosts => do
      let hosts ← ({ hosts with lines := hosts.lines.map ("host firewall: " ++ ·) } :
        Reported HostPolicies)
      hostFirewall compiler hosts desired

/-- Everything but the order of the problems. -/
def compileReported (view : View) (gateways : List IpAddr) : Reported Desired := do
  let entries ← importPolicies view
  let podPolicies ← view.parsedPodPolicies
  checkIdentity view entries podPolicies
  let compiler := view.compiler gateways
  let desired ← compileEndpoints compiler
    { podPolicies := collect (podPolicies.map (·.name)) } view.endpoints
  let desired ← compileHost compiler desired
  return { desired with ipcache := insertAll ∅ (identityPairs view gateways) }

/-- Compile the view; `gateways` are this node's router addresses, which the host also
sends from. -/
def compile (view : View) (gateways : List IpAddr) : Desired :=
  let compiled := compileReported view gateways
  { compiled.value with problems := (collect compiled.lines : BTreeSet String).toList }

def webEndpoint : LocalEndpoint where
  id := 7
  inNamespace := "default"
  name := "web"
  ifindex := 4

/-- A node `n` that runs the Pod `default/web` and no policy. -/
def webView : View where
  localNode := "n"
  pods := [{ inNamespace := "default", name := "web", node := "n" }]
  podsSynced := true
  namespacesSynced := true
  endpoints := [webEndpoint]

theorem webView_subject_isSome : (webView.subject webEndpoint).isSome := by
  decide +kernel

def ipBlockPeer (cidr : String) (except : List String) : Json :=
  .object [("ipBlock", .object [
    ("cidr", .string cidr), ("except", .array (except.map Json.string))])]

/-- A NetworkPolicy for every Pod of its namespace that allows egress to the peers. -/
def egressPolicy (name : String) (peers : List Json) : Json :=
  .object [
    ("metadata", .object [("name", .string name), ("namespace", .string "default")]),
    ("spec", .object [
      ("egress", .array [.object [("to", .array peers)]]),
      ("podSelector", .object []),
      ("policyTypes", .array [.string "Egress"])])]

end FlowSdn.Agent
