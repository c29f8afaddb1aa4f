import FlowSdn.Foundation.Json
import FlowSdn.Identity.Labels
import FlowSdn.Net.Address

/-! # The controller's view

What the policy compiler reads of the cluster: nodes, Pods, local endpoints,
identities and policy objects, and the identity labels of Pods.
-/

namespace FlowSdn.Agent

open OrderedMap Identity Net

structure PodName where
  inNamespace : String
  name : String
  deriving DecidableEq

namespace PodName

instance : Ord PodName where
  compare := compareLex (compareOn inNamespace) (compareOn name)

instance : Std.TransOrd PodName := inferInstanceAs (Std.TransCmp (compareLex _ _))

instance : Std.LawfulEqOrd PodName where
  eq_of_compare {left right} equal := by
    cases left
    cases right
    simp_all [compare]

end PodName

structure NodeInfo where
  name : String
  podCidrs : List (IpAddr × U8) := []
  internalIps : List IpAddr := []
  labels : BTreeMap String String := ∅

structure NamedPort where
  protocol : U8
  name : String
  port : U16
  deriving DecidableEq

structure PodInfo where
  inNamespace : String
  name : String
  node : String
  hostNetwork : Bool := false
  ips : List IpAddr := []
  labels : BTreeMap String String := ∅
  serviceAccount : String := ""
  namedPorts : List NamedPort := []

structure LocalEndpoint where
  id : U16
  inNamespace : String
  name : String
  ifindex : U32
  deriving DecidableEq

inductive HostFirewall
  | off
  | audit
  | enforce
  deriving DecidableEq

structure View where
  localNode : String := ""
  nodes : List NodeInfo := []
  pods : List PodInfo := []
  podsSynced : Bool := false
  endpoints : List LocalEndpoint := []
  identity : Bool := false
  clusterName : String := ""
  namespaces : BTreeMap String (BTreeMap String String) := ∅
  namespacesSynced : Bool := false
  podIdentities : BTreeMap PodName U32 := ∅
  identities : BTreeMap U32 (List String) := ∅
  networkPolicies : List Json := []
  flowsdnPolicy : Bool := false
  podPolicies : List Json := []
  hostFirewall : HostFirewall := .off
  clusterwidePolicies : List Json := []
  /-- The uplinks the host firewall is wanted on, by name. -/
  hostInterfaces : BTreeMap String U32 := ∅
  /-- The uplinks that only learn flows. -/
  hostLearning : BTreeSet U32 := ∅
  /-- The standard library's `str::to_lowercase`, for any tables of Unicode. -/
  lowercase : String → String := Text.asciiLowercase

def source : String := "k8s"
def podNamespace : String := "io.kubernetes.pod.namespace"
def agentPrefix : String := "io.flowsdn.k8s"
def namespaceLabels : String := "io.flowsdn.k8s.namespace.labels"
def serviceAccount : String := "io.flowsdn.k8s.policy.serviceaccount"
def policyCluster : String := "io.flowsdn.k8s.policy.cluster"

/-- Add a label unless the label model refuses it. -/
def addLabel (labels : Labels) (pair : String × String) : Labels :=
  match Label.new source pair.1 pair.2 with
  | .ok label => labels.insert label
  | .error _ => labels

/-- What makes a Pod's labels, in the order in which it is added. -/
def podEntries (inNamespace : String) (labels : BTreeMap String String)
    (ofNamespace : Option (BTreeMap String String)) (account cluster : String) :
    List (String × String) :=
  let own := labels.toList.filter fun pair => !Text.startsWith agentPrefix pair.1
  let inherited := ((ofNamespace.map (·.toList)).getD []).map fun pair =>
    (namespaceLabels ++ "." ++ pair.1, pair.2)
  let accounts := if account.isEmpty then [] else [(serviceAccount, account)]
  own ++ inherited ++ [(podNamespace, inNamespace)] ++ accounts ++ [(policyCluster, cluster)]

def podLabels (inNamespace : String) (labels : BTreeMap String String)
    (ofNamespace : Option (BTreeMap String String)) (account cluster : String)
    (filter : LabelFilter) : Labels :=
  filter.retained ((podEntries inNamespace labels ofNamespace account cluster).foldl addLabel {})

def labelStrings (labels : Labels) : List String :=
  labels.iter.map fun label => label.source ++ ":" ++ label.key ++ "=" ++ label.value

namespace View

structure PodLabelSet where
  pod : PodName
  isLocal : Bool
  labels : Labels

/-- The label sets of the Pods that are not host-network; none before the Pod and
Namespace lists are complete. -/
def podLabelSets (view : View) (filter : LabelFilter) : List PodLabelSet :=
  if !(view.podsSynced && view.namespacesSynced) then []
  else
    (view.pods.filter fun pod => !pod.hostNetwork).map fun pod =>
      { pod := ⟨pod.inNamespace, pod.name⟩
        isLocal := pod.node = view.localNode
        labels := podLabels pod.inNamespace pod.labels view.namespaces[pod.inNamespace]?
          pod.serviceAccount view.clusterName filter }

def podIdentity (view : View) (inNamespace name : String) : Option U32 :=
  view.podIdentities[(⟨inNamespace, name⟩ : PodName)]?

end View

end FlowSdn.Agent
