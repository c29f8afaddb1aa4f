import FlowSdn.Agent.NetworkPolicies

/-! # Named ports of egress rules

A named port of an egress rule is resolved at the Pods of each identity that the rule's peers
select. A rule without peers selects the wildcard, whose Pods are all of them: what one Pod
exposes under a name is then reachable at every other. It is right only where they all expose
the same.
-/

namespace FlowSdn.Agent

open Abi Policy Words LongestPrefix OrderedMap Datapath Net Reported HostPolicy

/-! ## The ports of a Pod -/

namespace Watch

/-- A container port without a protocol is of TCP. -/
def protocolNumber : Option String → Option U8
  | none => some 6
  | some "TCP" => some 6
  | some "UDP" => some 17
  | some "SCTP" => some 132
  | some _ => none

def namedPort (port : Json) : Option NamedPort := do
  let name ← (port.get "name").bind Json.asStr
  let number ← ((port.get "containerPort").bind Json.asU64).filter fun number =>
    number < 2 ^ 16 ∧ number ≠ 0
  let protocol ← protocolNumber ((port.get "protocol").bind Json.asStr)
  return ⟨protocol, name, BitVec.ofNat 16 number⟩

/-- The named container ports of a Pod object. -/
def namedPorts (value : Json) : List NamedPort :=
  (((value.pointer ["spec", "containers"]).bind Json.asArray).getD []).flatMap fun container =>
    (((container.get "ports").bind Json.asArray).getD []).filterMap namedPort

theorem port_ne_zero {value : Json} {port : NamedPort} (member : port ∈ namedPorts value) :
    port.port ≠ 0#16 := by
  simp only [namedPorts, List.mem_flatMap, List.mem_filterMap] at member
  rcases member with ⟨_, _, object, _, read⟩
  simp only [namedPort, Option.bind_eq_bind, Option.bind_eq_some_iff, Option.pure_def,
    Option.some.injEq, Option.filter_eq_some_iff, decide_eq_true_eq] at read
  rcases read with ⟨name, _, number, ⟨_, small, positive⟩, protocol, _, rfl⟩
  rw [ne_eq, ← BitVec.toNat_inj, BitVec.toNat_ofNat, Nat.mod_eq_of_lt small]
  exact positive

end Watch

/-! ## What a rule lets through -/

def PodInfo.Exposes (pod : PodInfo) (protocol : U8) (name : String) (port : U16) : Prop :=
  ⟨protocol, name, port⟩ ∈ pod.namedPorts

namespace View

def Holds (view : View) (identity : U32) (pod : PodInfo) : Prop :=
  pod ∈ view.pods ∧ pod.hostNetwork = false ∧
    view.podIdentity pod.inNamespace pod.name = some identity

def Exposes (view : View) (identity : U32) (protocol : U8) (name : String) (port : U16) : Prop :=
  ∃ pod, view.Holds identity pod ∧ pod.Exposes protocol name port

/-- The named ports of the Pods are those that the watcher reads in their objects. -/
def Watched (view : View) : Prop :=
  ∀ pod ∈ view.pods, ∃ value, pod.namedPorts = Watch.namedPorts value

end View

namespace Compiler

/-- The keys of one rule let a subject reach an identity on a port. -/
def Reaches (compiler : Compiler) (subject : PodInfo) (entry : String × K8s.Entry)
    (clusterId remote : U32) (protocol : U8) (port : U16) : Prop :=
  ∃ key ∈ (compiler.entryKeys subject entry).value,
    Consulted clusterId remote key.identity ∧ key.l4Matches protocol port

variable {compiler : Compiler} {subject : PodInfo} {entry : String × K8s.Entry} {identity : U32}
  {protocol : U8} {port : U16}

theorem mem_destinationPorts {name : String} :
    port ∈ compiler.destinationPorts false subject identity protocol name ↔
      ∃ pod ∈ compiler.podsOf identity, pod.Exposes protocol name port := by
  simp only [destinationPorts, Bool.false_eq_true, if_false, namedPorts, Std.ExtTreeSet.mem_toList,
    mem_collect, List.mem_flatMap, List.mem_filterMap, PodInfo.Exposes]
  refine exists_congr fun pod => and_congr_right fun _ => ?_
  constructor
  · intro found
    rcases found with ⟨held, member, same⟩
    rw [Option.ite_none_right_eq_some, Option.some.injEq] at same
    rcases same with ⟨⟨rfl, rfl⟩, rfl⟩
    exact member
  · intro member
    exact ⟨_, member, by simp⟩

theorem contains_fromApi {number : U16} {range : PortRange}
    (made : PortRange.fromApi number none = .ok range) :
    range.contains port ↔ number = 0#16 ∨ number = port := by
  unfold PortRange.fromApi at made
  simp only at made
  split at made
  · rename_i zero
    cases made
    simp [zero, PortRange.contains_any]
  · rename_i positive
    cases made
    simp only [positive, false_or, PortRange.contains, Bool.and_eq_true, decide_eq_true_eq]
    constructor
    · intro both
      exact BitVec.le_antisymm both.1 both.2
    · intro same
      subst same
      exact ⟨BitVec.le_refl _, BitVec.le_refl _⟩

variable {ports : List K8s.PortRule}

theorem mem_entryKeys_named (allows : entry.2.verdict = .allow) (egress : entry.2.ingress = false)
    (l4 : entry.2.l4 = some ports)
    (named : ∀ rule ∈ ports, Text.parseUnsigned 65536 rule.port = none) {key : HostKey} :
    key ∈ (compiler.entryKeys subject entry).value ↔
      ∃ rule ∈ ports, ∃ identity ∈ (compiler.peers entry.1 entry.2).value,
        ∃ pod ∈ compiler.podsOf identity, ∃ number,
          pod.Exposes rule.protocol.number rule.port number ∧ ∃ range,
            PortRange.fromApi number none = .ok range ∧
              key ∈ l4Keys identity rule.protocol.number range := by
  have triples : ∀ rule ∈ ports, ∀ triple,
      triple ∈ (compiler.portRules entry.1 entry.2 subject (compiler.peers entry.1 entry.2).value
        rule).value ↔
      ∃ identity ∈ (compiler.peers entry.1 entry.2).value, ∃ number,
        number ∈ compiler.destinationPorts false subject identity rule.protocol.number rule.port ∧
          ∃ range, PortRange.fromApi number none = .ok range ∧
            triple = (identity, rule.protocol.number, range) := by
    intro rule member triple
    simp only [portRules, named rule member, egress, value_pure, List.mem_flatMap,
      Std.ExtTreeSet.mem_toList, List.mem_filterMap, Option.map_eq_some_iff]
    refine exists_congr fun identity => and_congr_right fun _ => exists_congr fun number =>
      and_congr_right fun _ => exists_congr fun range => and_congr ?_ eq_comm
    cases PortRange.fromApi number none <;> simp [Except.toOption]
  unfold entryKeys
  rw [if_neg (by simpa using allows)]
  simp only [value_bind, value_pure, rules, l4, value_map, value_mapEach, List.mem_flatMap,
    List.mem_flatten, List.mem_map]
  constructor
  · intro found
    rcases found with ⟨triple, ⟨list, ⟨rule, member, rfl⟩, isTriple⟩, isKey⟩
    rcases (triples rule member triple).mp isTriple with
      ⟨identity, selected, number, isNumber, range, made, rfl⟩
    rcases mem_destinationPorts.mp isNumber with ⟨pod, isPod, exposed⟩
    exact ⟨rule, member, identity, selected, pod, isPod, number, exposed, range, made, isKey⟩
  · intro found
    rcases found with
      ⟨rule, member, identity, selected, pod, isPod, number, exposed, range, made, isKey⟩
    refine ⟨(identity, rule.protocol.number, range), ⟨_, ⟨rule, member, rfl⟩, ?_⟩, isKey⟩
    exact (triples rule member _).mpr ⟨identity, selected, number,
      mem_destinationPorts.mpr ⟨pod, isPod, exposed⟩, range, made, rfl⟩

theorem exists_fromApi (number : U16) : ∃ range, PortRange.fromApi number none = .ok range := by
  unfold PortRange.fromApi
  simp only
  split
  · exact ⟨_, rfl⟩
  · exact ⟨_, rfl⟩

/-- A rule whose ports are all named reaches an identity on the ports that the Pods of the
identities its peers select expose. -/
theorem reaches_iff (allows : entry.2.verdict = .allow) (egress : entry.2.ingress = false)
    (l4 : entry.2.l4 = some ports)
    (named : ∀ rule ∈ ports, Text.parseUnsigned 65536 rule.port = none) {clusterId remote : U32} :
    compiler.Reaches subject entry clusterId remote protocol port ↔
      ∃ identity ∈ (compiler.peers entry.1 entry.2).value, Consulted clusterId remote identity ∧
        ∃ rule ∈ ports, rule.protocol.number = protocol ∧
          ∃ pod ∈ compiler.podsOf identity, ∃ number,
            pod.Exposes protocol rule.port number ∧ (number = 0#16 ∨ number = port) := by
  unfold Reaches
  constructor
  · intro found
    rcases found with ⟨key, member, consulted, matched⟩
    rcases (mem_entryKeys_named allows egress l4 named).mp member with
      ⟨rule, isRule, identity, selected, pod, isPod, number, exposed, range, made, isKey⟩
    rw [identity_of_mem_l4Keys isKey] at consulted
    have held := exists_mem_l4Keys_matches.mp ⟨key, isKey, matched⟩
    rcases held.resolve_left (K8s.number_ne_anyProtocol rule.protocol) with ⟨same, inside⟩
    subst same
    exact ⟨identity, selected, consulted, rule, isRule, rfl, pod, isPod, number, exposed,
      (contains_fromApi made).mp inside⟩
  · intro found
    rcases found with
      ⟨identity, selected, consulted, rule, isRule, rfl, pod, isPod, number, exposed, covers⟩
    rcases exists_fromApi number with ⟨range, made⟩
    have inside := (contains_fromApi made).mpr covers
    rcases (@exists_mem_l4Keys_matches identity _ _ _ _).mpr (.inr ⟨rfl, inside⟩) with
      ⟨key, isKey, matched⟩
    refine ⟨key, (mem_entryKeys_named allows egress l4 named).mpr ⟨rule, isRule, identity, selected,
      pod, isPod, number, exposed, range, made, isKey⟩, ?_, matched⟩
    rw [identity_of_mem_l4Keys isKey]
    exact consulted

/-- What the rule reaches at a Pod's identity, a Pod of that identity exposes under one of the
rule's names. -/
def NamedByDestination (compiler : Compiler) (subject : PodInfo) (entry : String × K8s.Entry)
    (ports : List K8s.PortRule) (clusterId : U32) : Prop :=
  ∀ remote, (∃ pod, compiler.view.Holds remote pod) → ∀ protocol port,
    compiler.Reaches subject entry clusterId remote protocol port →
      ∃ rule ∈ ports, rule.protocol.number = protocol ∧
        compiler.view.Exposes remote protocol rule.port port

theorem mem_podsOf {pod : PodInfo} :
    pod ∈ compiler.podsOf identity ↔
      pod ∈ compiler.view.pods ∧ pod.hostNetwork = false ∧
        (identity = wildcard ∨
          compiler.view.podIdentity pod.inNamespace pod.name = some identity) := by
  simp [podsOf]

end Compiler

section Imported

variable {view : View} {gateways : List IpAddr} {number : U32}

/-- Without flowsdn policies, an enforced direction lets through what some rule does. -/
theorem allowed_compile_iff_reaches {endpoint : LocalEndpoint} {labels : BTreeMap String String}
    {pod : PodInfo} {ingress : Bool} (off : view.flowsdnPolicy = false) (separate : Separate view)
    (isLocal : endpoint ∈ view.endpoints) (known : view.subject endpoint = some (labels, pod))
    (isEnforced : DirectionEnforced (compile view gateways) endpoint ingress)
    (clusterId remote : U32) (flow : Flow) :
    allowed clusterId (compile view gateways).entries (endpoint.id.setWidth 32) remote
        (bit (!ingress)) flow ↔
      ∃ entry ∈ view.selectedEntries labels ingress, (view.compiler gateways).Reaches pod entry
        clusterId remote flow.key.protocol flow.port := by
  have noRules : view.selectedRules labels ingress = [] := by
    simp [View.selectedRules, selectedDirections_of_off off]
  rw [directionEnforced_iff_isSome separate isLocal known] at isEnforced
  rcases Option.isSome_iff_exists.mp isEnforced with ⟨⟨allows, denies⟩, keys⟩
  have selected : view.selectedEntries labels ingress ≠ [] := by
    rcases directionKeys_isSome.mp isEnforced with entries | directions
    · exact entries
    · exact absurd (selectedDirections_of_off off labels ingress) directions
  have ofAllows : ∀ key, key ∈ allows ↔ ∃ entry ∈ view.selectedEntries labels ingress,
      key ∈ ((view.compiler gateways).entryKeys pod entry).value := by
    intro key
    have found := (mem_directionKeys keys).1 key
    have sameView : (view.compiler gateways).view = view := rfl
    have closed : ¬view.OpenByDefault labels ingress := fun isOpen => selected isOpen.1
    simpa only [sameView, noRules, closed, List.not_mem_nil, false_and, exists_false,
      or_false] using found
  have noDenies : ∀ key, key ∉ denies := by
    intro key member
    rcases ((mem_directionKeys keys).2 key).mp member with ⟨rule, isRule, _⟩
    have impossible : rule ∈ view.selectedRules labels ingress := isRule
    rw [noRules] at impossible
    cases impossible
  have allowsCanonical : AllCanonical allows := by
    intro key member
    rcases (ofAllows key).mp member with ⟨entry, _, inside⟩
    exact canonical_of_mem_entryKeys inside
  have deniesCanonical : AllCanonical denies := fun key member => absurd member (noDenies key)
  rw [allowed_iff_of_carries (carries_compile separate isLocal known keys) allowsCanonical
    deniesCanonical (below_maxPrecedence (.inl rfl)), exists_consulted_matchAt,
    exists_consulted_matchAt]
  constructor
  · intro found
    rcases found with ⟨⟨key, member, matched⟩, _⟩
    rcases (ofAllows key).mp member with ⟨entry, isEntry, inside⟩
    exact ⟨entry, isEntry, key, inside, matched⟩
  · intro found
    rcases found with ⟨entry, isEntry, key, inside, matched⟩
    refine ⟨⟨key, (ofAllows key).mpr ⟨entry, isEntry, inside⟩, matched⟩, fun denied => ?_⟩
    rcases denied with ⟨other, member, _⟩
    exact noDenies other member

/-! ## Rules that are resolved at the Pods of others -/

namespace View

/-- A selector among the entry's peers takes the labels that the view has for a number. -/
def SelectsNumber (view : View) (entry : K8s.Entry) (number : U32) : Prop :=
  ∃ peers selector labels, entry.l3 = some peers ∧ K8s.Peer.selector selector ∈ peers ∧
    view.identities[number]? = some labels ∧ selector.matches (labelMap labels)

/-- Whatever a Pod exposes under the names of some ports, the Pods of an identity do as well. -/
def ExposesAlso (view : View) (remote : U32) (ports : List K8s.PortRule) (pod : PodInfo) : Prop :=
  ∀ rule ∈ ports, ∀ port, pod.Exposes rule.protocol.number rule.port port →
    ∃ other ∈ ports, other.protocol.number = rule.protocol.number ∧
      view.Exposes remote rule.protocol.number other.port port

/-- Where a rule is resolved at Pods that need not hold the identity it is consulted for, they
expose nothing under its names that the Pods of the identity do not. -/
structure SharesPorts (view : View) (entry : K8s.Entry) (ports : List K8s.PortRule)
    (clusterId : U32) : Prop where
  /-- A rule without peers is resolved at every Pod, as is one that takes the wildcard's number. -/
  everywhere : entry.l3 = none ∨ view.SelectsNumber entry wildcard →
    ∀ remote, (∃ pod, view.Holds remote pod) → ∀ pod ∈ view.pods, pod.hostNetwork = false →
      view.ExposesAlso remote ports pod
  /-- A rule that takes the number of an aggregate is resolved at the Pods of that number. -/
  aggregated : ∀ remote, (∃ pod, view.Holds remote pod) →
    view.SelectsNumber entry (aggregate clusterId remote) →
      ∀ pod, view.Holds (aggregate clusterId remote) pod → view.ExposesAlso remote ports pod

end View

theorem mem_peers_of_selectsNumber {entry : String × K8s.Entry}
    (selects : view.SelectsNumber entry.2 number) :
    number ∈ ((view.compiler gateways).peers entry.1 entry.2).value := by
  rcases selects with ⟨list, selector, labels, some, inside, held, selectorMatches⟩
  refine mem_peers.mpr (.inr ⟨list, some, .selector selector, inside, ?_⟩)
  exact mem_selectorPeer.mpr
    ⟨labelMap labels, by rw [getElem?_identities, held]; rfl, selectorMatches⟩

theorem selectsNumber_of_mem_peers {entry : String × K8s.Entry} (group : number ∈ groups)
    (member : number ∈ ((view.compiler gateways).peers entry.1 entry.2).value) :
    (entry.2.l3 = none ∧ number = wildcard) ∨ view.SelectsNumber entry.2 number := by
  rcases mem_peers.mp member with everyone | ⟨list, some, chosen, inside, selected⟩
  · exact .inl everyone
  · cases chosen with
    | cidr cidr except =>
        have other : Ordinary view number := ordinary_of_mem_groups group
        exact absurd (by simpa [Compiler.peer] using selected)
          (@not_mem_cidrPeer (view.compiler gateways) entry.1 number cidr except other.host
            other.node other.block)
    | selector selector =>
        rcases mem_selectorPeer.mp selected with ⟨labels, held, selectorMatches⟩
        rw [getElem?_identities] at held
        rcases Option.map_eq_some_iff.mp held with ⟨strings, present, rfl⟩
        exact .inr ⟨list, selector, strings, some, inside, present, selectorMatches⟩

/-- A Pod that a rule is resolved at for an identity holds it, or exposes nothing else. -/
theorem holds_or_exposesAlso {entry : String × K8s.Entry} {ports : List K8s.PortRule}
    {clusterId remote identity : U32} {pod : PodInfo}
    (shares : view.SharesPorts entry.2 ports clusterId) (held : ∃ pod, view.Holds remote pod)
    (member : identity ∈ ((view.compiler gateways).peers entry.1 entry.2).value)
    (consulted : Consulted clusterId remote identity)
    (isPod : pod ∈ (view.compiler gateways).podsOf identity) :
    view.Holds remote pod ∨ view.ExposesAlso remote ports pod := by
  rcases Compiler.mem_podsOf.mp isPod with ⟨inside, networked, resolved⟩
  by_cases everyone : identity = wildcard
  · subst everyone
    refine .inr (shares.everywhere ?_ remote held pod inside networked)
    rcases selectsNumber_of_mem_peers (by decide) member with ⟨without, _⟩ | selects
    · exact .inl without
    · exact .inr selects
  · have holds : view.Holds identity pod := ⟨inside, networked, resolved.resolve_left everyone⟩
    rcases consulted with rfl | rfl | same
    · exact .inl holds
    · rcases aggregate_cases clusterId remote with same | group
      · exact .inl (same ▸ holds)
      · rcases selectsNumber_of_mem_peers group member with ⟨_, same⟩ | selects
        · exact absurd same everyone
        · exact .inr (shares.aggregated remote held selects pod holds)
    · exact absurd same everyone

/-- An egress rule with only named ports is resolved per destination exactly when the Pods that
it is resolved at for others share their ports with them: all Pods, for a rule without peers. -/
theorem namedByDestination_iff (watched : view.Watched) {entry : String × K8s.Entry}
    (imported : entry ∈ view.networkEntries) (egress : entry.2.ingress = false)
    {ports : List K8s.PortRule} (l4 : entry.2.l4 = some ports)
    (named : ∀ rule ∈ ports, Text.parseUnsigned 65536 rule.port = none) (subject : PodInfo)
    (clusterId : U32) :
    (view.compiler gateways).NamedByDestination subject entry ports clusterId ↔
      view.SharesPorts entry.2 ports clusterId := by
  have allows := (standard_of_mem_networkEntries imported).verdict
  constructor
  · intro byDestination
    -- any Pod that the rule is resolved at for the identity makes it reach what the Pod exposes
    have also : ∀ remote, (∃ pod, view.Holds remote pod) → ∀ identity,
        identity ∈ ((view.compiler gateways).peers entry.1 entry.2).value →
        Consulted clusterId remote identity → ∀ pod ∈ (view.compiler gateways).podsOf identity,
          view.ExposesAlso remote ports pod := by
      intro remote held identity member consulted pod isPod rule isRule port exposed
      refine byDestination remote held rule.protocol.number port ?_
      exact (Compiler.reaches_iff allows egress l4 named).mpr
        ⟨identity, member, consulted, rule, isRule, rfl, pod, isPod, port, exposed, .inr rfl⟩
    constructor
    · intro everyone remote held pod inside networked
      refine also remote held wildcard ?_ (.inr (.inr rfl)) pod
        (Compiler.mem_podsOf.mpr ⟨inside, networked, .inl rfl⟩)
      rcases everyone with without | selects
      · exact mem_peers.mpr (.inl ⟨without, rfl⟩)
      · exact mem_peers_of_selectsNumber selects
    · intro remote held selects pod holds
      exact also remote held _ (mem_peers_of_selectsNumber selects) (.inr (.inl rfl)) pod
        (Compiler.mem_podsOf.mpr ⟨holds.1, holds.2.1, .inr holds.2.2⟩)
  · intro shares remote held protocol port reaches
    rcases (Compiler.reaches_iff allows egress l4 named).mp reaches with
      ⟨identity, member, consulted, rule, isRule, rfl, pod, isPod, number, exposed, covers⟩
    have positive : number ≠ 0#16 := by
      rcases watched pod (Compiler.mem_podsOf.mp isPod).1 with ⟨value, read⟩
      have inside : ⟨rule.protocol.number, rule.port, number⟩ ∈ Watch.namedPorts value :=
        read ▸ exposed
      exact Watch.port_ne_zero inside
    have same := covers.resolve_left positive
    subst same
    rcases holds_or_exposesAlso shares held member consulted isPod with holds | also
    · exact ⟨rule, isRule, rfl, pod, holds, exposed⟩
    · exact also rule isRule number exposed

end Imported

/-! ## One Pod's port at another -/

def namedEgress (name : String) : Json :=
  .object [
    ("metadata", .object [("name", .string "named"), ("namespace", .string "default")]),
    ("spec", .object [
      ("egress", .array [.object [("ports", .array [.object [("port", .string name)]])]]),
      ("podSelector", .object []),
      ("policyTypes", .array [.string "Egress"])])]

def httpPod (name : String) (port : U16) : PodInfo where
  inNamespace := "default"
  name := name
  node := "m"
  namedPorts := [⟨6, "http", port⟩]

def httpView : View :=
  { webView with
    pods := webView.pods ++ [httpPod "a" 8080, httpPod "b" 9090]
    podIdentities := insertAll ∅ [(⟨"default", "a"⟩, 300), (⟨"default", "b"⟩, 301)]
    networkPolicies := [namedEgress "http"] }

theorem httpView_holds {identity : U32} {pod : PodInfo} (held : httpView.Holds identity pod) :
    (identity = 300#32 ∧ pod = httpPod "a" 8080) ∨
      (identity = 301#32 ∧ pod = httpPod "b" 9090) := by
  rcases held with ⟨member, _, isIdentity⟩
  have web : httpView.podIdentity "default" "web" = none := by decide +kernel
  have first : httpView.podIdentity "default" "a" = some 300#32 := by decide +kernel
  have second : httpView.podIdentity "default" "b" = some 301#32 := by decide +kernel
  simp only [httpView, webView, List.cons_append, List.nil_append, List.mem_cons,
    List.not_mem_nil, or_false] at member
  rcases member with rfl | rfl | rfl
  · cases web.symm.trans isIdentity
  · exact .inl ⟨(Option.some.inj (first.symm.trans isIdentity)).symm, rfl⟩
  · exact .inr ⟨(Option.some.inj (second.symm.trans isIdentity)).symm, rfl⟩

/-- The Pod `b` is reached on the port that `a` exposes as `http`, and does not expose it. -/
theorem httpView_reaches_other :
    allowed 0 (compile httpView []).entries 7 301 (bit true)
        { key := { protocol := 6 }, port := 8080 } ∧
      (∃ pod, httpView.Holds 301 pod) ∧ ¬∃ name, httpView.Exposes 301 6 name 8080 := by
  refine ⟨by decide +kernel, ⟨httpPod "b" 9090, ?_, rfl, by decide +kernel⟩, ?_⟩
  · simp [httpView]
  · intro found
    rcases found with ⟨name, pod, held, exposed⟩
    rcases httpView_holds held with ⟨other, _⟩ | ⟨_, rfl⟩
    · exact absurd other (by decide)
    · simp [PodInfo.Exposes, httpPod] at exposed

theorem httpView_allowed_iff :
    ∃ labels pod, httpView.subject webEndpoint = some (labels, pod) ∧
      (allowed 0 (compile httpView []).entries 7 301 (bit true)
          { key := { protocol := 6 }, port := 8080 } ↔
        ∃ entry ∈ httpView.selectedEntries labels false,
          (httpView.compiler []).Reaches pod entry 0 301 6 8080) := by
  have separate : Separate httpView :=
    { ids := by decide, indexes := by decide, indexed := by decide
      uplinks := fun on => absurd rfl on }
  have selected : (httpView.subject webEndpoint).any fun known =>
      !(httpView.selectedEntries known.1 false).isEmpty := by
    decide +kernel
  rcases (Option.any_eq_true _ _).mp selected with ⟨⟨labels, pod⟩, known, nonempty⟩
  have isLocal : webEndpoint ∈ httpView.endpoints := List.mem_singleton.mpr rfl
  have isEnforced : DirectionEnforced (compile httpView []) webEndpoint false :=
    (directionEnforced_iff separate isLocal known).mpr (.inl (by simpa using nonempty))
  exact ⟨labels, pod, known, allowed_compile_iff_reaches rfl separate isLocal known isEnforced
    0 301 _⟩

def httpObject (port : Nat) : Json :=
  .object [("spec", .object [("containers", .array [.object [("ports", .array [.object [
    ("containerPort", .number (.natural port)), ("name", .string "http")]])]])])]

theorem httpView_watched : httpView.Watched := by
  intro pod member
  simp only [httpView, webView, List.cons_append, List.nil_append, List.mem_cons,
    List.not_mem_nil, or_false] at member
  rcases member with rfl | rfl | rfl
  · exact ⟨.null, by decide +kernel⟩
  · exact ⟨httpObject 8080, by decide +kernel⟩
  · exact ⟨httpObject 9090, by decide +kernel⟩

theorem httpView_named :
    ∃ entry ∈ httpView.networkEntries, entry.2.ingress = false ∧ entry.2.l3 = none ∧
      ∃ ports, entry.2.l4 = some ports ∧
        (∃ rule ∈ ports, rule.protocol = .tcp ∧ rule.port = "http") ∧
        ∀ rule ∈ ports, Text.parseUnsigned 65536 rule.port = none := by
  have read : httpView.networkEntries.any (fun entry => !entry.2.ingress && entry.2.l3.isNone &&
      entry.2.l4.any fun ports =>
        ports.any (fun rule => rule.protocol = .tcp && rule.port = "http") &&
          ports.all fun rule => Text.parseUnsigned 65536 rule.port = none) = true := by
    decide +kernel
  rcases List.any_eq_true.mp read with ⟨entry, member, holds⟩
  simp only [Bool.and_eq_true, Bool.not_eq_true', Option.any_eq_true, Option.isNone_iff_eq_none,
    List.any_eq_true, List.all_eq_true, decide_eq_true_eq] at holds
  rcases holds with ⟨⟨egress, without⟩, ports, l4, ofHttp, named⟩
  exact ⟨entry, member, egress, without, ports, l4, ofHttp, named⟩

/-- The Pods `a` and `b` do not share the port `http`, so the rule is not resolved at each. -/
theorem httpView_not_namedByDestination :
    ∃ entry ∈ httpView.networkEntries, ∃ ports, entry.2.l4 = some ports ∧
      ¬httpView.SharesPorts entry.2 ports 0 ∧
      ¬(httpView.compiler []).NamedByDestination (httpPod "a" 8080) entry ports 0 := by
  rcases httpView_named with
    ⟨entry, member, egress, without, ports, l4, ⟨rule, isRule, tcp, isHttp⟩, named⟩
  have apart : ¬httpView.SharesPorts entry.2 ports 0 := by
    intro shares
    have held : ∃ pod, httpView.Holds 301 pod :=
      ⟨httpPod "b" 9090, by simp [httpView], rfl, by decide +kernel⟩
    have exposed : (httpPod "a" 8080).Exposes rule.protocol.number rule.port 8080 := by
      rw [tcp, isHttp]
      exact .head _
    rcases shares.everywhere (.inl without) 301 held (httpPod "a" 8080) (by simp [httpView]) rfl
      rule isRule 8080 exposed with ⟨other, _, _, pod, holds, also⟩
    rcases httpView_holds holds with ⟨other, _⟩ | ⟨_, rfl⟩
    · exact absurd other (by decide)
    · simp [PodInfo.Exposes, httpPod] at also
  refine ⟨entry, member, ports, l4, apart, ?_⟩
  rwa [namedByDestination_iff httpView_watched member egress l4 named]

end FlowSdn.Agent
