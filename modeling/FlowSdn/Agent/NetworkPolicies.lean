import FlowSdn.Agent.Blocks
import FlowSdn.Agent.PodRules

/-! # NetworkPolicy entries against the simulator

For the identity of a Pod, the compiled maps and the direct simulator read the same
entries the same way: one expands selectors to identities and ports to blocks, the
other evaluates the flow.
-/

namespace FlowSdn.Agent

open Abi Policy Words LongestPrefix OrderedMap Datapath Net Reported HostPolicy

section Peers

variable {compiler : Compiler} {policy : String} {identity : U32}

theorem mem_selectorPeer {selector : LabelSelector} :
    identity ∈ compiler.selectorPeer selector ↔
      ∃ labels, compiler.identities[identity]? = some labels ∧ selector.matches labels := by
  simp [Compiler.selectorPeer, Std.ExtTreeMap.mem_toList_iff_getElem?_eq_some]

theorem mem_peers {entry : K8s.Entry} :
    identity ∈ (compiler.peers policy entry).value ↔
      (entry.l3 = none ∧ identity = wildcard) ∨
        ∃ list, entry.l3 = some list ∧ ∃ peer ∈ list,
          identity ∈ (compiler.peer policy peer).value := by
  unfold Compiler.peers
  cases entry.l3 with
  | none => simp
  | some list => simp

theorem getElem?_identities {view : View} {gateways : List IpAddr} :
    (view.compiler gateways).identities[identity]? = (view.identities[identity]?).map labelMap := by
  have mapped : ∀ labels, (identity, labels) ∈ (view.identities.toList.map fun pair =>
        (pair.1, labelMap pair.2)) ↔
      ∃ strings, view.identities[identity]? = some strings ∧ labels = labelMap strings := by
    intro labels
    simp [Std.ExtTreeMap.mem_toList_iff_getElem?_eq_some, eq_comm]
  unfold View.compiler
  simp only
  cases held : view.identities[identity]? with
  | none =>
      rw [getElem?_insertAll_of_not_mem]
      · simp
      · intro pair member same
        subst same
        rcases (mapped pair.2).mp member with ⟨strings, present, _⟩
        rw [held] at present
        cases present
  | some strings =>
      apply getElem?_insertAll_of_mem
      · exact (mapped _).mpr ⟨strings, held, rfl⟩
      · intro other member
        rcases (mapped other).mp member with ⟨again, present, equal⟩
        rw [held] at present
        cases present
        exact equal

theorem not_mem_cidrPeer {cidr : String} {except : List String}
    (notHost : identity ≠ hostIdentity) (notRemote : identity ≠ remoteNode)
    (notNumber : ∀ candidate : CidrPrefix, compiler.cidrs[candidate]? ≠ some identity) :
    identity ∉ (compiler.cidrPeer policy cidr except).value := by
  cases parsed : parseBlock cidr except with
  | none =>
      simp [Compiler.cidrPeer, parsed]
  | some block =>
      rcases block with ⟨allow, excepted⟩
      rw [mem_cidrPeer parsed]
      intro member
      rcases member with ⟨candidate, held, _⟩ | ⟨same, _⟩ | ⟨same, _⟩
      · exact notNumber candidate held
      · exact notHost same
      · exact notRemote same

end Peers

/-- An identity apart from those of nodes and prefixes. -/
structure Ordinary (view : View) (identity : U32) : Prop where
  host : identity ≠ hostIdentity
  node : identity ≠ remoteNode
  block : ∀ cidr : CidrPrefix, view.cidrs[cidr]? ≠ some identity

variable {view : View}

theorem ordinary_of_mem_groups {identity : U32} (member : identity ∈ groups) :
    Ordinary view identity := by
  have apart : groups.all fun number =>
      number ≠ hostIdentity && number ≠ remoteNode && number < cidrIdentityBase := by
    decide
  have fields := List.all_eq_true.mp apart identity member
  simp only [Bool.and_eq_true, decide_eq_true_eq, BitVec.lt_def] at fields
  exact ⟨fields.1.1, fields.1.2, fun cidr held =>
    absurd (base_le_of_cidrs held) (Nat.not_le.mpr fields.2)⟩

theorem ordinary_of_consulted {clusterId remote identity : U32}
    (ordinary : Ordinary view remote) (consulted : Consulted clusterId remote identity) :
    Ordinary view identity := by
  rcases consulted with rfl | rfl | rfl
  · exact ordinary
  · rcases aggregate_cases clusterId remote with same | small
    · rw [same]
      exact ordinary
    · exact ordinary_of_mem_groups small
  · exact ordinary_of_mem_groups (by decide)

/-! ## One entry -/

/-- The identities of aggregates and of the wildcard are nobody's. -/
def Apart (view : View) (clusterId remote : U32) : Prop :=
  ∀ identity, Consulted clusterId remote identity → identity ≠ remote →
    view.identities[identity]? = none

section Entry

variable {view : View} {gateways : List IpAddr} {clusterId remote : U32} {strings : List String}
  {peer : Simulator.Endpoint} {entry : String × K8s.Entry}
  (ordinary : Ordinary view remote) (apart : Apart view clusterId remote)
  (isIdentity : view.identities[remote]? = some strings)
  (peerLabels : peer.labels = labelMap strings)

include ordinary apart isIdentity peerLabels

/-- The peers of an entry select the identity exactly when one of the lowered selectors
matches its labels. -/
theorem selects_iff_lowerPeers :
    Selects ((view.compiler gateways).peers entry.1 entry.2).value clusterId remote ↔
      ∃ selector ∈ K8s.lowerPeers entry.2, selector.matches peer := by
  constructor
  · intro selects
    rcases selects with ⟨identity, consulted, member⟩
    rcases mem_peers.mp member with ⟨everyone, _⟩ | ⟨list, some, chosen, inside, selected⟩
    · exact ⟨.any, by simp [K8s.lowerPeers, everyone], rfl⟩
    · cases chosen with
      | cidr cidr except =>
          have other := ordinary_of_consulted ordinary consulted
          exact absurd (by simpa [Compiler.peer] using selected)
            (@not_mem_cidrPeer (view.compiler gateways) entry.1 identity cidr except other.host
              other.node other.block)
      | selector selector =>
          rcases mem_selectorPeer.mp selected with ⟨labels, held, selectorMatches⟩
          rw [getElem?_identities] at held
          have same : identity = remote := by
            by_contra different
            rw [apart identity consulted different] at held
            cases held
          rw [same, isIdentity] at held
          cases held
          refine ⟨.kubernetes selector, ?_, ?_⟩
          · cases list with
            | nil => cases inside
            | cons first rest =>
                simp only [K8s.lowerPeers, some, List.mem_map]
                exact ⟨_, inside, rfl⟩
          · rw [Simulator.Selector.matches, peerLabels]
            exact selectorMatches
  · intro found
    rcases found with ⟨selector, inside, selectorMatches⟩
    unfold K8s.lowerPeers at inside
    split at inside
    · rename_i everyone
      exact ⟨wildcard, .inr (.inr rfl), mem_peers.mpr (.inl ⟨everyone, rfl⟩)⟩
    · rw [List.mem_singleton.mp inside] at selectorMatches
      cases selectorMatches
    · rename_i list _ some
      rcases List.mem_map.mp inside with ⟨chosen, isPeer, rfl⟩
      cases chosen with
      | cidr cidr except => cases selectorMatches
      | selector wanted =>
          rw [Simulator.Selector.matches, peerLabels] at selectorMatches
          refine ⟨remote, .inl rfl, mem_peers.mpr (.inr ⟨list, some, _, isPeer, ?_⟩)⟩
          exact mem_selectorPeer.mpr
            ⟨labelMap strings, by rw [getElem?_identities, isIdentity]; rfl, selectorMatches⟩

end Entry

theorem entryHolds_iff_lowerPorts {entry : K8s.Entry} (numeric : K8s.NumericEntry entry)
    {ports : List (U8 × Simulator.Port)} (lowers : K8s.lowerPorts entry = .ok ports) {flow : Flow} :
    EntryHolds entry flow ↔
      ∃ port ∈ ports, (port.1 = anyProtocol ∨ port.1 = flow.key.protocol) ∧
        ∃ range, port.2 = .numeric range ∧ range.contains flow.port := by
  constructor
  · intro holds
    rcases holds with everything | ⟨rules, some, rule, inside, range, valid, number, contains⟩
    · exact ⟨_, (K8s.mem_lowerPorts numeric lowers).mpr (.inl ⟨everything, rfl⟩), .inl rfl,
        .any, rfl, PortRange.contains_any _⟩
    · exact ⟨_, (K8s.mem_lowerPorts numeric lowers).mpr
        (.inr ⟨rules, some, rule, inside, range, valid, rfl⟩), .inr number, range, rfl, contains⟩
  · intro found
    rcases found with ⟨port, isPort, number, range, isRange, contains⟩
    rcases (K8s.mem_lowerPorts numeric lowers).mp isPort with
      ⟨everything, _⟩ | ⟨rules, some, rule, inside, valid, held, rfl⟩
    · exact .inl everything
    · cases isRange
      exact .inr ⟨rules, some, rule, inside, range, held,
        number.resolve_left (K8s.number_ne_anyProtocol rule.protocol), contains⟩

/-! ## One direction -/

theorem standard_of_mem_networkEntries {entry : String × K8s.Entry}
    (member : entry ∈ view.networkEntries) : K8s.Standard entry.2 := by
  simp only [View.networkEntries, importPolicies, value_map, value_mapEach, List.mem_flatten,
    List.mem_map] at member
  rcases member with ⟨found, ⟨object, _, equal⟩, inside⟩
  subst equal
  split at inside
  · rename_i entries translated
    rcases List.mem_map.mp inside with ⟨single, isEntry, rfl⟩
    exact K8s.standard_of_networkPolicy translated single isEntry
  · cases inside

section Lowered

variable {view : View} {labels : BTreeMap String String} {ingress : Bool}
  {lowered : List Simulator.Entry} {unsupported : List K8s.Unsupported}
  {subject peer : Simulator.Endpoint}
  (lowers : K8s.lower (view.networkEntries.map (·.2)) = .ok (lowered, unsupported))
  (subjectLabels : subject.labels = labels)

theorem mem_selectedEntries {entry : String × K8s.Entry} :
    entry ∈ view.selectedEntries labels ingress ↔
      entry ∈ view.networkEntries ∧ entry.2.ingress = ingress ∧ entry.2.subject.matches labels := by
  simp [View.selectedEntries]

include subjectLabels in
theorem concerns_simulatorEntry {entry : K8s.Entry} {selector : Simulator.Selector}
    {port : U8 × Simulator.Port} :
    Simulator.Concerns (K8s.simulatorEntry entry selector port) (!ingress) subject ↔
      entry.ingress = ingress ∧ entry.subject.matches labels := by
  rw [Simulator.Concerns, K8s.simulatorEntry, Simulator.Selector.matches, subjectLabels]
  cases entry.ingress <;> cases ingress <;> simp

include lowers subjectLabels

theorem exists_concerns_iff :
    (∃ sim ∈ lowered, Simulator.Concerns sim (!ingress) subject) ↔
      view.selectedEntries labels ingress ≠ [] := by
  constructor
  · intro found
    rcases found with ⟨sim, member, concerns⟩
    rcases (K8s.mem_lower lowers).mp member with ⟨entry, isEntry, _, _, _, _, _, _, rfl⟩
    rcases List.mem_map.mp isEntry with ⟨pair, inside, rfl⟩
    exact List.ne_nil_of_mem (mem_selectedEntries.mpr
      ⟨inside, (concerns_simulatorEntry subjectLabels).mp concerns⟩)
  · intro selected
    rcases List.exists_mem_of_ne_nil _ selected with ⟨pair, member⟩
    rcases mem_selectedEntries.mp member with ⟨inside, concerns⟩
    have standard := standard_of_mem_networkEntries inside
    have isEntry : pair.2 ∈ view.networkEntries.map (·.2) := List.mem_map_of_mem inside
    rcases List.exists_mem_of_ne_nil _ (K8s.lowerPeers_ne_nil pair.2) with ⟨selector, isSelector⟩
    rcases K8s.exists_lowerPorts lowers isEntry with ⟨ports, ofPorts⟩
    rcases List.exists_mem_of_ne_nil _ (K8s.ports_ne_nil standard ofPorts) with ⟨port, isPort⟩
    exact ⟨_, (K8s.mem_lower lowers).mpr
      ⟨pair.2, isEntry, ports, ofPorts, selector, isSelector, port, isPort, rfl⟩,
      (concerns_simulatorEntry subjectLabels).mpr concerns⟩

variable {gateways : List IpAddr} {clusterId remote : U32} {strings : List String} {flow : Flow}
  (numeric : ∀ entry ∈ view.networkEntries, K8s.NumericEntry entry.2)
  (ordinary : Ordinary view remote) (apart : Apart view clusterId remote)
  (isIdentity : view.identities[remote]? = some strings)
  (peerLabels : peer.labels = labelMap strings)

include numeric ordinary apart isIdentity peerLabels

theorem exists_holds_iff :
    (∃ sim ∈ lowered, Simulator.Concerns sim (!ingress) subject ∧
        Simulator.Holds sim peer flow.key.protocol flow.port) ↔
      ∃ entry ∈ view.selectedEntries labels ingress,
        (view.compiler gateways).EntryMatches clusterId remote flow entry := by
  have selects := fun entry => @selects_iff_lowerPeers view gateways clusterId remote strings peer
    entry ordinary apart isIdentity peerLabels
  constructor
  · intro found
    rcases found with ⟨sim, member, concerns, selectorMatches, number, held⟩
    rcases (K8s.mem_lower lowers).mp member with
      ⟨entry, isEntry, ports, ofPorts, selector, isSelector, port, isPort, rfl⟩
    rcases List.mem_map.mp isEntry with ⟨pair, inside, rfl⟩
    refine ⟨pair, mem_selectedEntries.mpr
      ⟨inside, (concerns_simulatorEntry subjectLabels).mp concerns⟩,
      (standard_of_mem_networkEntries inside).verdict,
      (selects pair).mpr ⟨selector, isSelector, selectorMatches⟩, ?_⟩
    exact (entryHolds_iff_lowerPorts (numeric pair inside) ofPorts).mpr ⟨port, isPort, number, held⟩
  · intro found
    rcases found with ⟨pair, member, _, selected, holds⟩
    rcases mem_selectedEntries.mp member with ⟨inside, concerns⟩
    have isEntry : pair.2 ∈ view.networkEntries.map (·.2) := List.mem_map_of_mem inside
    rcases (selects pair).mp selected with ⟨selector, isSelector, selectorMatches⟩
    rcases K8s.exists_lowerPorts lowers isEntry with ⟨ports, ofPorts⟩
    rcases (entryHolds_iff_lowerPorts (numeric pair inside) ofPorts).mp holds with
      ⟨port, isPort, number, held⟩
    exact ⟨_, (K8s.mem_lower lowers).mpr
      ⟨pair.2, isEntry, ports, ofPorts, selector, isSelector, port, isPort, rfl⟩,
      (concerns_simulatorEntry subjectLabels).mpr concerns, selectorMatches, number, held⟩

end Lowered

theorem selectedDirections_of_off (off : view.flowsdnPolicy = false)
    (labels : BTreeMap String String) (ingress : Bool) :
    view.selectedDirections labels ingress = [] := by
  simp [View.selectedDirections, View.parsedPodPolicies, off]

/-- NetworkPolicy compilation agrees with the direct simulator on the identities of
Pods, where no label set has the number of an aggregate. -/
theorem allowed_iff_simulated {view : View} {gateways : List IpAddr} {endpoint : LocalEndpoint}
    {labels : BTreeMap String String} {pod : PodInfo} {ingress : Bool}
    {lowered : List Simulator.Entry} {unsupported : List K8s.Unsupported}
    (off : view.flowsdnPolicy = false) (separate : Separate view)
    (isLocal : endpoint ∈ view.endpoints) (known : view.subject endpoint = some (labels, pod))
    (lowers : K8s.lower (view.networkEntries.map (·.2)) = .ok (lowered, unsupported))
    (numeric : ∀ entry ∈ view.networkEntries, K8s.NumericEntry entry.2)
    {clusterId remote : U32} {strings : List String}
    (isIdentity : view.identities[remote]? = some strings) (ordinary : Ordinary view remote)
    (apart : Apart view clusterId remote) {subject peer : Simulator.Endpoint}
    (subjectLabels : subject.labels = labels) (peerLabels : peer.labels = labelMap strings)
    (flow : Flow) :
    (¬DirectionEnforced (compile view gateways) endpoint ingress ∨
        allowed clusterId (compile view gateways).entries (endpoint.id.setWidth 32) remote
          (bit (!ingress)) flow) ↔
      ∃ ports, Simulator.evaluate lowered (if ingress then peer else subject)
        (if ingress then subject else peer) (!ingress) flow.key.protocol flow.port =
          .ok (.allow ports) := by
  have noDirections := selectedDirections_of_off off labels ingress
  have noRules : view.selectedRules labels ingress = [] := by
    simp [View.selectedRules, noDirections]
  have isEnforced : DirectionEnforced (compile view gateways) endpoint ingress ↔
      view.selectedEntries labels ingress ≠ [] := by
    rw [directionEnforced_iff separate isLocal known, noDirections]
    simp
  have plain := K8s.plainEntry_of_mem_lower lowers (fun entry member => by
      rcases List.mem_map.mp member with ⟨pair, inside, rfl⟩
      exact standard_of_mem_networkEntries inside)
    (fun entry member => by
      rcases List.mem_map.mp member with ⟨pair, inside, rfl⟩
      exact numeric pair inside)
  have concerned := @exists_concerns_iff view labels ingress lowered unsupported subject lowers
    subjectLabels
  have held := @exists_holds_iff view labels ingress lowered unsupported subject peer lowers
    subjectLabels gateways clusterId remote strings flow numeric ordinary apart isIdentity
    peerLabels
  rw [Simulator.evaluate_allow_iff plain]
  have sides : (if (!ingress) = true then (if ingress then peer else subject)
        else (if ingress then subject else peer)) = subject ∧
      (if (!ingress) = true then (if ingress then subject else peer)
        else (if ingress then peer else subject)) = peer := by
    cases ingress <;> exact ⟨rfl, rfl⟩
  rw [sides.1, sides.2, held]
  by_cases selected : view.selectedEntries labels ingress = []
  · refine iff_of_true (.inl fun enforced => isEnforced.mp enforced selected) (.inl ?_)
    intro sim member concerns
    exact concerned.mp ⟨sim, member, concerns⟩ selected
  · have enforces := isEnforced.mpr selected
    have numericDirection : NumericDirection view labels ingress :=
      ⟨fun entry member => numeric entry (mem_selectedEntries.mp member).1, by simp [noRules]⟩
    have compiled := allowed_compile_iff separate isLocal known numericDirection enforces
      clusterId remote flow
    have closed : ¬view.OpenByDefault labels ingress := fun isOpen => selected isOpen.1
    simp only [noRules, List.not_mem_nil, false_and, exists_false, not_false_eq_true, true_and,
      closed, or_false] at compiled
    have someConcern : ¬∀ sim ∈ lowered, ¬Simulator.Concerns sim (!ingress) subject := by
      intro none
      rcases concerned.mpr selected with ⟨sim, member, concerns⟩
      exact none sim member concerns
    rw [compiled]
    simp only [enforces, not_true_eq_false, false_or, someConcern]

/-! ## Numbers of aggregates -/

def podPeer (app : String) : Json :=
  .object [("podSelector", .object [("matchLabels", .object [("app", .string app)])])]

def appLabels (app : String) : List String :=
  ["k8s:app=" ++ app, "k8s:io.flowsdn.k8s.policy.cluster=",
    "k8s:io.kubernetes.pod.namespace=default"]

def dbView (identities : List (U32 × List String)) : View :=
  { webView with
    identity := true
    identities := insertAll ∅ identities
    networkPolicies := [egressPolicy "db" [podPeer "db"]] }

theorem dbView_separate (identities : List (U32 × List String)) :
    Separate (dbView identities) where
  ids := by simp [dbView, webView]
  indexes := by simp [dbView, webView]
  indexed := by simp [dbView, webView, webEndpoint]
  uplinks on := absurd rfl on

theorem dbView_ordinary (identities : List (U32 × List String)) :
    Ordinary (dbView identities) 300 := by
  refine ⟨by decide, by decide, fun cidr held => ?_⟩
  exact absurd (base_le_of_cidrs held) (by decide)

theorem dbView_numeric (identities : List (U32 × List String)) :
    ∀ entry ∈ (dbView identities).networkEntries, K8s.NumericEntry entry.2 := by
  have portless : ∀ entry ∈ (dbView []).networkEntries, entry.2.l4 = none := by decide +kernel
  intro entry member ports some
  rw [portless entry member] at some
  cases some

theorem dbView_agrees :
    ∃ labels pod lowered unsupported,
      (dbView [(300, appLabels "db")]).subject webEndpoint = some (labels, pod) ∧
      K8s.lower ((dbView [(300, appLabels "db")]).networkEntries.map (·.2)) =
        .ok (lowered, unsupported) ∧
      ((¬DirectionEnforced (compile (dbView [(300, appLabels "db")]) []) webEndpoint false ∨
          allowed 0 (compile (dbView [(300, appLabels "db")]) []).entries 7 300 (bit true)
            { key := { protocol := 6 }, port := 80 }) ↔
        ∃ ports, Simulator.evaluate lowered ⟨0, labels, []⟩
          ⟨300, labelMap (appLabels "db"), []⟩ true 6 80 = .ok (.allow ports)) := by
  have translates : (K8s.lower ((dbView []).networkEntries.map (·.2))).toBool := by
    decide +kernel
  rcases Option.isSome_iff_exists.mp webView_subject_isSome with ⟨⟨labels, pod⟩, known⟩
  cases lowers : K8s.lower ((dbView []).networkEntries.map (·.2)) with
  | error error =>
      rw [lowers] at translates
      cases translates
  | ok result =>
      rcases result with ⟨lowered, unsupported⟩
      have apart : Apart (dbView [(300, appLabels "db")]) 0 300 := by
        intro identity consulted different
        rcases consulted with rfl | rfl | rfl
        · exact absurd rfl different
        · decide +kernel
        · decide +kernel
      refine ⟨labels, pod, lowered, unsupported, known, lowers, ?_⟩
      exact @allowed_iff_simulated (dbView [(300, appLabels "db")]) [] webEndpoint labels pod false
        lowered unsupported rfl (dbView_separate _) (List.mem_singleton.mpr rfl) known lowers
        (dbView_numeric _) 0 300 (appLabels "db") (by decide +kernel) (dbView_ordinary _) apart
        ⟨0, labels, []⟩ ⟨300, labelMap (appLabels "db"), []⟩ rfl rfl
        { key := { protocol := 6 }, port := 80 }

def deniesWeb (labels : BTreeMap String String) : Bool :=
  match K8s.lower ((dbView []).networkEntries.map (·.2)) with
  | .error _ => false
  | .ok (lowered, _) =>
      match Simulator.evaluate lowered ⟨0, labels, []⟩ ⟨300, labelMap (appLabels "web"), []⟩
        true 6 80 with
      | .ok .deny => true
      | _ => false

/-- With the labels of `db` at the number of an aggregate, its entries let every Pod of
the cluster through: the maps allow what the simulator denies. -/
theorem dbView_disagrees :
    ∃ labels pod lowered unsupported,
      (dbView [(11, appLabels "db"), (300, appLabels "web")]).subject webEndpoint =
        some (labels, pod) ∧
      K8s.lower ((dbView [(11, appLabels "db"), (300, appLabels "web")]).networkEntries.map (·.2)) =
        .ok (lowered, unsupported) ∧
      (dbView [(11, appLabels "db"), (300, appLabels "web")]).identities[300#32]? =
        some (appLabels "web") ∧
      Separate (dbView [(11, appLabels "db"), (300, appLabels "web")]) ∧
      Ordinary (dbView [(11, appLabels "db"), (300, appLabels "web")]) 300 ∧
      DirectionEnforced (compile (dbView [(11, appLabels "db"), (300, appLabels "web")]) [])
        webEndpoint false ∧
      allowed 0 (compile (dbView [(11, appLabels "db"), (300, appLabels "web")]) []).entries 7 300
        (bit true) { key := { protocol := 6 }, port := 80 } ∧
      Simulator.evaluate lowered ⟨0, labels, []⟩ ⟨300, labelMap (appLabels "web"), []⟩ true 6 80 =
        .ok .deny := by
  have simulated : (webView.subject webEndpoint).any fun known => deniesWeb known.1 := by
    decide +kernel
  have compiled :
      (compile (dbView [(11, appLabels "db"), (300, appLabels "web")]) []).endpoints[4#32]? =
          some ⟨7#32, enforceEgress⟩ ∧
        allowed 0 (compile (dbView [(11, appLabels "db"), (300, appLabels "web")]) []).entries 7 300
          (bit true) { key := { protocol := 6 }, port := 80 } := by
    decide +kernel
  rcases (Option.any_eq_true _ _).mp simulated with ⟨⟨labels, pod⟩, known, denied⟩
  unfold deniesWeb at denied
  split at denied
  · cases denied
  · rename_i lowered unsupported lowers
    split at denied
    · rename_i decided
      exact ⟨labels, pod, lowered, unsupported, known, lowers, by decide +kernel,
        dbView_separate _, dbView_ordinary _, ⟨_, compiled.1, by decide, by decide⟩, compiled.2,
        decided⟩
    · cases denied

end FlowSdn.Agent
