import FlowSdn.Agent.Compile
import FlowSdn.Agent.DenyWins

/-! # What compiling writes

The compiled maps as lists of pairs inserted in order: for each local endpoint the entries of its
two directions and its row, then the host firewall's.
-/

namespace FlowSdn.Agent

open Abi Policy Words LongestPrefix OrderedMap Datapath Net Reported HostPolicy

section Endpoint

variable (compiler : Compiler)

def directionPairs (id : U16) (subject : PodInfo) (labels : BTreeMap String String)
    (ingress : Bool) : List (TrieKey × PolicyEntry) :=
  match (directionKeys compiler subject labels ingress).value with
  | none => []
  | some (allows, denies) =>
      entryPairs (id.setWidth 32) (!ingress) (denyOverAllow allows denies).1
        (denyOverAllow allows denies).2 allowPrecedence

def directionFlag (subject : PodInfo) (labels : BTreeMap String String) (ingress : Bool) :
    U32 :=
  if (directionKeys compiler subject labels ingress).value.isSome then enforceBit ingress
  else 0#32

def endpointFlags (subject : PodInfo) (labels : BTreeMap String String) : U32 :=
  directionFlag compiler subject labels true ||| directionFlag compiler subject labels false

def endpointPairs (endpoint : LocalEndpoint) : List (TrieKey × PolicyEntry) :=
  match compiler.view.subject endpoint with
  | none => []
  | some (labels, pod) =>
      directionPairs compiler endpoint.id pod labels true ++
        directionPairs compiler endpoint.id pod labels false

def endpointRow (endpoint : LocalEndpoint) : List (U32 × PolicyEndpoint) :=
  match compiler.view.subject endpoint with
  | none => []
  | some (labels, pod) =>
      if endpointFlags compiler pod labels ≠ 0#32 ∧ endpoint.ifindex ≠ 0#32 then
        [(endpoint.ifindex, ⟨endpoint.id.setWidth 32, endpointFlags compiler pod labels⟩)]
      else []

section Known

variable {endpoint : LocalEndpoint} {labels : BTreeMap String String} {pod : PodInfo}
  (known : compiler.view.subject endpoint = some (labels, pod))

include known

theorem endpointPairs_of_known :
    endpointPairs compiler endpoint =
      directionPairs compiler endpoint.id pod labels true ++
        directionPairs compiler endpoint.id pod labels false := by
  rw [endpointPairs, known]

theorem endpointRow_of_known :
    endpointRow compiler endpoint =
      if endpointFlags compiler pod labels ≠ 0#32 ∧ endpoint.ifindex ≠ 0#32 then
        [(endpoint.ifindex, ⟨endpoint.id.setWidth 32, endpointFlags compiler pod labels⟩)]
      else [] := by
  rw [endpointRow, known]

end Known

theorem compileDirection_value (id : U16) (subject : PodInfo) (labels : BTreeMap String String)
    (state : EndpointState) (ingress : Bool) :
    (compileDirection compiler id subject labels state ingress).value.entries =
        insertAll state.entries (directionPairs compiler id subject labels ingress) ∧
      (compileDirection compiler id subject labels state ingress).value.flags =
        state.flags ||| directionFlag compiler subject labels ingress := by
  unfold compileDirection directionPairs directionFlag
  rw [value_bind]
  cases (directionKeys compiler subject labels ingress).value with
  | none => simp
  | some keys => simp [writeEntries_entries]

theorem compileEndpoint_value (desired : Desired) (endpoint : LocalEndpoint) :
    (compileEndpoint compiler desired endpoint).value.entries =
        insertAll desired.entries (endpointPairs compiler endpoint) ∧
      (compileEndpoint compiler desired endpoint).value.endpoints =
        insertAll desired.endpoints (endpointRow compiler endpoint) := by
  unfold compileEndpoint endpointPairs endpointRow
  cases compiler.view.subject endpoint with
  | none => simp
  | some known =>
      rcases known with ⟨labels, pod⟩
      have ingress := compileDirection_value compiler endpoint.id pod labels
        ⟨desired.entries, 0#32, 0⟩ true
      have egress := compileDirection_value compiler endpoint.id pod labels
        (compileDirection compiler endpoint.id pod labels ⟨desired.entries, 0#32, 0⟩ true).value
        false
      rw [ingress.1, ingress.2] at egress
      have flags : 0#32 ||| directionFlag compiler pod labels true |||
          directionFlag compiler pod labels false = endpointFlags compiler pod labels := by
        simp [endpointFlags]
      rw [flags] at egress
      simp only [value_bind, egress.2]
      split <;> simp [egress.1, insertAll_append]

theorem compileEndpoints_value (desired : Desired) (endpoints : List LocalEndpoint) :
    (compileEndpoints compiler desired endpoints).value.entries =
        insertAll desired.entries (endpoints.flatMap (endpointPairs compiler)) ∧
      (compileEndpoints compiler desired endpoints).value.endpoints =
        insertAll desired.endpoints (endpoints.flatMap (endpointRow compiler)) := by
  induction endpoints generalizing desired with
  | nil => exact ⟨rfl, rfl⟩
  | cons endpoint endpoints induction =>
      have step := compileEndpoint_value compiler desired endpoint
      have rest := induction (compileEndpoint compiler desired endpoint).value
      rw [step.1, step.2] at rest
      simpa [compileEndpoints, insertAll_append] using rest

end Endpoint

/-! ## The whole view -/

def Compiler.hostKeys (compiler : Compiler) (hosts : HostPolicies) (deny : Bool) :
    BTreeSet HostKey :=
  collect (((hosts.rules.map fun rule => (compiler.hostRule rule).value).filter
    (·.1 == deny)).flatMap (·.2))

namespace View

def hostPairs (view : View) (gateways : List IpAddr) : List (TrieKey × PolicyEntry) :=
  match view.hostPolicies with
  | none => []
  | some hosts =>
      let rewritten := denyOverAllow ((view.compiler gateways).hostKeys hosts.value false)
        ((view.compiler gateways).hostKeys hosts.value true)
      entryPairs hostEndpoint false rewritten.1 rewritten.2 hostAllowPrecedence

def uplinkPairs (view : View) : List (U32 × PolicyEndpoint) :=
  match view.hostPolicies with
  | none => []
  | some hosts => view.hostInterfaces.toList.map fun uplink =>
      (uplink.2, uplinkRow view hosts.value
        (hosts.value.audit || view.hostFirewall = .audit) uplink.2)

end View

theorem compileHost_value (view : View) (gateways : List IpAddr) (desired : Desired) :
    (compileHost (view.compiler gateways) desired).value.entries =
        insertAll desired.entries (view.hostPairs gateways) ∧
      (compileHost (view.compiler gateways) desired).value.endpoints =
        insertAll desired.endpoints view.uplinkPairs := by
  have same : (view.compiler gateways).view = view := rfl
  unfold compileHost View.hostPairs View.uplinkPairs
  rw [same]
  cases view.hostPolicies with
  | none => simp
  | some hosts => simp [hostFirewall, writeEntries_entries, Compiler.hostKeys, same]

section Compile

variable (view : View) (gateways : List IpAddr)

theorem compile_maps :
    (compile view gateways).entries =
        insertAll ∅ (view.endpoints.flatMap (endpointPairs (view.compiler gateways)) ++
          view.hostPairs gateways) ∧
      (compile view gateways).endpoints =
        insertAll ∅ (view.endpoints.flatMap (endpointRow (view.compiler gateways)) ++
          view.uplinkPairs) := by
  have endpoints := compileEndpoints_value (view.compiler gateways)
    { podPolicies := collect (view.parsedPodPolicies.value.map (·.name)) } view.endpoints
  have host := compileHost_value view gateways (compileEndpoints (view.compiler gateways)
    { podPolicies := collect (view.parsedPodPolicies.value.map (·.name)) } view.endpoints).value
  rw [endpoints.1, endpoints.2] at host
  simpa only [compile, compileReported, value_bind, value_pure, insertAll_append] using host

theorem compile_ipcache :
    (compile view gateways).ipcache = insertAll ∅ (identityPairs view gateways) := by
  simp only [compile, compileReported, value_bind, value_pure]

end Compile

/-! ## Written entries -/

/-- A pair that is written under an endpoint and a direction. -/
def StampedFor (endpoint : U32) (egress : Bool) (pair : TrieKey × PolicyEntry) : Prop :=
  ∃ key : HostKey, key.Canonical ∧ pair.1 = key.bytes endpoint egress ∧ Plain pair.2

variable {egress : Bool} {endpoint : U32} {pair : TrieKey × PolicyEntry} {precedence : U32}

theorem stampedFor_of_mem_encodedPairs {deny : Bool} {keys : BTreeSet HostKey}
    (below : precedence ≠ maxPrecedence)
    (member : pair ∈ encodedPairs endpoint egress precedence deny keys) :
    StampedFor endpoint egress pair := by
  rcases List.mem_filterMap.mp member with ⟨key, _, encoded⟩
  rcases canonical_of_encodeEntry encoded with
    ⟨written, canonical, bytes, auth, denies, precedes⟩
  refine ⟨written, canonical, bytes, auth, ?_⟩
  rw [denies, precedes]
  cases deny with
  | false => simpa using below
  | true => simp [hostDenyPrecedence, maxPrecedence]

theorem stampedFor_of_mem_entryPairs {allows denies : BTreeSet HostKey}
    (below : precedence ≠ maxPrecedence)
    (member : pair ∈ entryPairs endpoint egress allows denies precedence) :
    StampedFor endpoint egress pair := by
  rcases List.mem_append.mp member with allow | deny
  · exact stampedFor_of_mem_encodedPairs below allow
  · exact stampedFor_of_mem_encodedPairs below deny

theorem stampedFor_of_mem_directionPairs {compiler : Compiler} {id : U16} {subject : PodInfo}
    {labels : BTreeMap String String} {ingress : Bool}
    (member : pair ∈ directionPairs compiler id subject labels ingress) :
    StampedFor (id.setWidth 32) (!ingress) pair := by
  unfold directionPairs at member
  split at member
  · cases member
  · exact stampedFor_of_mem_entryPairs (below_maxPrecedence (.inl rfl)) member

theorem stampedFor_of_mem_endpointPairs {compiler : Compiler} {endpoint : LocalEndpoint}
    (member : pair ∈ endpointPairs compiler endpoint) :
    ∃ egress, StampedFor (endpoint.id.setWidth 32) egress pair := by
  unfold endpointPairs at member
  split at member
  · cases member
  · rcases List.mem_append.mp member with ingress | egress
    · exact ⟨_, stampedFor_of_mem_directionPairs ingress⟩
    · exact ⟨_, stampedFor_of_mem_directionPairs egress⟩

theorem stampedFor_of_mem_hostPairs {view : View} {gateways : List IpAddr}
    (member : pair ∈ view.hostPairs gateways) : StampedFor hostEndpoint false pair := by
  unfold View.hostPairs at member
  split at member
  · cases member
  · exact stampedFor_of_mem_entryPairs (below_maxPrecedence (.inr rfl)) member

theorem setWidth_id_injective {left right : U16}
    (equal : left.setWidth 32 = right.setWidth 32) : left = right := by
  have values := congrArg BitVec.toNat equal
  simp only [BitVec.toNat_setWidth] at values
  apply BitVec.eq_of_toNat_eq
  omega

theorem setWidth_id_ne_hostEndpoint (id : U16) : id.setWidth 32 ≠ hostEndpoint := by
  intro equal
  have values := congrArg BitVec.toNat equal
  simp only [BitVec.toNat_setWidth, hostEndpoint] at values
  have bound := id.isLt
  simp at values
  omega

theorem eq_of_ofDirection {endpoint' : U32} {egress' : Bool}
    (stamped : StampedFor endpoint egress pair) (direction : OfDirection endpoint' egress' pair.1) :
    endpoint = endpoint' ∧ egress = egress' := by
  rcases stamped with ⟨key, canonical, bytes, _⟩
  rcases direction with ⟨identity, protocol, port, covering⟩
  rw [bytes, covers_bytes canonical] at covering
  exact ⟨covering.1, bit_injective covering.2.2.1⟩

/-! ## One endpoint's share of the maps -/

/-- Local endpoints that the maps keep apart: ids are distinct, and so are interface
indexes, which are not zero and not an uplink's. -/
structure Separate (view : View) : Prop where
  ids : (view.endpoints.map (·.id)).Nodup
  indexes : (view.endpoints.map (·.ifindex)).Nodup
  indexed : ∀ endpoint ∈ view.endpoints, endpoint.ifindex ≠ 0#32
  uplinks : view.hostFirewall ≠ .off →
    ∀ endpoint ∈ view.endpoints, ∀ name : String,
      view.hostInterfaces[name]? ≠ some endpoint.ifindex

/-- Elements around one of a list without duplicates differ from it. -/
theorem ne_of_nodup_map {α β : Type} {measure : α → β} {before after : List α}
    {element : α} (nodup : ((before ++ element :: after).map measure).Nodup) :
    (∀ other ∈ before, measure other ≠ measure element) ∧
      ∀ other ∈ after, measure other ≠ measure element := by
  rw [List.map_append, List.map_cons, List.nodup_append] at nodup
  rcases nodup with ⟨_, rest, apart⟩
  constructor
  · intro other member
    exact apart _ (List.mem_map_of_mem member) _ (List.mem_cons_self ..)
  · intro other member same
    exact (List.nodup_cons.mp rest).1 (same ▸ List.mem_map_of_mem member)

section Share

variable {view : View} {gateways : List IpAddr} {endpoint : LocalEndpoint}
  {labels : BTreeMap String String} {pod : PodInfo}

section

variable (separate : Separate view) (isLocal : endpoint ∈ view.endpoints)
  (known : view.subject endpoint = some (labels, pod))

include separate isLocal known

theorem carries_compile {ingress : Bool} {allows denies : BTreeSet HostKey}
    (keys : (directionKeys (view.compiler gateways) pod labels ingress).value =
      some (allows, denies)) :
    Carries (compile view gateways).entries (endpoint.id.setWidth 32) (!ingress)
      (denyOverAllow allows denies).1 (denyOverAllow allows denies).2 allowPrecedence := by
  intro bytes direction
  rcases List.append_of_mem isLocal with ⟨before, after, split⟩
  have apart := separate.ids
  rw [split] at apart
  have different := ne_of_nodup_map apart
  have foreign : ∀ other : LocalEndpoint, other.id ≠ endpoint.id →
      ∀ pair ∈ endpointPairs (view.compiler gateways) other, pair.1 ≠ bytes := by
    intro other distinct pair member same
    rcases stampedFor_of_mem_endpointPairs member with ⟨egress, stamped⟩
    exact distinct (setWidth_id_injective (eq_of_ofDirection stamped (same ▸ direction)).1)
  have otherDirection : ∀ pair ∈ directionPairs (view.compiler gateways) endpoint.id pod labels
      (!ingress), pair.1 ≠ bytes := by
    intro pair member same
    have flipped := (eq_of_ofDirection (stampedFor_of_mem_directionPairs member)
      (same ▸ direction)).2
    cases ingress <;> cases flipped
  have host : ∀ pair ∈ view.hostPairs gateways, pair.1 ≠ bytes := by
    intro pair member same
    exact setWidth_id_ne_hostEndpoint endpoint.id
      (eq_of_ofDirection (stampedFor_of_mem_hostPairs member) (same ▸ direction)).1.symm
  have own : (insertAll (∅ : Trie PolicyEntry)
        (endpointPairs (view.compiler gateways) endpoint))[bytes]? =
      (insertAll (∅ : Trie PolicyEntry)
        (directionPairs (view.compiler gateways) endpoint.id pod labels ingress))[bytes]? := by
    rw [endpointPairs_of_known (view.compiler gateways) known]
    cases ingress with
    | true =>
        rw [insertAll_append]
        exact getElem?_insertAll_of_not_mem otherDirection
    | false =>
        rw [insertAll_append]
        exact getElem?_insertAll_congr (getElem?_insertAll_of_not_mem otherDirection)
  rw [(compile_maps view gateways).1, split, List.flatMap_append, List.flatMap_cons,
    ← List.append_assoc, List.append_assoc _ (List.flatMap _ after), getElem?_insertAll_middle,
    own]
  · simp only [directionPairs, keys]
  · intro pair member
    rcases List.mem_flatMap.mp member with ⟨other, inside, written⟩
    exact foreign other (different.1 other inside) pair written
  · intro pair member
    rcases List.mem_append.mp member with later | hosts
    · rcases List.mem_flatMap.mp later with ⟨other, inside, written⟩
      exact foreign other (different.2 other inside) pair written
    · exact host pair hosts

theorem getElem?_endpoints_compile :
    (compile view gateways).endpoints[endpoint.ifindex]? =
      if endpointFlags (view.compiler gateways) pod labels = 0#32 then none
      else some ⟨endpoint.id.setWidth 32, endpointFlags (view.compiler gateways) pod labels⟩ := by
  rcases List.append_of_mem isLocal with ⟨before, after, split⟩
  have apart := separate.indexes
  rw [split] at apart
  have different := ne_of_nodup_map apart
  have foreign : ∀ other : LocalEndpoint, other.ifindex ≠ endpoint.ifindex →
      ∀ pair ∈ endpointRow (view.compiler gateways) other, pair.1 ≠ endpoint.ifindex := by
    intro other distinct pair member
    unfold endpointRow at member
    split at member
    · cases member
    · split at member
      · rw [List.mem_singleton.mp member]
        exact distinct
      · cases member
  have uplinks : ∀ pair ∈ view.uplinkPairs, pair.1 ≠ endpoint.ifindex := by
    intro pair member same
    unfold View.uplinkPairs at member
    split at member
    · cases member
    · rename_i hosts present
      have on : view.hostFirewall ≠ .off := by
        intro off
        simp [View.hostPolicies, off] at present
      rcases List.mem_map.mp member with ⟨uplink, inside, equal⟩
      apply separate.uplinks on endpoint isLocal uplink.1
      rw [← same, ← equal]
      exact Std.ExtTreeMap.mem_toList_iff_getElem?_eq_some.mp inside
  rw [(compile_maps view gateways).2, split, List.flatMap_append, List.flatMap_cons,
    ← List.append_assoc, List.append_assoc _ (List.flatMap _ after), getElem?_insertAll_middle,
    endpointRow_of_known (view.compiler gateways) known]
  · have indexed := separate.indexed endpoint isLocal
    by_cases unenforced : endpointFlags (view.compiler gateways) pod labels = 0#32
    · rw [if_pos unenforced, if_neg fun enforces => enforces.1 unenforced]
      simp
    · rw [if_neg unenforced, if_pos ⟨unenforced, indexed⟩]
      simp
  · intro pair member
    rcases List.mem_flatMap.mp member with ⟨other, inside, written⟩
    exact foreign other (different.1 other inside) pair written
  · intro pair member
    rcases List.mem_append.mp member with later | hosts
    · rcases List.mem_flatMap.mp later with ⟨other, inside, written⟩
      exact foreign other (different.2 other inside) pair written
    · exact uplinks pair hosts

end

end Share

end FlowSdn.Agent
