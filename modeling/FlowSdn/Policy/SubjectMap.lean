import FlowSdn.Policy.MapState
import FlowSdn.Policy.Simulator

/-! # One subject's compiled map

The entries that select a subject in a direction are expanded over a snapshot of endpoints, one
rule for each peer, and compiled. For a peer of the snapshot a lookup answers what the direct
evaluation does.
-/

namespace FlowSdn.Policy.Simulator

open OrderedMap Oracle

structure SubjectMap where
  index : MapState
  egress : Bool

def SubjectMap.lookup (map : SubjectMap) (packet : Packet) : Decision :=
  if packet.egress ≠ map.egress then .deny else map.index.lookup packet

/-- The rule of an entry with its peer and ports settled. -/
def Entry.ruleFor (entry : Entry) (peer : Peer) (ports : PortRange) : Oracle.Rule :=
  { entry.rule with peer, ports }

/-- The rule of an entry for one peer; none when the port has no number there. -/
def expandPeer (subject : Endpoint) (egress : Bool) (entry : Entry) (peer : Endpoint) :
    Except Error (Option Oracle.Rule) := do
  match ← resolvePort entry (if egress then peer else subject) with
  | none => return none
  | some ports => return some (entry.ruleFor (.identity peer.identity) ports)

def expandPeers (subject : Endpoint) (egress : Bool) (entry : Entry) :
    List Endpoint → Except Error (List Oracle.Rule)
  | [] => .ok []
  | peer :: peers => do
      let rule ← expandPeer subject egress entry peer
      let rules ← expandPeers subject egress entry peers
      return rule.toList ++ rules

/-- The rules of an entry: one for every peer at once when it takes any peer and has a
numeric port, otherwise one for each peer. -/
def expandEntry (subject : Endpoint) (endpoints : List Endpoint) (egress : Bool)
    (entry : Entry) : Except Error (List Oracle.Rule) :=
  match entry.peers, entry.port with
  | .any, .numeric ports => .ok [entry.ruleFor .any ports]
  | peers, _ => expandPeers subject egress entry (endpoints.filter peers.matches)

def expandEntries (subject : Endpoint) (endpoints : List Endpoint) (egress : Bool) :
    List Entry → Except Error (List Oracle.Rule)
  | [] => .ok []
  | entry :: entries => do
      let first ← expandEntry subject endpoints egress entry
      let rest ← expandEntries subject endpoints egress entries
      return first ++ rest

def compile (entries : List Entry) (subject : Endpoint) (endpoints : List Endpoint)
    (egress : Bool) : Except Error SubjectMap := do
  if (collect (endpoints.map (·.identity))).size ≠ endpoints.length then .error .invalidName
  let selected := entries.filter fun entry =>
    entry.rule.egress = egress && entry.subject.matches subject
  validateSubject (selected.map (·.rule))
  let defaultAllow := !selected.any (·.defaultDeny)
  let rules ← expandEntries subject endpoints egress selected
  let index ← MapState.compileWithDefault rules defaultAllow
  return { index, egress }

/-! ## Rules without their peer -/

/-- The rule for any peer, as the direct evaluation takes it. -/
def freed (rule : Oracle.Rule) : Oracle.Rule := { rule with peer := .any }

section Freed

variable {rules : List Oracle.Rule} {packet : Packet}

theorem matches_freed {rule : Oracle.Rule} (holds : rule.matches packet) :
    (freed rule).matches packet := by
  simp only [Rule.matches, Bool.and_eq_true, decide_eq_true_eq] at holds
  simp [Rule.matches, freed, holds.1.1.1, holds.1.2, holds.2]

/-- Neither the rules that do not match nor the peers of those that do change the winners. -/
theorem winners_freed (tier : Tier) :
    winners ((rules.filter (·.matches packet)).map freed) packet tier =
      (winners rules packet tier).map freed := by
  have matching : ((rules.filter (·.matches packet)).map freed).filter
      (fun rule => rule.tier = tier && rule.matches packet) =
        (rules.filter fun rule => rule.tier = tier && rule.matches packet).map freed := by
    rw [List.filter_map, List.filter_filter]
    congr 1
    apply List.filter_congr
    intro rule _
    by_cases holds : rule.matches packet
    · have sameTier : (freed rule).tier = rule.tier := rfl
      simp [holds, matches_freed holds, sameTier]
    · simp [holds]
  unfold winners
  rw [matching]
  generalize (rules.filter fun rule => rule.tier = tier && rule.matches packet) = chosen
  have priorities : (chosen.map freed).map (·.priority) = chosen.map (·.priority) := by
    simp [freed]
  simp only [priorities]
  cases chosen.map (·.priority) with
  | nil => rfl
  | cons first rest =>
      simp only [List.filter_map, List.all_map]
      congr 1

theorem decideTiers_freed (tiers : List Tier) :
    decideTiers ((rules.filter (·.matches packet)).map freed) packet tiers =
      decideTiers rules packet tiers := by
  induction tiers with
  | nil => rfl
  | cons tier tiers induction =>
      simp only [decideTiers, winners_freed, induction]
      cases winners rules packet tier with
      | nil => rfl
      | cons first rest =>
          have sameVerdict : (freed first).verdict = first.verdict := rfl
          have samePorts : ((first :: rest).map freed).map (·.proxyPort) =
              (first :: rest).map (·.proxyPort) := by
            rw [List.map_map]
            rfl
          rw [List.map_cons] at samePorts ⊢
          simp only [sameVerdict, samePorts]

end Freed

section Expansion

variable {subject peer : Endpoint} {egress : Bool} {protocol : U8} {port : U16} {entry : Entry}
  {peers : List Endpoint}

def packetOf (peer : Endpoint) (egress : Bool) (protocol : U8) (port : U16) : Packet :=
  { identity := peer.identity, egress, protocol, port }

theorem matches_expanded {entry : Entry} (direction : entry.rule.egress = egress)
    (other : Endpoint) (ports : PortRange) :
    (entry.ruleFor (.identity other.identity) ports).matches
        (packetOf peer egress protocol port) =
      (other.identity = peer.identity &&
        (entry.rule.protocol = Abi.anyProtocol || entry.rule.protocol = protocol) &&
        ports.contains port) := by
  simp [Rule.matches, Entry.ruleFor, packetOf, direction]

theorem filter_expandPeers_of_apart (direction : entry.rule.egress = egress)
    (apart : ∀ other ∈ peers, other.identity ≠ peer.identity) {rules : List Oracle.Rule}
    (expanded : expandPeers subject egress entry peers = .ok rules) :
    rules.filter (·.matches (packetOf peer egress protocol port)) = [] := by
  induction peers generalizing rules with
  | nil =>
      cases expanded
      rfl
  | cons other peers induction =>
      simp only [expandPeers, Checked.bind_eq_ok, Checked.pure_eq_ok] at expanded
      rcases expanded with ⟨first, firstExpanded, rest, restExpanded, rfl⟩
      have later := induction (fun another member => apart another (List.mem_cons_of_mem _ member))
        restExpanded
      rw [List.filter_append, later, List.append_nil]
      unfold expandPeer at firstExpanded
      rcases Checked.bind_eq_ok.mp firstExpanded with ⟨found, _, produced⟩
      cases found with
      | none =>
          cases produced
          rfl
      | some ports =>
          cases produced
          simp [matches_expanded direction, apart other (List.mem_cons_self ..)]

/-- The peer itself contributes the rule that the direct evaluation takes. -/
theorem filter_expandPeers_of_mem (direction : entry.rule.egress = egress)
    (distinct : (peers.map (·.identity)).Nodup) (member : peer ∈ peers) {rules : List Oracle.Rule}
    (expanded : expandPeers subject egress entry peers = .ok rules) :
    ∃ found, resolvePort entry (if egress then peer else subject) = .ok found ∧
      (rules.filter (·.matches (packetOf peer egress protocol port))).map freed =
        ((found.filter fun ports =>
          (entry.rule.protocol = Abi.anyProtocol || entry.rule.protocol = protocol) &&
            ports.contains port).map (entry.ruleFor .any)).toList := by
  induction peers generalizing rules with
  | nil => cases member
  | cons other peers induction =>
      simp only [expandPeers, Checked.bind_eq_ok, Checked.pure_eq_ok] at expanded
      rcases expanded with ⟨first, firstExpanded, rest, restExpanded, rfl⟩
      rw [List.map_cons, List.nodup_cons] at distinct
      unfold expandPeer at firstExpanded
      rcases Checked.bind_eq_ok.mp firstExpanded with ⟨found, resolved, produced⟩
      rcases List.mem_cons.mp member with here | inside
      · subst here
        have apart : ∀ another ∈ peers, another.identity ≠ peer.identity := by
          intro another isPeer same
          exact distinct.1 (same ▸ List.mem_map_of_mem isPeer)
        refine ⟨found, resolved, ?_⟩
        rw [List.filter_append, filter_expandPeers_of_apart direction apart restExpanded,
          List.append_nil]
        cases found with
        | none =>
            cases produced
            rfl
        | some ports =>
            cases produced
            have matching := @matches_expanded peer egress protocol port entry direction peer ports
            simp only [decide_true, Bool.true_and] at matching
            rw [Option.filter_some, ← matching, Option.toList_some, List.filter_cons,
              List.filter_nil]
            split_ifs with holds
            · rfl
            · rfl
      · have different : other.identity ≠ peer.identity := fun same =>
          distinct.1 (same ▸ List.mem_map_of_mem inside)
        rcases induction distinct.2 inside restExpanded with ⟨target, resolves, equal⟩
        refine ⟨target, resolves, ?_⟩
        rw [← equal, List.filter_append]
        cases found with
        | none =>
            cases produced
            rfl
        | some ports =>
            cases produced
            simp [matches_expanded direction, different]

theorem expandEntry_cases (subject : Endpoint) (endpoints : List Endpoint) (egress : Bool)
    (entry : Entry) :
    (∃ ports, entry.peers = .any ∧ entry.port = .numeric ports ∧
        expandEntry subject endpoints egress entry = .ok [entry.ruleFor .any ports]) ∨
      expandEntry subject endpoints egress entry =
        expandPeers subject egress entry (endpoints.filter entry.peers.matches) := by
  unfold expandEntry
  cases peers : entry.peers with
  | any =>
      cases port : entry.port with
      | numeric ports => exact .inl ⟨ports, rfl, rfl, rfl⟩
      | named name => exact .inr rfl
  | none => exact .inr rfl
  | labels wanted => exact .inr rfl
  | kubernetes wanted => exact .inr rfl

/-- An entry that takes the peer and the protocol gives its rule when its port does. -/
theorem matchEntry_of_takes {destination : Endpoint} {found : Option PortRange}
    (takes : entry.peers.matches peer) (resolved : resolvePort entry destination = .ok found) :
    matchEntry peer destination protocol port entry =
      .ok ((found.filter fun ports =>
        (entry.rule.protocol = Abi.anyProtocol || entry.rule.protocol = protocol) &&
          ports.contains port).map (entry.ruleFor .any)) := by
  unfold matchEntry
  by_cases ofProtocol : entry.rule.protocol = Abi.anyProtocol ∨ entry.rule.protocol = protocol
  · have passes : (!entry.peers.matches peer ||
        (entry.rule.protocol ≠ Abi.anyProtocol && entry.rule.protocol ≠ protocol)) = false := by
      rcases ofProtocol with any | same
      · simp [takes, any]
      · simp [takes, same]
    have taken : (decide (entry.rule.protocol = Abi.anyProtocol) ||
        decide (entry.rule.protocol = protocol)) = true := by
      simpa using ofProtocol
    rw [passes, resolved]
    simp only [taken, Bool.true_and, Bool.false_eq_true, if_false]
    cases found with
    | none => rfl
    | some ports =>
        by_cases inside : ports.contains port
        · simp [inside, bind, Except.bind, pure, Except.pure, Option.filter, Entry.ruleFor]
        · simp [inside, bind, Except.bind, pure, Except.pure, Option.filter]
  · rw [not_or] at ofProtocol
    cases found <;> simp [ofProtocol, Option.filter]

variable {endpoints : List Endpoint} (distinct : (endpoints.map (·.identity)).Nodup)
  (known : peer ∈ endpoints)

include distinct known

/-- An expanded entry has a rule for the flow exactly when it holds it, and the same one. -/
theorem matchEntry_of_expandEntry {entry : Entry} (direction : entry.rule.egress = egress)
    {rules : List Oracle.Rule} (expanded : expandEntry subject endpoints egress entry = .ok rules) :
    ∃ rule, matchEntry peer (if egress then peer else subject) protocol port entry = .ok rule ∧
      rule.toList = (rules.filter (·.matches (packetOf peer egress protocol port))).map freed := by
  rcases expandEntry_cases subject endpoints egress entry with ⟨ports, any, numeric, whole⟩ | each
  · rw [whole] at expanded
    cases expanded
    have takes : entry.peers.matches peer := by rw [any]; rfl
    have resolved : resolvePort entry (if egress then peer else subject) = .ok (some ports) := by
      simp [resolvePort, numeric]
    refine ⟨_, matchEntry_of_takes takes resolved, ?_⟩
    have matching : (entry.ruleFor .any ports).matches (packetOf peer egress protocol port) =
        ((entry.rule.protocol = Abi.anyProtocol || entry.rule.protocol = protocol) &&
          ports.contains port) := by
      simp [Rule.matches, Entry.ruleFor, packetOf, direction]
    rw [Option.filter_some, ← matching, List.filter_cons, List.filter_nil]
    split_ifs with holds
    · rfl
    · rfl
  · rw [each] at expanded
    have ofEndpoints : ((endpoints.filter entry.peers.matches).map (·.identity)).Nodup :=
      distinct.sublist (List.filter_sublist.map _)
    by_cases takes : entry.peers.matches peer
    · rcases filter_expandPeers_of_mem direction ofEndpoints
        (List.mem_filter.mpr ⟨known, takes⟩) expanded with ⟨found, resolved, equal⟩
      exact ⟨_, matchEntry_of_takes takes resolved, equal.symm⟩
    · have apart : ∀ other ∈ endpoints.filter entry.peers.matches,
          other.identity ≠ peer.identity := by
        intro other member same
        rcases List.mem_filter.mp member with ⟨isEndpoint, otherTakes⟩
        rw [List.inj_on_of_nodup_map distinct isEndpoint known same] at otherTakes
        exact takes otherTakes
      refine ⟨none, ?_, ?_⟩
      · simp [matchEntry, takes]
      · rw [filter_expandPeers_of_apart direction apart expanded]
        rfl

theorem matchEntries_of_expandEntries {entries : List Entry}
    (direction : ∀ entry ∈ entries, entry.rule.egress = egress) {rules : List Oracle.Rule}
    (expanded : expandEntries subject endpoints egress entries = .ok rules) :
    matchEntries peer (if egress then peer else subject) protocol port entries =
      .ok ((rules.filter (·.matches (packetOf peer egress protocol port))).map freed) := by
  induction entries generalizing rules with
  | nil =>
      cases expanded
      rfl
  | cons entry entries induction =>
      simp only [expandEntries, Checked.bind_eq_ok, Checked.pure_eq_ok] at expanded
      rcases expanded with ⟨first, firstExpanded, rest, restExpanded, rfl⟩
      rcases @matchEntry_of_expandEntry subject peer egress protocol port endpoints distinct known
        entry (direction entry (List.mem_cons_self ..)) first firstExpanded with
        ⟨rule, matched, equal⟩
      have others := induction (fun other member => direction other (List.mem_cons_of_mem _ member))
        restExpanded
      rw [matchEntries, matched, others, List.filter_append, List.map_append, ← equal]
      rfl

end Expansion

/-! ## Agreement with the direct evaluation -/

theorem compile_eq_ok {entries : List Entry} {subject : Endpoint} {endpoints : List Endpoint}
    {egress : Bool} {map : SubjectMap}
    (compiled : compile entries subject endpoints egress = .ok map) :
    (endpoints.map (·.identity)).Nodup ∧
      validateSubject ((entries.filter fun entry =>
        entry.rule.egress = egress && entry.subject.matches subject).map (·.rule)) = .ok () ∧
      ∃ rules, expandEntries subject endpoints egress (entries.filter fun entry =>
          entry.rule.egress = egress && entry.subject.matches subject) = .ok rules ∧
        validateSubject rules = .ok () ∧ rules.any (·.authentication.isSome) = false ∧
        map = ⟨MapState.index rules (!(entries.filter fun entry =>
          entry.rule.egress = egress && entry.subject.matches subject).any (·.defaultDeny)),
          egress⟩ := by
  unfold compile at compiled
  split_ifs at compiled with repeated
  · cases compiled
  · have distinct : (endpoints.map (·.identity)).Nodup := by
      apply nodup_of_size_collect
      rw [List.length_map]
      exact not_not.mp repeated
    simp only [Checked.bind_eq_ok, Checked.pure_eq_ok, MapState.compileWithDefault_eq] at compiled
    rcases compiled with ⟨_, selected, rules, expanded, index, ⟨_, valid, indexed⟩, rfl⟩
    refine ⟨distinct, selected, rules, expanded, valid, ?_⟩
    cases authentication : rules.any (·.authentication.isSome) with
    | true =>
        rw [authentication] at indexed
        cases indexed
    | false =>
        rw [authentication] at indexed
        cases indexed
        exact ⟨rfl, rfl⟩

theorem evaluate_freed {rules : List Oracle.Rule} (valid : validateSubject rules = .ok ())
    (noAuthentication : rules.any (·.authentication.isSome) = false) (packet : Packet) :
    Oracle.evaluate ((rules.filter (·.matches packet)).map freed) packet =
      .ok (decideTiers rules packet [.admin, .normal, .baseline, .default]) := by
  rcases Checked.bind_eq_ok.mp valid with ⟨_, checked, _⟩
  have each := Checked.forM_eq_ok.mp checked
  have freedAuthentication :
      ((rules.filter (·.matches packet)).map freed).any (·.authentication.isSome) = false := by
    rw [List.any_eq_false] at noAuthentication ⊢
    intro rule member
    rcases List.mem_map.mp member with ⟨original, inside, rfl⟩
    exact noAuthentication original (List.mem_filter.mp inside).1
  have freedChecked : forM ((rules.filter (·.matches packet)).map freed) Rule.validate =
      .ok () := by
    apply Checked.forM_eq_ok.mpr
    intro rule member
    rcases List.mem_map.mp member with ⟨original, inside, rfl⟩
    exact each original (List.mem_filter.mp inside).1
  unfold Oracle.evaluate validateSubject
  rw [freedChecked, freedAuthentication, Bool.and_false, decideTiers_freed]
  rfl

/-- For a peer of the snapshot, the compiled map of a subject answers what the direct
evaluation of the flow does. -/
theorem evaluate_eq_lookup {entries : List Entry} {subject : Endpoint}
    {endpoints : List Endpoint} {egress : Bool} {map : SubjectMap}
    (compiled : compile entries subject endpoints egress = .ok map) {peer : Endpoint}
    (known : peer ∈ endpoints) (protocol : U8) (port : U16) :
    evaluate entries (if egress then subject else peer) (if egress then peer else subject) egress
        protocol port = .ok (map.lookup { identity := peer.identity, egress, protocol, port }) := by
  rcases compile_eq_ok compiled with
    ⟨distinct, selectedValid, rules, expanded, valid, noAuthentication, rfl⟩
  generalize selectedEq : (entries.filter fun entry =>
    entry.rule.egress = egress && entry.subject.matches subject) = selected at *
  have direction : ∀ entry ∈ selected, entry.rule.egress = egress := by
    intro entry member
    rw [← selectedEq, List.mem_filter, Bool.and_eq_true, decide_eq_true_eq] at member
    exact member.2.1
  have pair : (if egress then
      (if egress then subject else peer, if egress then peer else subject)
      else (if egress then peer else subject, if egress then subject else peer)) =
      (subject, peer) := by
    cases egress <;> rfl
  have matching := @matchEntries_of_expandEntries subject peer egress protocol port endpoints
    distinct known selected direction rules expanded
  have looked := MapState.lookup_index_eq (!selected.any (·.defaultDeny))
    (packetOf peer egress protocol port) (MapState.ranked_of_validateSubject valid)
  have answered : (SubjectMap.lookup ⟨MapState.index rules (!selected.any (·.defaultDeny)), egress⟩
      (packetOf peer egress protocol port)) = _ := (if_neg (by simp [packetOf])).trans looked
  have empty : ((rules.filter (·.matches (packetOf peer egress protocol port))).map freed).isEmpty =
      decide (∀ rule ∈ rules, ¬rule.matches (packetOf peer egress protocol port)) := by
    rw [List.isEmpty_map, Bool.eq_iff_iff, List.isEmpty_iff, List.filter_eq_nil_iff,
      decide_eq_true_eq]
  have reduced : evaluate entries (if egress then subject else peer)
      (if egress then peer else subject) egress protocol port =
      if decide (∀ rule ∈ rules, ¬rule.matches (packetOf peer egress protocol port)) &&
        !selected.any (·.defaultDeny) then .ok (.allow (collect [0#16]))
      else Oracle.evaluate
        ((rules.filter (·.matches (packetOf peer egress protocol port))).map freed)
        (packetOf peer egress protocol port) := by
    simp only [evaluate, pair, selectedEq, selectedValid]
    rw [matching]
    simp only [bind, Except.bind, empty]
    rfl
  rw [reduced, evaluate_freed valid noAuthentication]
  rw [show ({ identity := peer.identity, egress, protocol, port } : Packet) =
    packetOf peer egress protocol port from rfl, answered]
  split_ifs with first second second
  · rfl
  · simp_all
  · simp_all
  · rfl

def httpPeer : Endpoint := ⟨300, ∅, [(⟨6, "http"⟩, 8080)]⟩

def httpEntry : Entry where
  subject := .any
  peers := .any
  defaultDeny := true
  rule :=
    { tier := .normal
      priority := .finite 0
      verdict := .allow
      egress := true
      peer := .any
      protocol := 6
      ports := .any
      authentication := none
      proxyPort := 0
      listenerPriority := 0 }
  port := .named "http"

theorem httpEntry_agrees :
    ∃ map, compile [httpEntry] ⟨1, ∅, []⟩ [httpPeer] true = .ok map ∧
      evaluate [httpEntry] ⟨1, ∅, []⟩ httpPeer true 6 8080 =
        .ok (map.lookup { identity := 300, egress := true, protocol := 6, port := 8080 }) := by
  cases compiled : compile [httpEntry] ⟨1, ∅, []⟩ [httpPeer] true with
  | error error =>
      have succeeds : (compile [httpEntry] ⟨1, ∅, []⟩ [httpPeer] true).isOk = true := by
        decide +kernel
      rw [compiled] at succeeds
      cases succeeds
  | ok map => exact ⟨map, rfl, evaluate_eq_lookup compiled (List.mem_cons_self ..) 6 8080⟩

end FlowSdn.Policy.Simulator
