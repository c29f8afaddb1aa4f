import FlowSdn.Policy.Ports

/-! # Brute-force evaluation of selected rules

Tiers in order, within a tier the lowest priority value, within a priority the
strongest verdict; a pass resumes below its tier and nothing left is a deny.
-/

namespace FlowSdn.Policy

open OrderedMap

inductive Tier
  | admin
  | normal
  | baseline
  | default
  deriving DecidableEq

inductive Verdict
  | allow
  | deny
  | pass
  deriving DecidableEq

/-- A floating-point priority: a finite value, or one that `validate` refuses. -/
inductive Priority
  | finite (value : ℚ)
  | notFinite
  deriving DecidableEq

namespace Priority

def valid : Priority → Bool
  | finite value => 0 ≤ value
  | notFinite => false

def least : Priority → Priority → Priority
  | finite left, finite right => if right < left then finite right else finite left
  | finite left, notFinite => finite left
  | notFinite, right => right

end Priority

namespace Oracle

inductive Peer
  | any
  | identity (value : U32)
  deriving DecidableEq

inductive Authentication
  | disabled
  | required
  | testAlwaysFail
  deriving DecidableEq

structure Rule where
  tier : Tier
  priority : Priority
  verdict : Verdict
  egress : Bool
  peer : Peer
  protocol : U8
  ports : PortRange
  authentication : Option Authentication
  proxyPort : U16
  listenerPriority : U8
  deriving DecidableEq

structure Packet where
  identity : U32
  egress : Bool
  protocol : U8
  port : U16
  deriving DecidableEq

inductive Decision
  | deny
  /-- Equal-rank rules may redirect to different ports; all are candidates. -/
  | allow (proxyPorts : BTreeSet U16)

def Rule.validate (rule : Rule) : Except Error Unit :=
  if !rule.priority.valid then .error .invalidPriority
  else if rule.protocol = Abi.anyProtocol ∧ rule.ports ≠ .any then .error .invalidProtocol
  else if rule.listenerPriority > 126#8 ∨
      (rule.proxyPort = 0#16 ∧ rule.listenerPriority ≠ 0#8) ∨
      (rule.verdict ≠ .allow ∧ (rule.proxyPort ≠ 0#16 ∨ rule.authentication.isSome)) then
    .error .invalidRedirect
  else .ok ()

def Rule.matches (rule : Rule) (packet : Packet) : Bool :=
  rule.egress = packet.egress && (rule.peer = .any || rule.peer = .identity packet.identity) &&
    (rule.protocol = Abi.anyProtocol || rule.protocol = packet.protocol) &&
    rule.ports.contains packet.port

/-- The rank of a verdict within a tier and priority: a deny first, then a redirect
by its listener priority, then a plain allow, then a pass. -/
def Rule.verdictRank (rule : Rule) : Nat × Nat :=
  match rule.verdict with
  | .deny => (3, 0)
  | .pass => (0, 0)
  | .allow =>
      if rule.proxyPort = 0#16 then (1, 0)
      else if rule.listenerPriority = 0#8 then (2, 0)
      else (2, 127 - rule.listenerPriority.toNat)

def rankLe (left right : Nat × Nat) : Bool :=
  left.1 < right.1 || (left.1 = right.1 && left.2 ≤ right.2)

def validateSubject (rules : List Rule) : Except Error Unit := do
  forM rules Rule.validate
  if rules.any (·.verdict = .pass) && rules.any (·.authentication.isSome) then
    .error .passWithAuthentication

/-- The rules of a tier that decide a packet; none when the tier has no match. -/
def winners (rules : List Rule) (packet : Packet) (tier : Tier) : List Rule :=
  let matching := rules.filter fun rule => rule.tier = tier && rule.matches packet
  match matching.map (·.priority) with
  | [] => []
  | first :: rest =>
      let priority := rest.foldl Priority.least first
      let peers := matching.filter fun rule => rule.priority = priority
      peers.filter fun rule =>
        peers.all fun other => rankLe other.verdictRank rule.verdictRank

def decideTiers (rules : List Rule) (packet : Packet) : List Tier → Decision
  | [] => .deny
  | tier :: tiers =>
      match winners rules packet tier with
      | [] => decideTiers rules packet tiers
      | first :: rest =>
          match first.verdict with
          | .pass => decideTiers rules packet tiers
          | .deny => .deny
          | .allow => .allow (collect ((first :: rest).map (·.proxyPort)))

def evaluate (rules : List Rule) (packet : Packet) : Except Error Decision := do
  validateSubject rules
  if rules.any (·.authentication.isSome) then .error .oracleAuthenticationUnsupported
  return decideTiers rules packet [.admin, .normal, .baseline, .default]

/-! ## Plain allows -/

/-- An allow of the normal tier at priority zero, without redirect or authentication. -/
structure PlainAllow (rule : Rule) : Prop where
  tier : rule.tier = .normal
  priority : rule.priority = .finite 0
  verdict : rule.verdict = .allow
  peer : rule.peer = .any
  authentication : rule.authentication = none
  proxyPort : rule.proxyPort = 0#16
  listenerPriority : rule.listenerPriority = 0#8
  whole : rule.protocol = Abi.anyProtocol → rule.ports = .any

theorem winners_eq_nil {rules : List Rule} {packet : Packet} {tier : Tier}
    (none : ∀ rule ∈ rules, rule.matches packet → rule.tier ≠ tier) :
    winners rules packet tier = [] := by
  have matching : (rules.filter fun rule => rule.tier = tier && rule.matches packet) = [] := by
    rw [List.filter_eq_nil_iff]
    intro rule member
    by_cases holds : rule.matches packet
    · simp [none rule member holds]
    · simp [holds]
  unfold winners
  simp only [matching]
  rfl

section Plain

variable {rules : List Rule} (plain : ∀ rule ∈ rules, PlainAllow rule) {packet : Packet}

theorem PlainAllow.validate {rule : Rule} (plain : PlainAllow rule) : rule.validate = .ok () := by
  have valid : Priority.valid (.finite 0) = true := by simp [Priority.valid]
  have whole : ¬(rule.protocol = Abi.anyProtocol ∧ rule.ports ≠ .any) := by
    intro narrowed
    exact narrowed.2 (plain.whole narrowed.1)
  simp [Rule.validate, plain.priority, valid, whole, plain.proxyPort, plain.listenerPriority,
    plain.verdict]

include plain

theorem forM_validate_of_plain : forM rules Rule.validate = .ok () := by
  induction rules with
  | nil => rfl
  | cons rule rules induction =>
      rw [List.forM_cons, (plain rule (List.mem_cons_self ..)).validate]
      exact induction fun other member => plain other (List.mem_cons_of_mem _ member)

theorem validateSubject_of_plain : validateSubject rules = .ok () := by
  have noPass : rules.any (·.verdict = .pass) = false := by
    simp only [List.any_eq_false, decide_eq_true_eq]
    intro rule member
    simp [(plain rule member).verdict]
  unfold validateSubject
  rw [forM_validate_of_plain plain, noPass]
  rfl

theorem foldl_least_of_plain :
    (rules.map (·.priority)).foldl Priority.least (.finite 0) = .finite 0 := by
  induction rules with
  | nil => rfl
  | cons rule rules induction =>
      have first := (plain rule (List.mem_cons_self ..)).priority
      have step : Priority.least (.finite 0) (.finite 0) = .finite 0 := by
        simp [Priority.least]
      rw [List.map_cons, List.foldl_cons, first, step]
      exact induction fun other member => plain other (List.mem_cons_of_mem _ member)

theorem winners_of_plain (allMatch : ∀ rule ∈ rules, rule.matches packet) :
    winners rules packet .normal = rules := by
  have matching : (rules.filter fun rule => rule.tier = .normal && rule.matches packet) =
      rules := by
    rw [List.filter_eq_self]
    intro rule member
    simp [(plain rule member).tier, allMatch rule member]
  have ranks : ∀ rule ∈ rules, rule.verdictRank = (1, 0) := by
    intro rule member
    simp [Rule.verdictRank, (plain rule member).verdict, (plain rule member).proxyPort]
  unfold winners
  simp only [matching]
  cases rules with
  | nil => rfl
  | cons first rest =>
      have zero := (plain first (List.mem_cons_self ..)).priority
      have least := foldl_least_of_plain fun rule member =>
        plain rule (List.mem_cons_of_mem first member)
      simp only [List.map_cons, zero, least]
      have peers : ((first :: rest).filter fun rule => rule.priority = .finite 0) =
          first :: rest := by
        rw [List.filter_eq_self]
        intro rule member
        simp [(plain rule member).priority]
      rw [peers, List.filter_eq_self]
      intro rule member
      rw [List.all_eq_true]
      intro other inside
      rw [ranks rule member, ranks other inside]
      rfl

theorem winners_of_other_tier {packet : Packet} {tier : Tier} (other : tier ≠ .normal) :
    winners rules packet tier = [] :=
  winners_eq_nil fun rule member _ => by
    rw [(plain rule member).tier]
    exact other.symm

/-- Plain allows that match let the packet through; without one it is denied. -/
theorem evaluate_of_plain (allMatch : ∀ rule ∈ rules, rule.matches packet) :
    (∃ ports, evaluate rules packet = .ok (.allow ports)) ↔ rules ≠ [] := by
  have noAuthentication : rules.any (·.authentication.isSome) = false := by
    rw [List.any_eq_false]
    intro rule member
    simp [(plain rule member).authentication]
  have admin := @winners_of_other_tier rules plain packet .admin (by decide)
  have baseline := @winners_of_other_tier rules plain packet .baseline (by decide)
  have last := @winners_of_other_tier rules plain packet .default (by decide)
  have normal := winners_of_plain plain allMatch
  have decided : evaluate rules packet =
      .ok (decideTiers rules packet [.admin, .normal, .baseline, .default]) := by
    unfold evaluate
    rw [validateSubject_of_plain plain, noAuthentication]
    rfl
  rw [decided]
  cases rules with
  | nil => simp [decideTiers, admin, baseline, last, normal]
  | cons first rest =>
      have allow := (plain first (List.mem_cons_self ..)).verdict
      simp [decideTiers, admin, normal, allow]

end Plain

end Oracle

end FlowSdn.Policy
