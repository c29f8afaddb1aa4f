import FlowSdn.Foundation.Checked
import FlowSdn.Foundation.Intervals
import FlowSdn.Policy.Oracle

/-! # Compiled lookup of resolved rules

For every identity, direction and protocol that the rules tell apart, the ports
are cut at the rules' bounds and each piece is decided once, on the rules sorted by
tier, priority and rank. A packet then costs one search.
-/

namespace FlowSdn.Policy

/-- The discriminant, by which tiers are ordered. -/
def Tier.number : Tier → Nat
  | admin => 100
  | normal => 200
  | baseline => 250
  | default => 255

/-- The value by which priorities are ordered; the ones without are refused before. -/
def Priority.amount : Priority → Option ℚ
  | finite value => some value
  | notFinite => none

namespace MapState

open Oracle OrderedMap Intervals

deriving instance DecidableEq for Decision

structure Bucket where
  identity : Option U32
  egress : Bool
  protocol : Option U8
  deriving DecidableEq

namespace Bucket

instance : Ord Bucket where
  compare := compareLex (compareOn identity) (compareLex (compareOn egress) (compareOn protocol))

instance : Std.TransOrd Bucket := inferInstanceAs (Std.TransCmp (compareLex _ _))

instance : Std.LawfulEqOrd Bucket where
  eq_of_compare {left right} equal := by
    cases left
    cases right
    simp_all [compare]

end Bucket

def rank (rule : Rule) : Nat :=
  match rule.verdict with
  | .deny => 255
  | .pass => 0
  | .allow =>
      if rule.proxyPort = 0#16 then 1
      else if rule.listenerPriority = 0#8 then 127
      else 255 - rule.listenerPriority.toNat

/-- Earlier tiers, then lower priorities, then higher ranks. -/
def compareRules : Rule → Rule → Ordering :=
  compareLex (compareOn (·.tier.number))
    (compareLex (compareOn (·.priority.amount)) fun left right => compareOn rank right left)

def conclude (passed : Option Tier) (winner : Option Rule) (proxyPorts : BTreeSet U16)
    (defaultAllow : Bool) : Decision :=
  if winner.isSome then .allow proxyPorts
  else if passed.isNone && defaultAllow then .allow (collect [0#16])
  else .deny

/-- The loop of `decide` over the ordered rules. -/
def decideFrom (port : U16) (defaultAllow : Bool) :
    List Rule → Option Tier → Option Rule → BTreeSet U16 → Decision
  | [], passed, winner, proxyPorts => conclude passed winner proxyPorts defaultAllow
  | rule :: rules, passed, winner, proxyPorts =>
      if port < rule.ports.start || rule.ports.finish < port || passed = some rule.tier then
        decideFrom port defaultAllow rules passed winner proxyPorts
      else
        match winner with
        | some chosen =>
            if compareRules chosen rule ≠ .eq then
              conclude passed winner proxyPorts defaultAllow
            else
              decideFrom port defaultAllow rules passed winner (proxyPorts.insert rule.proxyPort)
        | none =>
            match rule.verdict with
            | .deny => .deny
            | .pass => decideFrom port defaultAllow rules (some rule.tier) none proxyPorts
            | .allow =>
                decideFrom port defaultAllow rules passed (some rule)
                  (proxyPorts.insert rule.proxyPort)

def decideAt (ordered : List Rule) (port : U16) (defaultAllow : Bool) : Decision :=
  decideFrom port defaultAllow ordered none none ∅

def Bucket.holds (bucket : Bucket) (rule : Rule) : Bool :=
  rule.egress = bucket.egress &&
    (match rule.peer with
      | .any => true
      | .identity id => bucket.identity = some id) &&
    (rule.protocol = Abi.anyProtocol || bucket.protocol = some rule.protocol)

/-- The rules of a bucket, the deciding ones first; equal ones keep their order. -/
def candidates (rules : List Rule) (bucket : Bucket) : List Rule :=
  (rules.filter bucket.holds).insertionSort fun left right => compareRules left right ≠ .gt

/-- Where a rule's ports start and where they have ended. -/
def bounds (rule : Rule) : List Nat :=
  [rule.ports.start.toNat, rule.ports.finish.toNat + 1]

def edges (ordered : List Rule) : List Nat :=
  (collect (0 :: 65536 :: ordered.flatMap bounds)).toList

def portOf (number : Nat) : Except Error Nat :=
  if number < 65536 then .ok number else .error .invalidPortRange

def intervals (ordered : List Rule) (defaultAllow : Bool) :
    Except Error (List (Interval Decision)) :=
  (windows (edges ordered)).foldlM (fun intervals window => do
    let first ← portOf window.1
    let last ← portOf (window.2 - 1)
    return push intervals
      { first, last, value := decideAt ordered (BitVec.ofNat 16 first) defaultAllow }) []

def peerIdentities (rules : List Rule) : BTreeSet U32 :=
  collect (rules.filterMap fun rule =>
    match rule.peer with
    | .any => none
    | .identity id => some id)

def ruleProtocols (rules : List Rule) : BTreeSet U8 :=
  collect ((rules.map (·.protocol)).filter (· ≠ Abi.anyProtocol))

/-- Every bucket the rules tell apart, with one more of each kind for the rest. -/
def bucketKeys (rules : List Rule) : List Bucket :=
  (none :: (peerIdentities rules).toList.map some).flatMap fun identity =>
    [false, true].flatMap fun egress =>
      (none :: (ruleProtocols rules).toList.map some).map fun protocol =>
        { identity, egress, protocol }

end MapState

structure MapState where
  buckets : BTreeMap MapState.Bucket (List (Intervals.Interval Oracle.Decision))
  identities : BTreeSet U32
  protocols : BTreeSet U8

namespace MapState

open Oracle OrderedMap Intervals

def compileWithDefault (rules : List Rule) (defaultAllow : Bool) : Except Error MapState := do
  validateSubject rules
  if rules.any (·.authentication.isSome) then .error .oracleAuthenticationUnsupported
  let pairs ← (bucketKeys rules).mapM fun bucket => do
    let found ← intervals (candidates rules bucket) defaultAllow
    return (bucket, found)
  return {
    buckets := insertAll ∅ pairs
    identities := peerIdentities rules
    protocols := ruleProtocols rules }

def compile (rules : List Rule) : Except Error MapState :=
  compileWithDefault rules false

/-- The bucket of a packet: what no rule names is looked up without it. -/
def bucketOf (state : MapState) (packet : Packet) : Bucket where
  identity := if state.identities.contains packet.identity then some packet.identity else none
  egress := packet.egress
  protocol := if state.protocols.contains packet.protocol then some packet.protocol else none

def lookup (state : MapState) (packet : Packet) : Decision :=
  match state.buckets[state.bucketOf packet]? with
  | none => .deny
  | some intervals => (find intervals packet.port.toNat).getD .deny

/-! ## Order of rules -/

theorem Tier.number_injective {left right : Tier} (same : left.number = right.number) :
    left = right := by
  cases left <;> cases right <;> first | rfl | cases same

theorem Priority.amount_injective {left right : Priority} (same : left.amount = right.amount) :
    left = right := by
  cases left <;> cases right <;> simp_all [Priority.amount]

instance : Std.TransCmp compareRules :=
  inferInstanceAs (Std.TransCmp (compareLex (compareOn fun rule : Rule => rule.tier.number)
    (compareLex (compareOn fun rule : Rule => rule.priority.amount)
      fun left right => compareOn rank right left)))

variable {left right rule : Rule} {rules ordered : List Rule}

theorem compareRules_eq_iff : compareRules left right = .eq ↔
    left.tier = right.tier ∧ left.priority = right.priority ∧ rank left = rank right := by
  have fields : compareRules left right = .eq ↔
      compare left.tier.number right.tier.number = .eq ∧
        compare left.priority.amount right.priority.amount = .eq ∧
        compare (rank right) (rank left) = .eq := by
    simp [compareRules, compareLex, compareOn, Ordering.then_eq_eq]
  rw [fields, Std.compare_eq_iff_eq, Std.compare_eq_iff_eq, Std.compare_eq_iff_eq]
  constructor
  · intro same
    exact ⟨Tier.number_injective same.1, Priority.amount_injective same.2.1, same.2.2.symm⟩
  · intro same
    rw [same.1, same.2.1, same.2.2]
    exact ⟨rfl, rfl, rfl⟩

theorem tier_le_of_compareRules (order : compareRules left right ≠ .gt) :
    left.tier.number ≤ right.tier.number := by
  by_contra later
  apply order
  have greater : compare left.tier.number right.tier.number = .gt :=
    Nat.compare_eq_gt.mpr (by omega)
  simp [compareRules, compareLex, compareOn, greater]

/-- What a validated rule's order relies on. -/
structure Ranked (rule : Rule) : Prop where
  finite : ∃ value, rule.priority = .finite value
  listener : rule.listenerPriority.toNat ≤ 126

theorem ranked_of_validate (valid : rule.validate = .ok ()) : Ranked rule := by
  unfold Rule.validate at valid
  split at valid
  · cases valid
  · split at valid
    · cases valid
    · split at valid
      · cases valid
      · rename_i priority _ redirect
        rw [not_or] at redirect
        have small : ¬126#8 < rule.listenerPriority := redirect.1
        rw [BitVec.lt_def] at small
        refine ⟨?_, Nat.le_of_not_lt small⟩
        cases held : rule.priority with
        | finite value => exact ⟨value, rfl⟩
        | notFinite => simp [held, Priority.valid] at priority

theorem ranked_of_validateSubject (valid : validateSubject rules = .ok ()) :
    ∀ rule ∈ rules, Ranked rule := by
  intro rule member
  rcases Checked.bind_eq_ok.mp valid with ⟨_, checked, _⟩
  exact ranked_of_validate (Checked.forM_eq_ok.mp checked rule member)

theorem rank_cases (ranked : Ranked rule) :
    rule.verdict = .deny ∧ rank rule = 255 ∧ rule.verdictRank = (3, 0) ∨
    rule.verdict = .pass ∧ rank rule = 0 ∧ rule.verdictRank = (0, 0) ∨
    rule.verdict = .allow ∧ rank rule = 1 ∧ rule.verdictRank = (1, 0) ∨
    rule.verdict = .allow ∧ rank rule = 127 ∧ rule.verdictRank = (2, 0) ∨
    rule.verdict = .allow ∧ ∃ listener, 1 ≤ listener ∧ listener ≤ 126 ∧
      rank rule = 255 - listener ∧ rule.verdictRank = (2, 127 - listener) := by
  have listener := ranked.listener
  cases verdict : rule.verdict with
  | deny => simp [rank, Rule.verdictRank, verdict]
  | pass => simp [rank, Rule.verdictRank, verdict]
  | allow =>
      by_cases plain : rule.proxyPort = 0#16
      · simp [rank, Rule.verdictRank, verdict, plain]
      · by_cases unset : rule.listenerPriority = 0#8
        · simp [rank, Rule.verdictRank, verdict, plain, unset]
        · have positive : rule.listenerPriority.toNat ≠ 0 := fun zero =>
            unset (BitVec.eq_of_toNat_eq zero)
          refine .inr (.inr (.inr (.inr ⟨rfl, rule.listenerPriority.toNat, by omega, listener,
            ?_, ?_⟩)))
          · simp [rank, verdict, plain, unset]
          · simp [Rule.verdictRank, verdict, plain, unset]

theorem rankLe_iff (leftRanked : Ranked left) (rightRanked : Ranked right) :
    rankLe left.verdictRank right.verdictRank ↔ rank left ≤ rank right := by
  rcases rank_cases leftRanked with ⟨_, leftRank, leftPair⟩ | ⟨_, leftRank, leftPair⟩ |
      ⟨_, leftRank, leftPair⟩ | ⟨_, leftRank, leftPair⟩ |
      ⟨_, leftListener, _, _, leftRank, leftPair⟩ <;>
    rcases rank_cases rightRanked with ⟨_, rightRank, rightPair⟩ | ⟨_, rightRank, rightPair⟩ |
      ⟨_, rightRank, rightPair⟩ | ⟨_, rightRank, rightPair⟩ |
      ⟨_, rightListener, _, _, rightRank, rightPair⟩ <;>
    simp only [leftRank, leftPair, rightRank, rightPair, rankLe, Bool.or_eq_true,
      Bool.and_eq_true, decide_eq_true_eq, true_and] <;>
    omega

theorem verdict_eq_of_rank (leftRanked : Ranked left)
    (rightRanked : Ranked right) (same : rank left = rank right) :
    left.verdict = right.verdict := by
  rcases rank_cases leftRanked with ⟨leftVerdict, leftRank, _⟩ | ⟨leftVerdict, leftRank, _⟩ |
      ⟨leftVerdict, leftRank, _⟩ | ⟨leftVerdict, leftRank, _⟩ |
      ⟨leftVerdict, _, _, _, leftRank, _⟩ <;>
    rcases rank_cases rightRanked with ⟨rightVerdict, rightRank, _⟩ |
      ⟨rightVerdict, rightRank, _⟩ | ⟨rightVerdict, rightRank, _⟩ |
      ⟨rightVerdict, rightRank, _⟩ | ⟨rightVerdict, _, _, _, rightRank, _⟩ <;>
    first | (rw [leftVerdict, rightVerdict]; done) | omega

theorem compareRules_ne_gt_iff {low high : ℚ} (tiers : left.tier = right.tier)
    (isLow : left.priority = .finite low) (isHigh : right.priority = .finite high) :
    compareRules left right ≠ .gt ↔ low < high ∨ low = high ∧ rank right ≤ rank left := by
  have reduced : compareRules left right =
      (compare low high).then (compare (rank right) (rank left)) := by
    simp [compareRules, compareLex, compareOn, tiers, isLow, isHigh, Priority.amount]
    rfl
  rw [reduced]
  rcases lt_trichotomy low high with less | equal | greater
  · simp [compare_lt_iff_lt.mpr less, less]
  · simp [equal, Nat.compare_ne_gt]
  · have not := not_lt_of_gt greater
    simp [compare_gt_iff_gt.mpr greater, not, greater.ne']

/-! ## The winners of a tier -/

/-- The least of a list of priorities is any one that is not above the others. -/
theorem foldl_least {first : ℚ} {rest : List Priority} {low : ℚ}
    (finite : ∀ priority ∈ rest, ∃ value, priority = .finite value)
    (member : .finite low ∈ (.finite first :: rest : List Priority))
    (least : ∀ value, .finite value ∈ (.finite first :: rest : List Priority) → low ≤ value) :
    rest.foldl Priority.least (.finite first) = .finite low := by
  induction rest generalizing first with
  | nil =>
      have same : low = first := by simpa using member
      rw [same]
      rfl
  | cons next rest induction =>
      rcases finite next (List.mem_cons_self ..) with ⟨value, rfl⟩
      have below : low ≤ first := least first (List.mem_cons_self ..)
      have belowNext : low ≤ value := least value (by simp)
      have step : Priority.least (.finite first) (.finite value) = .finite (min first value) := by
        simp only [Priority.least]
        split_ifs with less
        · rw [min_eq_right less.le]
        · rw [min_eq_left (not_lt.mp less)]
      rw [List.foldl_cons, step]
      apply induction fun priority inside => finite priority (List.mem_cons_of_mem _ inside)
      · rcases List.mem_cons.mp member with here | inside
        · have same : low = first := by simpa using here
          rw [← same, min_eq_left belowNext]
          exact List.mem_cons_self ..
        · rcases List.mem_cons.mp inside with here | further
          · have same : low = value := by simpa using here
            rw [← same, min_eq_right below]
            exact List.mem_cons_self ..
          · exact List.mem_cons_of_mem _ further
      · intro other inside
        rcases List.mem_cons.mp inside with here | further
        · have same : other = min first value := by simpa using here
          rw [same]
          exact le_min below belowNext
        · exact least other (by simp [further])

section Winners

variable {rules : List Rule} {packet : Packet} {tier : Tier} (ranked : ∀ rule ∈ rules, Ranked rule)

include ranked

theorem mem_winners {best : Rule} (isRule : best ∈ rules) (inTier : best.tier = tier)
    (holds : best.matches packet)
    (first : ∀ rule ∈ rules, rule.matches packet → rule.tier = tier →
      compareRules best rule ≠ .gt) (rule : Rule) :
    rule ∈ winners rules packet tier ↔
      rule ∈ rules ∧ rule.matches packet ∧ compareRules best rule = .eq := by
  generalize matchingEq :
    (rules.filter fun rule => rule.tier = tier && rule.matches packet) = matching
  have mem_matching : ∀ rule, rule ∈ matching ↔
      rule ∈ rules ∧ rule.tier = tier ∧ rule.matches packet := by
    intro rule
    rw [← matchingEq]
    simp
  have isMatching : best ∈ matching := (mem_matching best).mpr ⟨isRule, inTier, holds⟩
  rcases (ranked best isRule).finite with ⟨low, isLow⟩
  have order : ∀ other ∈ matching, ∃ value, other.priority = .finite value ∧
      (low < value ∨ low = value ∧ rank other ≤ rank best) := by
    intro other member
    rcases (mem_matching other).mp member with ⟨isOther, sameTier, otherHolds⟩
    rcases (ranked other isOther).finite with ⟨value, isValue⟩
    refine ⟨value, isValue, ?_⟩
    exact (compareRules_ne_gt_iff (inTier.trans sameTier.symm) isLow isValue).mp
      (first other isOther otherHolds sameTier)
  have leastEq : ∀ head tail, matching.map (·.priority) = head :: tail →
      tail.foldl Priority.least head = .finite low := by
    intro head tail listed
    have values : ∀ priority ∈ head :: tail, ∃ value, priority = .finite value ∧ low ≤ value := by
      intro priority member
      rw [← listed] at member
      rcases List.mem_map.mp member with ⟨other, inside, rfl⟩
      rcases order other inside with ⟨value, isValue, less | equal⟩
      · exact ⟨value, isValue, less.le⟩
      · exact ⟨value, isValue, equal.1.le⟩
    rcases values head (List.mem_cons_self ..) with ⟨value, rfl, _⟩
    apply foldl_least
    · intro priority member
      rcases values priority (List.mem_cons_of_mem _ member) with ⟨other, isOther, _⟩
      exact ⟨other, isOther⟩
    · rw [← listed, ← isLow]
      exact List.mem_map_of_mem isMatching
    · intro other member
      rcases values _ member with ⟨same, equal, below⟩
      cases equal
      exact below
  have members : rule ∈ winners rules packet tier ↔
      (rule ∈ matching ∧ rule.priority = .finite low) ∧
        ∀ other ∈ matching, other.priority = .finite low →
          rankLe other.verdictRank rule.verdictRank := by
    unfold winners
    simp only [matchingEq]
    cases listed : matching.map (·.priority) with
    | nil =>
        rw [List.map_eq_nil_iff.mp listed] at isMatching
        cases isMatching
    | cons head tail =>
        simp only [leastEq head tail listed, List.mem_filter, List.all_eq_true, and_imp,
          decide_eq_true_eq]
  rw [members]
  constructor
  · intro wins
    rcases wins with ⟨⟨member, sameValue⟩, highest⟩
    rcases (mem_matching rule).mp member with ⟨inRules, sameTier, ruleHolds⟩
    refine ⟨inRules, ruleHolds, compareRules_eq_iff.mpr ⟨inTier.trans sameTier.symm,
      isLow.trans sameValue.symm, ?_⟩⟩
    have above := (rankLe_iff (ranked best isRule) (ranked rule inRules)).mp
      (highest best isMatching isLow)
    rcases order rule member with ⟨value, isValue, less | equal⟩
    · rw [sameValue] at isValue
      cases isValue
      exact absurd less (lt_irrefl low)
    · exact Nat.le_antisymm above equal.2
  · intro equal
    rcases equal with ⟨inRules, ruleHolds, same⟩
    rcases compareRules_eq_iff.mp same with ⟨sameTier, sameValue, sameRank⟩
    refine ⟨⟨(mem_matching rule).mpr ⟨inRules, sameTier.symm.trans inTier, ruleHolds⟩,
      sameValue.symm.trans isLow⟩, ?_⟩
    intro other member otherLow
    rcases (mem_matching other).mp member with ⟨isOther, _, _⟩
    rw [rankLe_iff (ranked other isOther) (ranked rule inRules), ← sameRank]
    rcases order other member with ⟨value, isValue, less | equal⟩
    · rw [otherLow] at isValue
      cases isValue
      exact absurd less (lt_irrefl low)
    · exact equal.2

end Winners

/-! ## Deciding on ordered rules -/

theorem outside_eq (rule : Rule) (port : U16) :
    (port < rule.ports.start || rule.ports.finish < port) = !rule.ports.contains port := by
  simp [PortRange.contains, Bool.not_and, ← BitVec.not_le]

theorem decideFrom_congr {port other : U16} {defaultAllow : Bool}
    (same : ∀ rule ∈ ordered, rule.ports.contains port = rule.ports.contains other)
    (passed : Option Tier) (winner : Option Rule) (proxyPorts : BTreeSet U16) :
    decideFrom port defaultAllow ordered passed winner proxyPorts =
      decideFrom other defaultAllow ordered passed winner proxyPorts := by
  induction ordered generalizing passed winner proxyPorts with
  | nil => rfl
  | cons rule ordered induction =>
      have later := induction fun rule member => same rule (List.mem_cons_of_mem _ member)
      have here := same rule (List.mem_cons_self ..)
      unfold decideFrom
      simp only [outside_eq, here, later]

/-- No rule is after one that it decides before. -/
def Sorted (ordered : List Rule) : Prop :=
  ordered.Pairwise fun left right => compareRules left right ≠ .gt

section Deciding

variable {ordered : List Rule} {port : U16} {defaultAllow : Bool} {passed : Option Tier}

theorem decideFrom_skip {rule : Rule} (winner : Option Rule) (proxyPorts : BTreeSet U16)
    (skipped : ¬rule.ports.contains port ∨ passed = some rule.tier) :
    decideFrom port defaultAllow (rule :: ordered) passed winner proxyPorts =
      decideFrom port defaultAllow ordered passed winner proxyPorts := by
  have skips : (port < rule.ports.start || rule.ports.finish < port ||
      decide (passed = some rule.tier)) = true := by
    rw [outside_eq]
    simpa using skipped
  rw [decideFrom.eq_def]
  simp only [skips, if_true]

theorem decideFrom_filter (winner : Option Rule) (proxyPorts : BTreeSet U16) :
    decideFrom port defaultAllow ordered passed winner proxyPorts =
      decideFrom port defaultAllow (ordered.filter (·.ports.contains port)) passed winner
        proxyPorts := by
  induction ordered generalizing passed winner proxyPorts with
  | nil => rfl
  | cons rule ordered induction =>
      by_cases inside : rule.ports.contains port
      · rw [List.filter_cons, if_pos inside]
        unfold decideFrom
        simp only [induction]
      · rw [List.filter_cons, if_neg inside, decideFrom_skip winner proxyPorts (.inl inside),
          induction]

theorem decideFrom_dropWhile (tier : Tier) (winner : Option Rule) (proxyPorts : BTreeSet U16) :
    decideFrom port defaultAllow ordered (some tier) winner proxyPorts =
      decideFrom port defaultAllow (ordered.dropWhile (·.tier = tier)) (some tier) winner
        proxyPorts := by
  induction ordered with
  | nil => rfl
  | cons rule ordered induction =>
      by_cases same : rule.tier = tier
      · rw [List.dropWhile_cons_of_pos (by simpa using same),
          decideFrom_skip winner proxyPorts (.inr (by rw [same])), induction]
      · rw [List.dropWhile_cons_of_neg (by simpa using same)]

variable (holds : ∀ rule ∈ ordered, rule.ports.contains port) (sorted : Sorted ordered)
  (fresh : ∀ rule ∈ ordered, passed ≠ some rule.tier)

include holds sorted fresh

/-- Once an allow has won, the rules equal to it add their proxy ports. -/
theorem decideFrom_some {chosen : Rule} (proxyPorts : BTreeSet U16)
    (after : ∀ rule ∈ ordered, compareRules chosen rule ≠ .gt) :
    decideFrom port defaultAllow ordered passed (some chosen) proxyPorts =
      .allow (extend proxyPorts
        ((ordered.filter fun rule => compareRules chosen rule = .eq).map (·.proxyPort))) := by
  induction ordered generalizing proxyPorts with
  | nil => rfl
  | cons rule ordered induction =>
      rcases List.pairwise_cons.mp sorted with ⟨before, rest⟩
      have inside := holds rule (List.mem_cons_self ..)
      have considered : (port < rule.ports.start || rule.ports.finish < port ||
          decide (passed = some rule.tier)) = false := by
        simp [outside_eq, inside, fresh rule (List.mem_cons_self ..)]
      rw [decideFrom, considered, if_neg Bool.false_ne_true]
      by_cases equal : compareRules chosen rule = .eq
      · have later := induction (fun rule member => holds rule (List.mem_cons_of_mem _ member))
          rest (fun rule member => fresh rule (List.mem_cons_of_mem _ member))
          (proxyPorts.insert rule.proxyPort)
          (fun rule member => after rule (List.mem_cons_of_mem _ member))
        simp only [equal, ne_eq, not_true_eq_false, if_false, later]
        rw [List.filter_cons_of_pos (by simpa using equal)]
        rfl
      · have less : compareRules chosen rule = .lt := by
          have notAfter := after rule (List.mem_cons_self ..)
          cases order : compareRules chosen rule with
          | lt => rfl
          | eq => exact absurd order equal
          | gt => exact absurd order notAfter
        have none : (rule :: ordered).filter (fun rule => compareRules chosen rule = .eq) = [] := by
          rw [List.filter_eq_nil_iff]
          intro other member
          have greater : compareRules chosen other = .lt := by
            rcases List.mem_cons.mp member with here | inside
            · rw [here, less]
            · exact Std.TransCmp.lt_of_lt_of_isLE less
                (Ordering.isLE_iff_ne_gt.mpr (before other inside))
          simp [greater]
        simp [less, none, conclude, extend]

end Deciding

/-- Dropping a first tier from ordered rules leaves the rules of the others. -/
theorem mem_dropWhile_tier {tier : Tier} (sorted : Sorted ordered)
    (front : ∀ rule ∈ ordered, tier.number ≤ rule.tier.number) (rule : Rule) :
    rule ∈ ordered.dropWhile (·.tier = tier) ↔ rule ∈ ordered ∧ rule.tier ≠ tier := by
  induction ordered with
  | nil => simp
  | cons head ordered induction =>
      rcases List.pairwise_cons.mp sorted with ⟨before, rest⟩
      by_cases same : head.tier = tier
      · have later := induction rest fun rule member => front rule (List.mem_cons_of_mem _ member)
        rw [List.dropWhile_cons_of_pos (by simpa using same), later, List.mem_cons]
        constructor
        · exact fun inside => ⟨.inr inside.1, inside.2⟩
        · intro inside
          rcases inside with ⟨here | further, other⟩
          · exact absurd (here ▸ same) other
          · exact ⟨further, other⟩
      · rw [List.dropWhile_cons_of_neg (by simpa using same), iff_self_and]
        have above : tier.number < head.tier.number :=
          Nat.lt_of_le_of_ne (front head (List.mem_cons_self ..)) fun equal =>
            same (Tier.number_injective equal.symm)
        intro member equal
        rcases List.mem_cons.mp member with here | inside
        · exact same (here ▸ equal)
        · have order := tier_le_of_compareRules (before rule inside)
          rw [equal] at order
          omega

/-- The rules of some tiers that match a packet. -/
def Listed (rules : List Rule) (packet : Packet) (tiers : List Tier) (ordered : List Rule) : Prop :=
  ∀ rule, rule ∈ ordered ↔ rule ∈ rules ∧ rule.matches packet ∧ rule.tier ∈ tiers

section Agreement

variable {rules : List Rule} {packet : Packet} {defaultAllow : Bool}
  (ranked : ∀ rule ∈ rules, Ranked rule)

theorem contains_of_matches {rule : Rule} (holds : rule.matches packet) :
    rule.ports.contains packet.port := by
  simp only [Rule.matches, Bool.and_eq_true] at holds
  exact holds.2

variable {best : Rule} {rest : List Rule} {tier : Tier} {tiers : List Tier}

theorem first_tier_eq (below : ∀ other ∈ tiers, tier.number < other.number)
    (sorted : Sorted (best :: rest)) (members : Listed rules packet (tier :: tiers) (best :: rest))
    (present : ¬∀ rule ∈ best :: rest, rule.tier ≠ tier) : best.tier = tier := by
  rw [not_forall] at present
  rcases present with ⟨rule, present⟩
  rw [not_forall, exists_prop, not_not] at present
  rcases present with ⟨member, same⟩
  rcases List.mem_cons.mp member with here | inside
  · rw [← here, same]
  · have order := tier_le_of_compareRules ((List.pairwise_cons.mp sorted).1 rule inside)
    rcases List.mem_cons.mp ((members best).mp (List.mem_cons_self ..)).2.2 with here | further
    · exact here
    · have beyond := below best.tier further
      rw [same] at order
      omega

theorem members_after_pass
    {remaining : List Rule} (below : ∀ other ∈ tiers, tier.number < other.number)
    (bestTier : best.tier = tier) (members : Listed rules packet (tier :: tiers) (best :: rest))
    (remains : ∀ rule, rule ∈ remaining ↔ rule ∈ rest ∧ rule.tier ≠ tier) :
    Listed rules packet tiers remaining := by
  intro rule
  have apart : tier ∉ tiers := fun member => Nat.lt_irrefl _ (below tier member)
  rw [remains rule]
  constructor
  · intro inside
    rcases (members rule).mp (List.mem_cons_of_mem _ inside.1) with ⟨isRule, matching, inTiers⟩
    rcases List.mem_cons.mp inTiers with here | further
    · exact absurd here inside.2
    · exact ⟨isRule, matching, further⟩
  · intro inside
    have other : rule.tier ≠ tier := fun same => apart (same ▸ inside.2.2)
    have member := (members rule).mpr ⟨inside.1, inside.2.1, List.mem_cons_of_mem _ inside.2.2⟩
    rcases List.mem_cons.mp member with here | further
    · exact absurd (here ▸ bestTier) other
    · exact ⟨further, other⟩

/-- The proxy ports gathered from the first rule on are those of the winners. -/
theorem proxyPorts_eq (bestTier : best.tier = tier)
    (members : Listed rules packet (tier :: tiers) (best :: rest))
    (wins : ∀ rule, rule ∈ winners rules packet tier ↔
      rule ∈ rules ∧ rule.matches packet ∧ compareRules best rule = .eq) :
    extend ((∅ : BTreeSet U16).insert best.proxyPort)
        ((rest.filter fun rule => compareRules best rule = .eq).map (·.proxyPort)) =
      collect ((winners rules packet tier).map (·.proxyPort)) := by
  have gathered : extend ((∅ : BTreeSet U16).insert best.proxyPort)
      ((rest.filter fun rule => compareRules best rule = .eq).map (·.proxyPort)) =
      collect (((best :: rest).filter fun rule => compareRules best rule = .eq).map
        (·.proxyPort)) := by
    have self : compareRules best best = .eq := Std.ReflCmp.compare_self
    rw [List.filter_cons_of_pos (by simpa using self)]
    rfl
  rw [gathered]
  apply Std.ExtTreeSet.ext_mem
  intro port
  simp only [mem_collect, List.mem_map, List.mem_filter, decide_eq_true_eq, wins]
  constructor
  · intro held
    rcases held with ⟨rule, ⟨member, equal⟩, same⟩
    rcases (members rule).mp member with ⟨isRule, matching, _⟩
    exact ⟨rule, ⟨isRule, matching, equal⟩, same⟩
  · intro held
    rcases held with ⟨rule, ⟨isRule, matching, equal⟩, same⟩
    have sameTier : rule.tier = tier := (compareRules_eq_iff.mp equal).1.symm.trans bestTier
    exact ⟨rule, ⟨(members rule).mpr ⟨isRule, matching, by simp [sameTier]⟩, equal⟩, same⟩

include ranked

/-- Ordered rules decide what the tiers decide; a default applies when nothing matched. -/
theorem decideFrom_eq_decideTiers
    (ascending : tiers.Pairwise fun left right => left.number < right.number) {ordered : List Rule}
    (sorted : Sorted ordered) (members : Listed rules packet tiers ordered)
    {passed : Option Tier} (fresh : ∀ rule ∈ ordered, passed ≠ some rule.tier) :
    decideFrom packet.port defaultAllow ordered passed none ∅ =
      if ordered = [] ∧ passed = none ∧ defaultAllow then .allow (collect [0#16])
      else decideTiers rules packet tiers := by
  induction tiers generalizing ordered passed with
  | nil =>
      have empty : ordered = [] := by
        rw [List.eq_nil_iff_forall_not_mem]
        intro rule member
        simpa using (members rule).mp member
      subst empty
      simp [decideFrom, conclude, decideTiers]
  | cons tier tiers induction =>
      rcases List.pairwise_cons.mp ascending with ⟨below, later⟩
      have holds : ∀ rule ∈ ordered, rule.ports.contains packet.port := fun rule member =>
        contains_of_matches ((members rule).mp member).2.1
      by_cases absent : ∀ rule ∈ ordered, rule.tier ≠ tier
      · have noWinner : winners rules packet tier = [] := by
          apply winners_eq_nil
          intro rule isRule matching same
          exact absent rule ((members rule).mpr ⟨isRule, matching, by simp [same]⟩) same
        have skipped : decideTiers rules packet (tier :: tiers) =
            decideTiers rules packet tiers := by
          simp [decideTiers, noWinner]
        rw [skipped]
        apply induction later sorted _ fresh
        intro rule
        rw [members rule, List.mem_cons]
        constructor
        · intro member
          rcases member with ⟨isRule, matching, here | inside⟩
          · exact absurd here (absent rule ((members rule).mpr ⟨isRule, matching, by simp [here]⟩))
          · exact ⟨isRule, matching, inside⟩
        · exact fun member => ⟨member.1, member.2.1, .inr member.2.2⟩
      · cases ordered with
        | nil => simp at absent
        | cons best rest =>
            rcases List.pairwise_cons.mp sorted with ⟨before, restSorted⟩
            rcases (members best).mp (List.mem_cons_self ..) with ⟨isBest, bestHolds, _⟩
            have bestTier := first_tier_eq below sorted members absent
            have first : ∀ rule ∈ rules, rule.matches packet → rule.tier = tier →
                compareRules best rule ≠ .gt := by
              intro rule isRule matching same
              rcases List.mem_cons.mp ((members rule).mpr ⟨isRule, matching, by simp [same]⟩) with
                here | inside
              · have equal : compareRules best best = .eq := Std.ReflCmp.compare_self
                simp [here, equal]
              · exact before rule inside
            have wins := mem_winners ranked isBest bestTier bestHolds first
            have isWinner : best ∈ winners rules packet tier :=
              (wins best).mpr ⟨isBest, bestHolds, Std.ReflCmp.compare_self⟩
            have considered : (packet.port < best.ports.start || best.ports.finish < packet.port ||
                decide (passed = some best.tier)) = false := by
              simp [outside_eq, holds best (List.mem_cons_self ..),
                fresh best (List.mem_cons_self ..)]
            cases listed : winners rules packet tier with
            | nil =>
                rw [listed] at isWinner
                cases isWinner
            | cons winner others =>
                have equal := (wins winner).mp (by rw [listed]; exact List.mem_cons_self ..)
                have sameVerdict : winner.verdict = best.verdict :=
                  (verdict_eq_of_rank (ranked best isBest) (ranked winner equal.1)
                    (compareRules_eq_iff.mp equal.2.2).2.2).symm
                rw [decideFrom, considered, if_neg Bool.false_ne_true, if_neg (by simp)]
                cases verdict : best.verdict with
                | deny => simp [decideTiers, listed, sameVerdict, verdict]
                | pass =>
                    have front : ∀ rule ∈ rest, tier.number ≤ rule.tier.number := by
                      intro rule member
                      rw [← bestTier]
                      exact tier_le_of_compareRules (before rule member)
                    have remaining := members_after_pass below bestTier members
                      (mem_dropWhile_tier restSorted front)
                    have resumed := @induction later (rest.dropWhile (·.tier = tier))
                      (restSorted.sublist (List.dropWhile_sublist _)) remaining (some tier)
                      (fun rule member same => ((mem_dropWhile_tier restSorted front rule).mp
                        member).2 (Option.some.inj same).symm)
                    simp only [bestTier]
                    rw [decideFrom_dropWhile, resumed]
                    simp [decideTiers, listed, sameVerdict, verdict]
                | allow =>
                    have collected := @decideFrom_some rest packet.port defaultAllow passed
                      (fun rule member => holds rule (List.mem_cons_of_mem _ member)) restSorted
                      (fun rule member => fresh rule (List.mem_cons_of_mem _ member)) best
                      ((∅ : BTreeSet U16).insert best.proxyPort) before
                    have ports := proxyPorts_eq bestTier members wins
                    simp only [collected, ports, decideTiers, listed, sameVerdict, verdict]

end Agreement

/-! ## The compiled index -/

theorem sorted_candidates (rules : List Rule) (bucket : Bucket) :
    Sorted (candidates rules bucket) := by
  have total : Std.Total fun left right : Rule => compareRules left right ≠ .gt := by
    constructor
    intro left right
    have swapped : compareRules right left = (compareRules left right).swap :=
      Std.OrientedCmp.eq_swap
    rw [swapped]
    cases compareRules left right <;> decide
  have trans : IsTrans Rule fun left right => compareRules left right ≠ .gt := by
    constructor
    intro left middle right first second
    have chained : (compareRules left right).isLE :=
      Std.TransCmp.isLE_trans (Ordering.isLE_iff_ne_gt.mpr first)
        (Ordering.isLE_iff_ne_gt.mpr second)
    exact Ordering.isLE_iff_ne_gt.mp chained
  exact List.pairwise_insertionSort _ _

theorem mem_candidates {bucket : Bucket} :
    rule ∈ candidates rules bucket ↔ rule ∈ rules ∧ bucket.holds rule := by
  simp [candidates]

theorem sorted_edges (ordered : List Rule) : (edges ordered).Pairwise (· < ·) := by
  have sorted := Std.ExtTreeSet.ordered_toList (t := collect (0 :: 65536 :: ordered.flatMap bounds))
  exact sorted.imp fun less => Nat.compare_eq_lt.mp less

theorem mem_edges {edge : Nat} : edge ∈ edges ordered ↔
    edge = 0 ∨ edge = 65536 ∨ ∃ rule ∈ ordered, edge ∈ bounds rule := by
  simp [edges]

theorem edge_le {edge : Nat} (member : edge ∈ edges ordered) : edge ≤ 65536 := by
  rcases mem_edges.mp member with zero | last | ⟨rule, _, isBound⟩
  · omega
  · omega
  · have start := rule.ports.start.isLt
    have finish := rule.ports.finish.isLt
    simp only [bounds, List.mem_cons, List.not_mem_nil, or_false] at isBound
    omega

/-- What a port is decided to, as a function of numbers. -/
def decision (ordered : List Rule) (defaultAllow : Bool) (number : Nat) : Decision :=
  decideAt ordered (BitVec.ofNat 16 number) defaultAllow

theorem contains_ofNat_iff {range : PortRange} {number : Nat} (small : number < 65536) :
    range.contains (BitVec.ofNat 16 number) ↔
      range.start.toNat ≤ number ∧ number ≤ range.finish.toNat := by
  have value : (BitVec.ofNat 16 number).toNat = number := by
    rw [BitVec.toNat_ofNat]
    exact Nat.mod_eq_of_lt small
  simp [PortRange.contains, BitVec.le_def, value]

theorem constantBetween_edges (ordered : List Rule) (defaultAllow : Bool) :
    ConstantBetween (edges ordered) (decision ordered defaultAllow) := by
  intro lower point order last apart
  have small : point < 65536 := by
    rcases last with ⟨edge, member, before⟩
    exact Nat.lt_of_lt_of_le before (edge_le member)
  apply decideFrom_congr
  intro rule member
  rw [Bool.eq_iff_iff, contains_ofNat_iff small, contains_ofNat_iff (by omega)]
  have start := apart rule.ports.start.toNat
    (mem_edges.mpr (.inr (.inr ⟨rule, member, by simp [bounds]⟩)))
  have finish := apart (rule.ports.finish.toNat + 1)
    (mem_edges.mpr (.inr (.inr ⟨rule, member, by simp [bounds]⟩)))
  omega

theorem intervals_eq (ordered : List Rule) (defaultAllow : Bool) :
    intervals ordered defaultAllow =
      .ok (steps (edges ordered) (decision ordered defaultAllow)) := by
  apply Checked.foldlM_eq_foldl
  intro found window member
  rcases lt_of_mem_windows (sorted_edges ordered) member with ⟨order, isEdge⟩
  have bound := edge_le isEdge
  have first : portOf window.1 = .ok window.1 := if_pos (by omega)
  have last : portOf (window.2 - 1) = .ok (window.2 - 1) := if_pos (by omega)
  rw [first, last]
  rfl

theorem find_intervals (ordered : List Rule) (defaultAllow : Bool) (port : U16) :
    find (steps (edges ordered) (decision ordered defaultAllow)) port.toNat =
      some (decideAt ordered port defaultAllow) := by
  have found := find_steps (constantBetween_edges ordered defaultAllow) (sorted_edges ordered)
    (mem_edges.mpr (.inl rfl)) (mem_edges.mpr (.inr (.inl rfl))) (Nat.zero_le port.toNat) port.isLt
  rw [found, decision, BitVec.ofNat_toNat, BitVec.setWidth_eq]

def index (rules : List Rule) (defaultAllow : Bool) : MapState where
  buckets := insertAll ∅ ((bucketKeys rules).map fun bucket =>
    (bucket, steps (edges (candidates rules bucket))
      (decision (candidates rules bucket) defaultAllow)))
  identities := peerIdentities rules
  protocols := ruleProtocols rules

theorem compileWithDefault_eq (rules : List Rule) (defaultAllow : Bool) :
    compileWithDefault rules defaultAllow = do
      validateSubject rules
      if rules.any (·.authentication.isSome) then .error .oracleAuthenticationUnsupported
      return index rules defaultAllow := by
  have pairs : ((bucketKeys rules).mapM fun bucket => do
      let found ← intervals (candidates rules bucket) defaultAllow
      return (bucket, found)) = .ok ((bucketKeys rules).map fun bucket =>
        (bucket, steps (edges (candidates rules bucket))
          (decision (candidates rules bucket) defaultAllow))) := by
    apply Checked.mapM_eq_map
    intro bucket _
    rw [intervals_eq]
    rfl
  unfold compileWithDefault
  simp only [pairs]
  rfl

theorem mem_peerIdentities {id : U32} :
    id ∈ peerIdentities rules ↔ ∃ rule ∈ rules, rule.peer = .identity id := by
  simp only [peerIdentities, mem_collect, List.mem_filterMap]
  constructor
  · intro found
    rcases found with ⟨rule, member, named⟩
    cases peer : rule.peer with
    | any => simp [peer] at named
    | identity other =>
        have same : other = id := by simpa [peer] using named
        exact ⟨rule, member, by rw [peer, same]⟩
  · intro found
    rcases found with ⟨rule, member, named⟩
    exact ⟨rule, member, by rw [named]⟩

theorem mem_ruleProtocols {protocol : U8} :
    protocol ∈ ruleProtocols rules ↔
      protocol ≠ Abi.anyProtocol ∧ ∃ rule ∈ rules, rule.protocol = protocol := by
  simp [ruleProtocols, and_comm]

section Lookup

variable (rules : List Rule) (defaultAllow : Bool) (packet : Packet)

theorem bucketOf_mem_bucketKeys :
    (index rules defaultAllow).bucketOf packet ∈ bucketKeys rules := by
  have named : ∀ {κ : Type} [Ord κ] [Std.TransOrd κ] [Std.LawfulEqOrd κ] (set : BTreeSet κ)
      (element : κ), (if set.contains element then some element else none) ∈
        (none :: set.toList.map some : List (Option κ)) := by
    intro κ _ _ _ set element
    split_ifs with held
    · exact List.mem_cons_of_mem _ (List.mem_map_of_mem (Std.ExtTreeSet.mem_toList.mpr held))
    · exact List.mem_cons_self ..
  unfold bucketKeys
  rw [List.mem_flatMap]
  refine ⟨_, named (peerIdentities rules) packet.identity, ?_⟩
  rw [List.mem_flatMap]
  refine ⟨packet.egress, by cases packet.egress <;> simp, ?_⟩
  rw [List.mem_map]
  exact ⟨_, named (ruleProtocols rules) packet.protocol, rfl⟩

theorem holds_bucketOf {rule : Rule} (isRule : rule ∈ rules) :
    (((index rules defaultAllow).bucketOf packet).holds rule &&
      rule.ports.contains packet.port) = rule.matches packet := by
  have ofPeer : (match rule.peer with
      | .any => true
      | .identity id => decide (((index rules defaultAllow).bucketOf packet).identity = some id)) =
      (rule.peer = .any || rule.peer = .identity packet.identity) := by
    cases peer : rule.peer with
    | any => simp
    | identity id =>
        have known : id ∈ peerIdentities rules := mem_peerIdentities.mpr ⟨rule, isRule, peer⟩
        by_cases same : id = packet.identity
        · subst same
          simp [bucketOf, index, known]
        · have different : ¬packet.identity = id := fun equal => same equal.symm
          by_cases held : packet.identity ∈ peerIdentities rules
          · simp [bucketOf, index, held, same, different]
          · simp [bucketOf, index, held, same]
  have ofProtocol : (rule.protocol = Abi.anyProtocol ||
      ((index rules defaultAllow).bucketOf packet).protocol = some rule.protocol) =
      (rule.protocol = Abi.anyProtocol || rule.protocol = packet.protocol) := by
    by_cases any : rule.protocol = Abi.anyProtocol
    · simp [any]
    · have known : rule.protocol ∈ ruleProtocols rules :=
        mem_ruleProtocols.mpr ⟨any, rule, isRule, rfl⟩
      by_cases same : rule.protocol = packet.protocol
      · rw [same] at known
        simp [bucketOf, index, known, same]
      · have different : ¬packet.protocol = rule.protocol := fun equal => same equal.symm
        by_cases held : packet.protocol ∈ ruleProtocols rules
        · simp [bucketOf, index, held, same, different]
        · simp [bucketOf, index, held, same]
  unfold Bucket.holds Rule.matches
  rw [ofPeer, ofProtocol]
  rfl

theorem lookup_index :
    (index rules defaultAllow).lookup packet =
      decideAt (candidates rules ((index rules defaultAllow).bucketOf packet)) packet.port
        defaultAllow := by
  generalize bucketEq : (index rules defaultAllow).bucketOf packet = bucket
  have isKey : bucket ∈ bucketKeys rules := bucketEq ▸ bucketOf_mem_bucketKeys ..
  have found : (index rules defaultAllow).buckets[bucket]? =
      some (steps (edges (candidates rules bucket))
        (decision (candidates rules bucket) defaultAllow)) := by
    apply getElem?_insertAll_of_mem
    · exact List.mem_map.mpr ⟨bucket, isKey, rfl⟩
    · intro other member
      rcases List.mem_map.mp member with ⟨key, _, equal⟩
      rcases Prod.mk.inj equal with ⟨rfl, same⟩
      exact same.symm
  unfold lookup
  rw [bucketEq, found]
  simp only [find_intervals, Option.getD_some]

variable {rules}

/-- A lookup decides as the tiers do; the default applies when no rule matches. -/
theorem lookup_index_eq (ranked : ∀ rule ∈ rules, Ranked rule) :
    (index rules defaultAllow).lookup packet =
      if (∀ rule ∈ rules, ¬rule.matches packet) ∧ defaultAllow then .allow (collect [0#16])
      else decideTiers rules packet [.admin, .normal, .baseline, .default] := by
  rw [lookup_index, decideAt, decideFrom_filter]
  generalize orderedEq : (candidates rules ((index rules defaultAllow).bucketOf packet)).filter
    (·.ports.contains packet.port) = ordered
  have members : Listed rules packet [.admin, .normal, .baseline, .default] ordered := by
    intro rule
    have everyTier : rule.tier ∈ [Tier.admin, .normal, .baseline, .default] := by
      cases rule.tier <;> decide
    rw [← orderedEq, List.mem_filter, mem_candidates]
    constructor
    · intro member
      refine ⟨member.1.1, ?_, everyTier⟩
      rw [← holds_bucketOf rules defaultAllow packet member.1.1, member.1.2, member.2]
      rfl
    · intro member
      have both := member.2.1
      rw [← holds_bucketOf rules defaultAllow packet member.1, Bool.and_eq_true] at both
      exact ⟨⟨member.1, both.1⟩, both.2⟩
  have sorted : Sorted ordered := by
    rw [← orderedEq]
    exact (sorted_candidates rules _).filter _
  rw [decideFrom_eq_decideTiers ranked (by decide) sorted members (by simp)]
  have empty : ordered = [] ↔ ∀ rule ∈ rules, ¬rule.matches packet := by
    rw [List.eq_nil_iff_forall_not_mem]
    constructor
    · intro none rule isRule matching
      exact none rule ((members rule).mpr ⟨isRule, matching, by cases rule.tier <;> decide⟩)
    · intro none rule member
      exact none rule ((members rule).mp member).1 ((members rule).mp member).2.1
  simp [empty]

end Lookup

/-- Looking a packet up in the compiled rules answers what the brute-force evaluation
answers, errors included. -/
theorem lookup_compile_eq_evaluate (rules : List Rule) (packet : Packet) :
    (compile rules).map (·.lookup packet) = Oracle.evaluate rules packet := by
  rw [compile, compileWithDefault_eq]
  unfold Oracle.evaluate
  cases valid : validateSubject rules with
  | error error => rfl
  | ok _ =>
      cases authentication : rules.any (·.authentication.isSome) with
      | true => rfl
      | false =>
          have looked := lookup_index_eq false packet (ranked_of_validateSubject valid)
          simp only [Bool.false_eq_true, and_false, if_false] at looked
          rw [← looked]
          rfl

end MapState

end FlowSdn.Policy
