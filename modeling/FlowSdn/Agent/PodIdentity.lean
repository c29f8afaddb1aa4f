import FlowSdn.Agent.View

/-! # Identities of Pods

The labels that make a Pod's identity, under filters with any patterns, and the search for a free
identity number. What a Pod says of itself reaches none of the labels that say where it runs. The
search goes once around the range unless its 32-bit start wraps around: it then goes over some
numbers twice and over others not at all.
-/

namespace FlowSdn.Agent

open OrderedMap Identity

/-! ## What a key has after the labels were added -/

variable {key : String} {labels : Labels} {id start : U32} {used : BTreeSet U32} {remainder : Nat}
  {pair : String × String} {pairs : List (String × String)} {others : Labels}

theorem addLabel_of_ne (other : pair.1 ≠ key) :
    (addLabel labels pair).byKey[key]? = labels.byKey[key]? := by
  unfold addLabel Label.new
  split
  · rename_i label made
    split at made
    · cases made
    · split at made
      · cases made
      · cases made
        exact getElem?_insert_of_ne other
  · rfl

theorem foldl_addLabel_of_not_mem (absent : ∀ pair ∈ pairs, pair.1 ≠ key) :
    (pairs.foldl addLabel labels).byKey[key]? = labels.byKey[key]? := by
  induction pairs generalizing labels with
  | nil => rfl
  | cons pair pairs induction =>
      rw [List.foldl_cons, induction fun other member => absent other (.tail _ member)]
      exact addLabel_of_ne (absent pair (.head _))

theorem addLabel_congr (same : labels.byKey[key]? = others.byKey[key]?) :
    (addLabel labels pair).byKey[key]? = (addLabel others pair).byKey[key]? := by
  unfold addLabel
  split
  · simp only [Labels.insert, Std.ExtTreeMap.getElem?_insert, same]
  · exact same

theorem foldl_addLabel_congr (same : labels.byKey[key]? = others.byKey[key]?) :
    (pairs.foldl addLabel labels).byKey[key]? = (pairs.foldl addLabel others).byKey[key]? := by
  induction pairs generalizing labels others with
  | nil => exact same
  | cons pair pairs induction => exact induction (addLabel_congr same)

theorem addLabel_self (labels others : Labels) (named : key ≠ "") (value : String) :
    (addLabel labels (key, value)).byKey[key]? = (addLabel others (key, value)).byKey[key]? := by
  have made : Label.new source key value = .ok ⟨source, key, value⟩ := by
    simp [Label.new, source, named]
  simp only [addLabel, made, Labels.insert, Std.ExtTreeMap.getElem?_insert_self]

def Keyed (labels : Labels) : Prop :=
  ∀ (key : String) (label : Label), labels.byKey[key]? = some label → label.key = key

theorem keyed_insert (keyed : Keyed labels) (label : Label) : Keyed (labels.insert label) := by
  intro key found held
  rcases getElem?_insert_eq_some_iff.mp held with ⟨same, rfl⟩ | ⟨_, before⟩
  · exact same
  · exact keyed key found before

theorem keyed_foldl (keyed : Keyed labels) (pairs : List (String × String)) :
    Keyed (pairs.foldl addLabel labels) := by
  induction pairs generalizing labels with
  | nil => exact keyed
  | cons pair pairs induction =>
      apply induction
      unfold addLabel
      split
      · exact keyed_insert keyed _
      · exact keyed

theorem byKey_fromIter (labels : List Label) :
    (Labels.fromIter labels).byKey = insertAll ∅ (labels.map fun label => (label.key, label)) := by
  have start : ∀ first : Labels, (labels.foldl Labels.insert first).byKey =
      insertAll first.byKey (labels.map fun label => (label.key, label)) := by
    induction labels with
    | nil => exact fun _ => rfl
    | cons label labels induction => exact fun first => induction (first.insert label)
  exact start {}

theorem getElem?_retained (filter : LabelFilter) (keyed : Keyed labels) (key : String) :
    (filter.retained labels).byKey[key]? = (labels.byKey[key]?).filter filter.retains := by
  have mem_pairs : ∀ label, (key, label) ∈ (labels.iter.filter filter.retains).map
      (fun label => (label.key, label)) ↔
        labels.byKey[key]? = some label ∧ filter.retains label := by
    intro label
    rw [List.mem_map]
    constructor
    · rintro ⟨found, member, same⟩
      rcases Prod.mk.inj same with ⟨rfl, rfl⟩
      rcases List.mem_filter.mp member with ⟨inside, kept⟩
      rcases mem_values.mp inside with ⟨place, held⟩
      have same := keyed place found held
      subst same
      exact ⟨held, kept⟩
    · rintro ⟨held, kept⟩
      exact ⟨label, List.mem_filter.mpr ⟨mem_values.mpr ⟨key, held⟩, kept⟩,
        by rw [keyed key label held]⟩
  apply Option.ext
  intro label
  rw [LabelFilter.retained, byKey_fromIter, Option.filter_eq_some_iff, ← mem_pairs]
  constructor
  · intro found
    rcases getElem?_insertAll_eq_some found with member | ⟨_, empty⟩
    · exact member
    · simp at empty
  · intro member
    refine getElem?_insertAll_of_mem member fun other inside => ?_
    have first := ((mem_pairs label).mp member).1
    rw [((mem_pairs other).mp inside).1] at first
    exact Option.some.inj first

/-- The keys of the labels that say where a Pod runs and under which account: its namespace, and
everything under the agent's own prefix, which the labels of the namespace, the account and the
cluster are. -/
def Assigned (key : String) : Prop := key = podNamespace ∨ Text.startsWith agentPrefix key

theorem foldl_podEntries (inNamespace : String) (labels others : BTreeMap String String)
    (ofNamespace : Option (BTreeMap String String)) (account cluster : String)
    (assigned : Assigned key) :
    ((podEntries inNamespace labels ofNamespace account cluster).foldl addLabel {}).byKey[key]? =
      ((podEntries inNamespace others ofNamespace account cluster).foldl addLabel
        {}).byKey[key]? := by
  simp only [podEntries, List.foldl_append]
  refine foldl_addLabel_congr (foldl_addLabel_congr ?_)
  rcases assigned with rfl | reserved
  · exact addLabel_self _ _ (by decide) inNamespace
  · refine foldl_addLabel_congr (foldl_addLabel_congr ?_)
    have absent : ∀ own : BTreeMap String String,
        ∀ pair ∈ own.toList.filter fun pair => !Text.startsWith agentPrefix pair.1,
          pair.1 ≠ key := by
      rintro own pair member rfl
      simp [reserved] at member
    rw [foldl_addLabel_of_not_mem (absent labels), foldl_addLabel_of_not_mem (absent others)]

/-- Two Pods that differ only in their own labels agree on every label that is not theirs to
set. -/
theorem assigned_labels_agree (inNamespace : String) (labels others : BTreeMap String String)
    (ofNamespace : Option (BTreeMap String String)) (account cluster : String)
    (filter : LabelFilter) (key : String) (assigned : Assigned key) :
    (podLabels inNamespace labels ofNamespace account cluster filter).byKey[key]? =
      (podLabels inNamespace others ofNamespace account cluster filter).byKey[key]? := by
  have keyed : Keyed {} := by
    intro key label held
    simp at held
  rw [podLabels, podLabels, getElem?_retained _ (keyed_foldl keyed _),
    getElem?_retained _ (keyed_foldl keyed _),
    foldl_podEntries inNamespace labels others ofNamespace account cluster assigned]

theorem assigned_labels_agree_spoofed :
    Assigned podNamespace ∧
      (podLabels "shop" {("io.kubernetes.pod.namespace", "kube-system")} none "" "default"
        ⟨[], false, false⟩).byKey[podNamespace]? =
      (podLabels "shop" ∅ none "" "default" ⟨[], false, false⟩).byKey[podNamespace]? :=
  ⟨.inl rfl, assigned_labels_agree "shop" _ _ none "" "default" ⟨[], false, false⟩ podNamespace
    (.inl rfl)⟩

/-! ## Identity numbers -/

def minId : U32 := 256
def maxId : U32 := 65535

def span : U32 := maxId - minId + 1

/-- The number at an offset from the start, which wraps around at 32 bits; none if it leaves
them. -/
def candidate (start : U32) (offset : Nat) : Option U32 :=
  let remainder := (start + BitVec.ofNat 32 offset).toNat % span.toNat
  if minId.toNat + remainder < 2 ^ 32 then some (BitVec.ofNat 32 (minId.toNat + remainder))
  else none

def free (used : BTreeSet U32) (start : U32) : Option U32 :=
  ((List.range span.toNat).filterMap (candidate start)).find? fun id => !used.contains id

def InRange (id : U32) : Prop := minId ≤ id ∧ id ≤ maxId

/-- The search finds an unused number of the range if there is one, and nothing only if all are
used. -/
def Complete (used : BTreeSet U32) (start : U32) : Prop :=
  ((∃ id, InRange id ∧ id ∉ used) → ∃ id, free used start = some id ∧ InRange id ∧ id ∉ used) ∧
    (free used start = none ↔ ∀ id, InRange id → id ∈ used)

theorem span_toNat : span.toNat = 65280 := by decide

theorem candidate_eq (start : U32) (offset : Nat) :
    candidate start offset = some (BitVec.ofNat 32
      (256 + (start.toNat + offset) % 2 ^ 32 % 65280)) := by
  have value : (start + BitVec.ofNat 32 offset).toNat = (start.toNat + offset) % 2 ^ 32 := by
    rw [BitVec.toNat_add, BitVec.toNat_ofNat, Nat.add_mod_mod]
  have least : minId.toNat = 256 := rfl
  unfold candidate
  rw [span_toNat, value, least, if_pos (by omega)]

theorem inRange_iff : InRange id ↔ ∃ remainder < 65280, id = BitVec.ofNat 32 (256 + remainder) := by
  constructor
  · rintro ⟨lower, upper⟩
    have least : 256 ≤ id.toNat := lower
    have most : id.toNat ≤ 65535 := upper
    refine ⟨id.toNat - 256, by omega, ?_⟩
    rw [Nat.add_sub_cancel' least, BitVec.ofNat_toNat, BitVec.setWidth_eq]
  · rintro ⟨remainder, below, rfl⟩
    constructor
    · change 256 ≤ (256 + remainder) % 2 ^ 32
      omega
    · change (256 + remainder) % 2 ^ 32 ≤ 65535
      omega

def Reaches (start : U32) (remainder : Nat) : Prop :=
  ∃ offset < 65280, (start.toNat + offset) % 2 ^ 32 % 65280 = remainder

theorem mem_scan :
    id ∈ (List.range span.toNat).filterMap (candidate start) ↔
      ∃ remainder, Reaches start remainder ∧ id = BitVec.ofNat 32 (256 + remainder) := by
  simp only [List.mem_filterMap, List.mem_range, candidate_eq, span_toNat, Option.some.injEq]
  constructor
  · rintro ⟨offset, inside, rfl⟩
    exact ⟨_, ⟨offset, inside, rfl⟩, rfl⟩
  · rintro ⟨remainder, ⟨offset, inside, rfl⟩, rfl⟩
    exact ⟨offset, inside, rfl⟩

theorem free_sound (found : free used start = some id) : InRange id ∧ id ∉ used := by
  have listed := List.mem_of_find?_eq_some found
  have unused := List.find?_some found
  rcases mem_scan.mp listed with ⟨remainder, ⟨offset, _, rfl⟩, rfl⟩
  refine ⟨inRange_iff.mpr ⟨_, Nat.mod_lt _ (by decide), rfl⟩, fun member => ?_⟩
  rw [Std.ExtTreeSet.mem_iff_contains.mp member] at unused
  cases unused

theorem free_eq_none : free used start = none ↔
    ∀ remainder, Reaches start remainder → BitVec.ofNat 32 (256 + remainder) ∈ used := by
  rw [free, List.find?_eq_none]
  constructor
  · intro all remainder reached
    simpa using all _ (mem_scan.mpr ⟨remainder, reached, rfl⟩)
  · intro all id listed
    rcases mem_scan.mp listed with ⟨remainder, reached, rfl⟩
    simpa using all remainder reached

theorem reaches_of_no_wrap (room : start.toNat + 65280 ≤ 2 ^ 32)
    (below : remainder < 65280) : Reaches start remainder := by
  have split : 65280 * (start.toNat / 65280) + start.toNat % 65280 = start.toNat :=
    Nat.div_add_mod ..
  have small := Nat.mod_lt start.toNat (show 0 < 65280 by decide)
  generalize start.toNat / 65280 = rounds at split
  generalize start.toNat % 65280 = rest at split small
  by_cases later : rest ≤ remainder
  · have sum : start.toNat + (remainder - rest) = 65280 * rounds + remainder := by omega
    refine ⟨remainder - rest, by omega, ?_⟩
    rw [Nat.mod_eq_of_lt (b := 2 ^ 32) (by omega), sum, Nat.mul_add_mod, Nat.mod_eq_of_lt below]
  · have sum : start.toNat + (remainder + 65280 - rest) =
        65280 * (rounds + 1) + remainder := by omega
    refine ⟨remainder + 65280 - rest, by omega, ?_⟩
    rw [Nat.mod_eq_of_lt (b := 2 ^ 32) (by omega), sum, Nat.mul_add_mod, Nat.mod_eq_of_lt below]

/-- A scan that wraps around misses a number: 2 ^ 32 leaves 256 when it is divided by the
range's size, so what is reached after the wrap begins 256 numbers too early. -/
theorem exists_missed (wraps : 2 ^ 32 < start.toNat + 65280) :
    ∃ remainder < 65280, ¬ Reaches start remainder := by
  have bound := start.isLt
  refine ⟨max (65280 - (2 ^ 32 - start.toNat)) 256, by omega, ?_⟩
  rintro ⟨offset, inside, reached⟩
  by_cases before : start.toNat + offset < 2 ^ 32
  · rw [Nat.mod_eq_of_lt before] at reached
    omega
  · have wrapped : (start.toNat + offset) % 2 ^ 32 = start.toNat + offset - 2 ^ 32 := by omega
    rw [wrapped, Nat.mod_eq_of_lt (by omega)] at reached
    omega

theorem complete_of_reaches
    (all : ∀ remainder < 65280, Reaches start remainder) : Complete used start := by
  have none_iff : free used start = none ↔ ∀ id, InRange id → id ∈ used := by
    rw [free_eq_none]
    constructor
    · intro reached id inside
      rcases inRange_iff.mp inside with ⟨remainder, below, rfl⟩
      exact reached remainder (all remainder below)
    · rintro every remainder ⟨offset, _, rfl⟩
      exact every _ (inRange_iff.mpr ⟨_, Nat.mod_lt _ (by decide), rfl⟩)
  refine ⟨fun ⟨id, inside, unused⟩ => ?_, none_iff⟩
  cases found : free used start with
  | none => exact absurd (none_iff.mp found id inside) unused
  | some other => exact ⟨other, rfl, free_sound found⟩

def allBut (remainder : Nat) : BTreeSet U32 :=
  collect (((List.range 65280).filter (· ≠ remainder)).map fun other =>
    BitVec.ofNat 32 (256 + other))

theorem mem_allBut {other : Nat} (below : other < 65280) :
    BitVec.ofNat 32 (256 + other) ∈ allBut remainder ↔ other ≠ remainder := by
  have injective : ∀ number < 65280,
      BitVec.ofNat 32 (256 + number) = BitVec.ofNat 32 (256 + other) → number = other := by
    intro number small same
    have values := congrArg BitVec.toNat same
    rw [BitVec.toNat_ofNat, BitVec.toNat_ofNat] at values
    omega
  rw [allBut, collect, mem_extend]
  simp only [List.mem_map, List.mem_filter, List.mem_range, decide_eq_true_eq]
  constructor
  · rintro (member | ⟨number, ⟨small, different⟩, same⟩)
    · simp at member
    · rwa [← injective number small same]
  · exact fun different => .inr ⟨other, ⟨below, different⟩, rfl⟩

theorem free_allBut (fits : remainder < 65280) (missed : ¬ Reaches start remainder) :
    free (allBut remainder) start = none ∧
      BitVec.ofNat 32 (256 + remainder) ∉ allBut remainder := by
  refine ⟨free_eq_none.mpr ?_, fun member => (mem_allBut fits).mp member rfl⟩
  rintro other reached
  have below : other < 65280 := by
    rcases reached with ⟨offset, _, rfl⟩
    exact Nat.mod_lt _ (by decide)
  refine (mem_allBut below).mpr ?_
  rintro rfl
  exact missed reached

/-- The search is complete for a start exactly if the scan from it does not wrap around. -/
theorem free_complete_iff (start : U32) :
    (∀ used, Complete used start) ↔ start.toNat + span.toNat ≤ 2 ^ 32 := by
  rw [span_toNat]
  constructor
  · intro complete
    by_contra wraps
    rcases exists_missed (Nat.lt_of_not_le wraps) with ⟨remainder, fits, missed⟩
    rcases free_allBut fits missed with ⟨nothing, unused⟩
    exact unused ((complete (allBut remainder)).2.mp nothing _
      (inRange_iff.mpr ⟨remainder, fits, rfl⟩))
  · exact fun room used => complete_of_reaches fun remainder below => reaches_of_no_wrap room below

/-- From the last start the scan never comes to the last number. -/
theorem free_misses_last :
    free (allBut 65279) 0xffffffff = none ∧ InRange 65535 ∧ (65535 : U32) ∉ allBut 65279 := by
  have missed : ¬ Reaches 0xffffffff 65279 := by
    rintro ⟨offset, inside, reached⟩
    change (4294967295 + offset) % 2 ^ 32 % 65280 = 65279 at reached
    cases offset with
    | zero => exact absurd reached (by decide)
    | succ offset =>
        have wrapped : (4294967295 + (offset + 1)) % 2 ^ 32 = offset := by omega
        rw [wrapped, Nat.mod_eq_of_lt (by omega)] at reached
        omega
  rcases free_allBut (by decide) missed with ⟨nothing, unused⟩
  exact ⟨nothing, ⟨by decide, by decide⟩, unused⟩

end FlowSdn.Agent
