import FlowSdn.Foundation.FiniteMap
import FlowSdn.Lb.Maglev
import Mathlib.Data.Int.CardIntervalMod

/-! # Shares of a Maglev table

Backends of equal weight take entries in turn, so each has its share of the table up to one
entry, and since they are ordered by their texts first, the table is that of the set of
backends.
-/

namespace FlowSdn.Lb.Maglev

open OrderedMap

variable {size count : Nat} {weight : U16} {backends : List Backend}
  {sorted : List (String × Backend)} {others : List Backend}

theorem permutation_eq (supported : size ∈ sizes) (backend : Backend) (seed : U32) (count : Nat) :
    permutation backend size seed = .ok ((List.range size).map fun next =>
      permutationSlot (startWork count size seed (backend.hashString, backend)).offset
        (startWork count size seed (backend.hashString, backend)).skip next size) := by
  have large := (prime_of_mem_sizes supported).two_le
  have rest : size - 1 ≠ 0 := by omega
  have whole : size ≠ 0 := by omega
  unfold permutation checkedRem
  simp only [supported, not_true_eq_false, if_false, whole, rest]
  rfl

theorem perm_range_of_prime {offset skip : Nat} (prime : size.Prime) (positive : 1 ≤ skip)
    (below : skip < size) :
    ((List.range size).map fun next => permutationSlot offset skip next size).Perm
      (List.range size) := by
  have covers : List.range size ⊆
      (List.range size).map fun next => permutationSlot offset skip next size := by
    intro slot member
    rcases @exists_permutationSlot_eq size prime offset skip 0 slot positive below
      (List.mem_range.mp member) with ⟨step, within, lands⟩
    rw [Nat.zero_add] at lands
    exact List.mem_map.mpr ⟨step, List.mem_range.mpr within, lands⟩
  refine ((List.nodup_range.subperm covers).perm_of_length_le ?_).symm
  simp

theorem permutation_perm (supported : size ∈ sizes) (backend : Backend) (seed : U32) :
    ∃ slots, permutation backend size seed = .ok slots ∧ slots.Perm (List.range size) := by
  have prime := prime_of_mem_sizes supported
  have bounds := startWork_skip 0 prime.one_lt seed (backend.hashString, backend)
  exact ⟨_, permutation_eq supported backend seed 0, perm_range_of_prime prime bounds.1 bounds.2⟩

/-! ## Turns -/

def turns (count index round : Nat) : Nat :=
  Nat.count (fun earlier => earlier % count = index) round

theorem turns_succ (count index round : Nat) :
    turns count index (round + 1) = turns count index round +
      if round % count = index then 1 else 0 := by
  rw [turns, Nat.count_succ]
  rfl

theorem turns_eq {index : Nat} (within : index < count) (round : Nat) :
    turns count index round = round / count + if index < round % count then 1 else 0 := by
  have positive : 0 < count := Nat.zero_lt_of_lt within
  have counted := Nat.count_modEq_card round positive index
  rw [Nat.mod_eq_of_lt within] at counted
  rw [← counted, turns]
  congr 1
  funext earlier
  rw [Nat.ModEq, Nat.mod_eq_of_lt within]

/-- The share of an index is the table's size divided, rounded down or up. -/
theorem turns_share {index : Nat} (within : index < count) (size : Nat) :
    turns count index size = size / count ∨
      turns count index size = (size + count - 1) / count := by
  rw [turns_eq within]
  split
  · rename_i some
    right
    have split := Nat.div_add_mod size count
    have bound := Nat.mod_lt size (Nat.zero_lt_of_lt within)
    have least : (size % count - 1) / count = 0 := Nat.div_eq_of_lt (by omega)
    have whole : size + count - 1 = size % count - 1 + count * (size / count + 1) := by
      rw [Nat.mul_add]
      omega
    rw [whole, Nat.add_mul_div_left _ _ (Nat.zero_lt_of_lt within), least, Nat.zero_add]
  · left
    rfl

theorem not_passed_over {round weight : Nat} {walk : Work} (nonempty : 0 < count)
    (same : walk.weight = weight) (served : walk.counter ≤
      (weight : ℚ) / count + turns count (round % count) round * (weight * count)) :
    ¬(round + 1) * walk.weight < ⌊walk.counter⌋.toNat := by
  have earlier : turns count (round % count) round = round / count := by
    rw [turns_eq (Nat.mod_lt _ nonempty), if_neg (Nat.lt_irrefl _)]
    rfl
  have first : (weight : ℚ) / count ≤ weight :=
    div_le_self (Nat.cast_nonneg weight) (by exact_mod_cast nonempty)
  have laps : ((round / count : Nat) : ℚ) * (weight * count) ≤ round * weight := by
    have whole : round / count * count ≤ round := Nat.div_mul_le_self round count
    have cast : ((round / count : Nat) : ℚ) * count ≤ round := by exact_mod_cast whole
    calc ((round / count : Nat) : ℚ) * (weight * count)
        = (round / count : Nat) * count * weight := by ring
      _ ≤ round * weight := mul_le_mul_of_nonneg_right cast (Nat.cast_nonneg weight)
  have bound : walk.counter ≤ (((round + 1) * weight : Nat) : ℚ) := by
    rw [earlier] at served
    push_cast
    linarith
  have floors := (Int.floor_mono bound).trans_eq (Int.floor_natCast ((round + 1) * weight))
  rw [same]
  omega

/-! ## Rounds -/

/-- After some rounds every walk has had its turns: it has that many entries, and its counter
has not run ahead. -/
structure Filling.Shared (filling : Filling) (ids : List U32) (weight size round : Nat) :
    Prop where
  steady : filling.Steady ids.length size round
  named : filling.work.map (·.id) = ids
  served : ∀ index id, ids[index]? = some id →
    filling.entries.count (some id) = turns ids.length index round
  counters : ∀ index walk, filling.work[index]? = some walk → walk.weight = weight ∧
    walk.counter ≤
      (weight : ℚ) / ids.length + turns ids.length index round * (weight * ids.length)

theorem shared_startFilling (large : 1 < size) (seed : U32)
    (equal : ∀ named ∈ sorted, named.2.weight = weight) :
    (startFilling sorted size seed).Shared (sorted.map (·.2.id)) weight.toNat size 0 where
  steady := by
    rw [List.length_map]
    exact steady_startFilling sorted large seed
  named := by simp [startFilling, startWork, Function.comp_def]
  served := by
    intro index id _
    rw [turns, Nat.count_zero, List.count_eq_zero]
    intro member
    cases List.eq_of_mem_replicate member
  counters := by
    intro index walk found
    simp only [startFilling, List.getElem?_map, Option.map_eq_some_iff] at found
    rcases found with ⟨named, member, made⟩
    have same := equal named (List.mem_of_getElem? member)
    rw [← made]
    simp [startWork, same, turns]

section Rounds

variable {filling : Filling} {ids : List U32} {weight size round : Nat} {weighted : Bool}

section

variable (shared : filling.Shared ids weight size round) (distinct : ids.Nodup)

include shared distinct

theorem Filling.Shared.take {walk : Work} {slot next : Nat}
    (found : filling.work[round % ids.length]? = some walk)
    (free : filling.entries[slot]? = some none) :
    (filling.take weighted (weight * ids.length) (round % ids.length) walk slot next).Shared ids
      weight size (round + 1) where
  steady := shared.steady.take _ (List.mem_of_getElem? found) free _ _
  named := by
    have own : (filling.work.map (·.id))[round % ids.length]? = some walk.id := by
      rw [List.getElem?_map, found]
      rfl
    rcases List.getElem?_eq_some_iff.mp own with ⟨within, isId⟩
    have unchanged := List.set_getElem_self within
    rw [isId] at unchanged
    rw [Filling.take, List.map_set]
    exact unchanged.trans shared.named
  served := by
    intro index id isId
    rcases List.getElem?_eq_some_iff.mp free with ⟨within, isFree⟩
    have own : ids[round % ids.length]? = some walk.id := by
      have mapped := congrArg (Option.map Work.id) found
      rw [← List.getElem?_map, shared.named] at mapped
      exact mapped
    have turnsIff : walk.id = id ↔ round % ids.length = index := by
      rw [← (List.getElem?_inj (List.getElem?_eq_some_iff.mp own).1 distinct), own, isId,
        Option.some.injEq]
    rw [turns_succ, ← shared.served index id isId, Filling.take, List.count_set within, isFree]
    simp [turnsIff]
  counters := by
    intro index other isOther
    rw [Filling.take, List.getElem?_set] at isOther
    rw [turns_succ]
    split at isOther
    · rename_i same
      split at isOther
      · cases isOther
        rcases shared.counters _ walk found with ⟨weighs, bound⟩
        refine ⟨weighs, ?_⟩
        rw [same] at bound
        rw [if_pos same]
        have more : (0 : ℚ) ≤ weight * ids.length := by positivity
        cases weighted with
        | false =>
            change walk.counter ≤ _
            push_cast
            linarith
        | true =>
            change walk.counter + ((weight * ids.length : Nat) : ℚ) ≤ _
            push_cast
            linarith
      · cases isOther
    · rename_i different
      rw [if_neg different]
      exact shared.counters index other isOther

theorem Filling.Shared.fillOne (prime : size.Prime) (nonempty : 0 < ids.length)
    (remaining : round < size) :
    ∃ filled, Maglev.fillOne weighted (weight * ids.length) filling round = some filled ∧
      filled.Shared ids weight size (round + 1) := by
  have ready : ∀ walk, filling.work[round % ids.length]? = some walk →
      ¬(weighted = true ∧ (round + 1) * walk.weight < ⌊walk.counter⌋.toNat) := by
    intro walk found both
    rcases shared.counters _ walk found with ⟨same, bound⟩
    exact not_passed_over nonempty same bound both.2
  rcases shared.steady.fillOne (weight * ids.length) prime nonempty remaining ready with
    ⟨walk, slot, next, found, free, filled⟩
  exact ⟨_, filled, shared.take distinct found free⟩

theorem Filling.Shared.foldlM (prime : size.Prime) (nonempty : 0 < ids.length) {rounds : Nat}
    (within : round + rounds ≤ size) :
    ∃ filled, (List.range' round rounds).foldlM
        (Maglev.fillOne weighted (weight * ids.length)) filling = some filled ∧
      filled.Shared ids weight size (round + rounds) := by
  induction rounds generalizing filling round with
  | zero => exact ⟨filling, rfl, shared⟩
  | succ rounds induction =>
      rcases shared.fillOne distinct prime nonempty (by omega) with
        ⟨next, filled, nextShared⟩
      rcases induction nextShared (by omega) with ⟨final, rest, finalShared⟩
      refine ⟨final, ?_, ?_⟩
      · rw [List.range'_succ, List.foldlM_cons, filled]
        exact rest
      · rw [show round + (rounds + 1) = round + 1 + rounds by omega]
        exact finalShared

end

end Rounds

/-! ## Sorted backends -/

structure Valid (backends : List Backend) : Prop where
  protocols : ∀ backend ∈ backends, backend.protocol ∈ ["TCP", "UDP", "SCTP"]
  ids : (backends.map (·.id)).Nodup
  texts : (backends.map Backend.hashString).Nodup

theorem Valid.perm (valid : Valid backends) (same : others.Perm backends) : Valid others where
  protocols := fun backend member => valid.protocols backend (same.mem_iff.mp member)
  ids := (same.map _).nodup_iff.mpr valid.ids
  texts := (same.map _).nodup_iff.mpr valid.texts

theorem exists_checkBackends {ids : BTreeSet U32}
    (protocols : ∀ backend ∈ backends, backend.protocol ∈ ["TCP", "UDP", "SCTP"])
    (weights : ∀ backend ∈ backends, backend.weight ≠ 0)
    (distinct : (backends.map (·.id)).Nodup) (fresh : ∀ backend ∈ backends, backend.id ∉ ids) :
    ∃ all, backends.foldlM checkBackend ids = .ok all := by
  induction backends generalizing ids with
  | nil => exact ⟨ids, rfl⟩
  | cons backend backends induction =>
      rw [List.map_cons, List.nodup_cons] at distinct
      have checked : checkBackend ids backend = .ok (ids.insert backend.id) := by
        refine if_neg ?_
        rintro (weight | protocol | known)
        · exact weights backend List.mem_cons_self weight
        · exact protocol (protocols backend List.mem_cons_self)
        · exact fresh backend List.mem_cons_self (Std.ExtTreeSet.mem_iff_contains.mpr known)
      rw [List.foldlM_cons, checked]
      apply induction (fun other member => protocols other (List.mem_cons_of_mem _ member))
        (fun other member => weights other (List.mem_cons_of_mem _ member)) distinct.2
      intro other member known
      rcases mem_set_insert_iff.mp known with same | earlier
      · exact distinct.1 (List.mem_map.mpr ⟨other, member, same.symm⟩)
      · exact fresh other (List.mem_cons_of_mem _ member) earlier

theorem fresh_of_empty (backends : List Backend) :
    ∀ backend ∈ backends, backend.id ∉ (∅ : BTreeSet U32) := by
  simp

theorem perm_sortedByText (backends : List Backend) :
    (sortedByText backends).Perm (backends.map fun backend => (backend.hashString, backend)) :=
  List.perm_insertionSort _ _

theorem sorted_sortedByText (backends : List Backend) :
    (sortedByText backends).Pairwise fun left right => left.1 ≤ right.1 := by
  have : Std.Total fun left right : String × Backend => left.1 ≤ right.1 :=
    ⟨fun left right => le_total left.1 right.1⟩
  have : IsTrans (String × Backend) fun left right => left.1 ≤ right.1 :=
    ⟨fun _ _ _ => le_trans⟩
  exact List.pairwise_insertionSort _ _

theorem texts_sortedByText (valid : Valid backends) :
    ((sortedByText backends).map Prod.fst).Nodup := by
  rw [((perm_sortedByText backends).map Prod.fst).nodup_iff, List.map_map]
  exact valid.texts

theorem not_hasRepeat (valid : Valid backends) : hasRepeat (sortedByText backends) = false := by
  rw [hasRepeat, List.any_eq_false]
  intro pair member
  rcases List.mem_iff_getElem?.mp member with ⟨index, found⟩
  rw [List.getElem?_zip_eq_some] at found
  rcases found with ⟨first, second⟩
  rw [List.getElem?_tail] at second
  intro same
  have texts : ((sortedByText backends).map Prod.fst)[index]? =
      ((sortedByText backends).map Prod.fst)[index + 1]? := by
    rw [List.getElem?_map, List.getElem?_map, first, second]
    exact congrArg some (of_decide_eq_true same)
  have within : index < ((sortedByText backends).map Prod.fst).length := by
    rw [List.length_map]
    exact (List.getElem?_eq_some_iff.mp first).1
  exact absurd ((List.getElem?_inj within (texts_sortedByText valid)).mp texts) (by omega)

theorem sortedByText_perm (valid : Valid backends) (same : others.Perm backends) :
    sortedByText others = sortedByText backends := by
  refine List.Perm.eq_of_pairwise ?_ (sorted_sortedByText others) (sorted_sortedByText backends)
    ((perm_sortedByText others).trans ((same.map _).trans (perm_sortedByText backends).symm))
  intro left right isLeft isRight below above
  have inBackends : left ∈ backends.map fun backend => (backend.hashString, backend) :=
    (same.map _).mem_iff.mp ((perm_sortedByText others).mem_iff.mp isLeft)
  rcases List.mem_map.mp inBackends with ⟨first, isFirst, rfl⟩
  rcases List.mem_map.mp ((perm_sortedByText backends).mem_iff.mp isRight) with
    ⟨second, isSecond, rfl⟩
  have equal := List.inj_on_of_nodup_map valid.texts isFirst isSecond (le_antisymm below above)
  rw [equal]

theorem table_of_valid (valid : Valid backends) (nonempty : backends ≠ [])
    (fits : backends.length ≤ 65535) (weights : ∀ backend ∈ backends, backend.weight ≠ 0)
    (supported : size ∈ sizes) (seed : U32) :
    table backends size seed = (fill (sortedByText backends) size seed).map fun filling =>
      collectEntries filling.entries := by
  rcases exists_checkBackends valid.protocols weights valid.ids (fresh_of_empty backends) with
    ⟨all, checked⟩
  have sizes : ¬(size ∉ sizes ∨ backends.length > 65535) := by
    rintro (unsupported | long)
    · exact unsupported supported
    · omega
  rw [table, if_neg sizes, List.isEmpty_eq_false_iff.mpr nonempty, checked]
  simp [not_hasRepeat valid]

theorem collectEntries_map_some (ids : List U32) : collectEntries (ids.map some) = .ok ids := by
  rw [collectEntries, Checked.mapM_eq_ok, List.forall₂_map_left_iff, List.forall₂_same]
  intro id _
  rfl

theorem exists_eq_map_some {entries : List (Option U32)} (full : none ∉ entries) :
    ∃ ids : List U32, entries = ids.map some := by
  refine ⟨entries.reduceOption, ?_⟩
  induction entries with
  | nil => rfl
  | cons entry entries induction =>
      rw [List.mem_cons, not_or] at full
      cases entry with
      | none => exact absurd rfl full.1
      | some id =>
          rw [List.reduceOption_cons_of_some, List.map_cons, ← induction full.2]

/-- Backends of equal weight fill the table, and each has its share. -/
theorem fill_of_equal_weights (nonempty : sorted ≠ []) (distinct : (sorted.map (·.2.id)).Nodup)
    (equal : ∀ named ∈ sorted, named.2.weight = weight) (supported : size ∈ sizes) (seed : U32) :
    ∃ filling, fill sorted size seed = some filling ∧
      filling.Shared (sorted.map (·.2.id)) weight.toNat size size := by
  have prime := prime_of_mem_sizes supported
  have sum : weightSum sorted = weight.toNat * (sorted.map (·.2.id)).length := by
    have same : sorted.map (fun named => named.2.weight.toNat) = sorted.map fun _ => weight.toNat :=
      List.map_congr_left fun named member => by rw [equal named member]
    rw [weightSum, same]
    simp [Nat.mul_comm]
  have positive : 0 < (sorted.map (·.2.id)).length := by
    rw [List.length_map]
    exact List.length_pos_iff.mpr nonempty
  rcases (shared_startFilling prime.one_lt seed equal).foldlM distinct prime positive
    (Nat.le_of_eq (Nat.zero_add size)) with ⟨filling, filled, shared⟩
  rw [Nat.zero_add] at shared
  refine ⟨filling, ?_, shared⟩
  rw [fill, sum, List.range_eq_range']
  exact filled

/-- The table of at most 65535 backends of equal weight, whatever their order: it is made, is
full, holds the backends and gives each its share, rounded down or up; and what a backend
tries is a permutation of the table. -/
theorem table_fair {backends : List Backend} (valid : Valid backends) (nonempty : backends ≠ [])
    (fits : backends.length ≤ 65535) (weight : U16) (positive : weight ≠ 0)
    (equal : ∀ backend ∈ backends, backend.weight = weight) (size : Nat)
    (supported : size ∈ sizes) (seed : U32) :
    ∃ entries, table backends size seed = some (.ok entries) ∧ entries.length = size ∧
      (∀ id ∈ entries, ∃ backend ∈ backends, backend.id = id) ∧
      (∀ backend ∈ backends, entries.count backend.id = size / backends.length ∨
        entries.count backend.id = (size + backends.length - 1) / backends.length) ∧
      (∀ others, others.Perm backends → table others size seed = some (.ok entries)) ∧
      ∀ backend ∈ backends, ∃ slots, permutation backend size seed = .ok slots ∧
        slots.Perm (List.range size) := by
  have weights : ∀ backend ∈ backends, backend.weight ≠ 0 := by
    intro backend member
    rw [equal backend member]
    exact positive
  have ids : ((sortedByText backends).map (·.2.id)).Perm (backends.map (·.id)) := by
    have mapped := (perm_sortedByText backends).map fun named => named.2.id
    rwa [List.map_map] at mapped
  have length := ids.length_eq
  rw [List.length_map, List.length_map] at length
  have sortedEqual : ∀ named ∈ sortedByText backends, named.2.weight = weight := by
    intro named member
    rcases List.mem_map.mp ((perm_sortedByText backends).mem_iff.mp member) with
      ⟨backend, isBackend, rfl⟩
    exact equal backend isBackend
  have sortedNonempty : sortedByText backends ≠ [] := by
    rw [← List.length_pos_iff, length]
    exact List.length_pos_iff.mpr nonempty
  rcases fill_of_equal_weights sortedNonempty (ids.nodup_iff.mpr valid.ids) sortedEqual supported
    seed with ⟨filling, filled, shared⟩
  have full : none ∉ filling.entries := by
    have taken := shared.steady.taken
    exact List.count_eq_zero.mp (by omega)
  rcases exists_eq_map_some full with ⟨entries, isEntries⟩
  have made : table backends size seed = some (.ok entries) := by
    rw [table_of_valid valid nonempty fits weights supported, filled, Option.map_some, isEntries,
      collectEntries_map_some]
  refine ⟨entries, made, ?_, fun id member => mem_of_mem_table made member, ?_, ?_, ?_⟩
  · have long := shared.steady.length
    rwa [isEntries, List.length_map] at long
  · intro backend member
    have inIds : backend.id ∈ (sortedByText backends).map (·.2.id) :=
      ids.mem_iff.mpr (List.mem_map_of_mem member)
    rcases List.mem_iff_getElem?.mp inIds with ⟨index, found⟩
    have within := (List.getElem?_eq_some_iff.mp found).1
    have served := shared.served index backend.id found
    rw [isEntries, List.count_map_of_injective _ _ (Option.some_injective U32)] at served
    rw [served, ← length, ← List.length_map (f := fun named : String × Backend => named.2.id)]
    exact turns_share within size
  · intro others same
    have otherWeights : ∀ backend ∈ others, backend.weight ≠ 0 :=
      fun backend member => weights backend (same.mem_iff.mp member)
    have otherNonempty : others ≠ [] := by
      rintro rfl
      exact nonempty same.symm.eq_nil
    rw [table_of_valid (valid.perm same) otherNonempty (same.length_eq ▸ fits) otherWeights
      supported, sortedByText_perm valid same, ← table_of_valid valid nonempty fits weights
      supported, made]
  · intro backend _
    exact permutation_perm supported backend seed

def numbered (number : Nat) (weight : U16) : Backend where
  id := BitVec.ofNat 32 number
  address := .v4 0x0a000001
  port := BitVec.ofNat 16 number
  protocol := "TCP"
  cluster := 0
  internal := false
  weight

/-- Three backends of weight 2 share a table of 251 entries. -/
theorem threeBackends_share : ∃ entries,
    table [numbered 80 2, numbered 81 2, numbered 82 2] 251 0 = some (.ok entries) ∧
      entries.length = 251 ∧ (entries.count 80#32 = 83 ∨ entries.count 80#32 = 84) := by
  have valid : Valid [numbered 80 2, numbered 81 2, numbered 82 2] :=
    ⟨by decide, by decide, by decide +kernel⟩
  rcases table_fair valid (by decide) (by decide) 2 (by decide) (by decide) 251 (by decide) 0 with
    ⟨entries, made, long, _, shares, _⟩
  exact ⟨entries, made, long, shares (numbered 80 2) (by decide)⟩

theorem hashString_numbered_injective {first second : Nat} (small : first < 65536)
    (otherSmall : second < 65536)
    (same : (numbered first weight).hashString = (numbered second weight).hashString) :
    first = second := by
  simp only [Backend.hashString, numbered, ne_eq, not_true_eq_false, if_false, Bool.false_eq_true,
    String.append_assoc, String.append_right_inj] at same
  simp only [← String.append_assoc, String.append_left_inj] at same
  have ports := Nat.repr_inj.mp same
  simp only [BitVec.toNat_ofNat] at ports
  omega

def everyPort : List Backend := (List.range 65536).map fun number => numbered number 1

/-- A table of 131071 entries is refused to 65536 backends. -/
theorem everyPort_refused :
    131071 ∈ sizes ∧ everyPort ≠ [] ∧ everyPort.length ≤ 131071 ∧ Valid everyPort ∧
      (∀ backend ∈ everyPort, backend.weight = 1) ∧
      table everyPort 131071 0 = some (.error "invalid Maglev size") := by
  have length : everyPort.length = 65536 := by
    rw [everyPort, List.length_map, List.length_range]
  refine ⟨by decide, ?_, by omega, ⟨?_, ?_, ?_⟩, ?_, ?_⟩
  · rw [← List.length_pos_iff]
    omega
  · intro backend member
    rcases List.mem_map.mp member with ⟨number, _, rfl⟩
    exact List.mem_cons_self
  · rw [everyPort, List.map_map]
    refine List.nodup_range.map_on ?_
    intro first isFirst second isSecond same
    rw [List.mem_range] at isFirst isSecond
    have equal := congrArg BitVec.toNat same
    simp only [Function.comp_apply, numbered, BitVec.toNat_ofNat] at equal
    omega
  · rw [everyPort, List.map_map]
    refine List.nodup_range.map_on ?_
    intro first isFirst second isSecond same
    exact hashString_numbered_injective (List.mem_range.mp isFirst) (List.mem_range.mp isSecond)
      same
  · intro backend member
    rcases List.mem_map.mp member with ⟨number, _, rfl⟩
    rfl
  · rw [table, if_pos (.inr (by omega))]

end FlowSdn.Lb.Maglev
