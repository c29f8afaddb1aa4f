import FlowSdn.Foundation.Staged
import FlowSdn.Lb.Socket

/-! # The maps as cells, the plan as staged writes

Every entry of the seven maps is a cell, and a plan writes each cell at most
once: upserts before removals, and within them in the order that keeps what a
lookup follows in place.
-/

namespace FlowSdn.Lb

open Abi OrderedMap Staged

inductive Cell
  | backend4 (id : U32)
  | backend6 (id : U32)
  | service4 (key : Lb4Key)
  | service6 (key : Lb6Key)
  | affinity (key : LbAffinityMatch)
  | maglev4 (id : U16)
  | maglev6 (id : U16)
  deriving DecidableEq

@[reducible] def Cell.Content : Cell → Type
  | backend4 _ => Lb4Backend
  | backend6 _ => Lb6Backend
  | service4 _ => LbService
  | service6 _ => LbService
  | affinity _ => Unit
  | maglev4 _ => List U32
  | maglev6 _ => List U32

def Maps.read (maps : Maps) : Store Cell.Content
  | .backend4 id => maps.backends4[id]?
  | .backend6 id => maps.backends6[id]?
  | .service4 key => maps.services4[key]?
  | .service6 key => maps.services6[key]?
  | .affinity key => if key ∈ maps.affinityMatch then some () else none
  | .maglev4 id => maps.maglev4[id]?
  | .maglev6 id => maps.maglev6[id]?

def Op.write : Op → Write Cell.Content
  | .backend4 id value => ⟨.backend4 id, some value⟩
  | .backend6 id value => ⟨.backend6 id, some value⟩
  | .service4 key value => ⟨.service4 key, some value⟩
  | .service6 key value => ⟨.service6 key, some value⟩
  | .deleteService4 key => ⟨.service4 key, none⟩
  | .deleteService6 key => ⟨.service6 key, none⟩
  | .deleteBackend4 id => ⟨.backend4 id, none⟩
  | .deleteBackend6 id => ⟨.backend6 id, none⟩
  | .affinityMatch key => ⟨.affinity key, some ()⟩
  | .deleteAffinityMatch key => ⟨.affinity key, none⟩
  | .maglev4 id table => ⟨.maglev4 id, some table⟩
  | .maglev6 id table => ⟨.maglev6 id, some table⟩
  | .deleteMaglev4 id => ⟨.maglev4 id, none⟩
  | .deleteMaglev6 id => ⟨.maglev6 id, none⟩

theorem Maps.ext_read {left right : Maps} (same : left.read = right.read) : left = right := by
  have cell := fun cell => congrFun same cell
  cases left
  cases right
  congr
  · exact Std.ExtTreeMap.ext_getElem? fun key => cell (.service4 key)
  · exact Std.ExtTreeMap.ext_getElem? fun id => cell (.backend4 id)
  · exact Std.ExtTreeMap.ext_getElem? fun key => cell (.service6 key)
  · exact Std.ExtTreeMap.ext_getElem? fun id => cell (.backend6 id)
  · apply Std.ExtTreeSet.ext_mem
    intro key
    have here := cell (.affinity key)
    simp only [Maps.read] at here
    split at here <;> split at here <;> simp_all
  · exact Std.ExtTreeMap.ext_getElem? fun id => cell (.maglev4 id)
  · exact Std.ExtTreeMap.ext_getElem? fun id => cell (.maglev6 id)

theorem Maps.read_applyOp (maps : Maps) (op : Op) :
    (maps.applyOp op).read = put maps.read op.write := by
  funext cell
  by_cases same : cell = op.write.cell
  · subst same
    rw [put_self]
    cases op <;> simp [Maps.applyOp, Maps.read, Op.write]
  · rw [put_of_ne same]
    cases op <;> cases cell <;> first
      | rfl
      | exact getElem?_insert_of_ne fun equal => same (by rw [equal]; rfl)
      | exact getElem?_erase_of_ne fun equal => same (by rw [equal]; rfl)
      | skip
    all_goals
      simp only [Op.write, Cell.affinity.injEq] at same
      simp [Maps.applyOp, Maps.read, Ne.symm same]

theorem Maps.read_apply (maps : Maps) (ops : List Op) :
    (maps.apply ops).read = run maps.read (ops.map Op.write) := by
  induction ops generalizing maps with
  | nil => rfl
  | cons op ops induction =>
      rw [List.map_cons, run_cons, ← Maps.read_applyOp]
      exact induction (maps.applyOp op)

/-! ## Stages -/

/-- When the plan writes a cell that the desired contents hold. -/
def Cell.upsertStage : Cell → Nat
  | backend4 _ => 0
  | backend6 _ => 1
  | affinity _ => 2
  | maglev4 _ => 3
  | maglev6 _ => 4
  | service4 key => if key.backendSlot = 0#16 then 7 else 5
  | service6 key => if key.backendSlot = 0#16 then 8 else 6

/-- When the plan empties a cell that they lack. -/
def Cell.removalStage : Cell → Nat
  | service4 key => if key.backendSlot = 0#16 then 9 else 11
  | service6 key => if key.backendSlot = 0#16 then 10 else 12
  | maglev4 _ => 13
  | maglev6 _ => 14
  | affinity _ => 15
  | backend4 _ => 16
  | backend6 _ => 17

def stage (desired : Maps) (cell : Cell) : Nat :=
  if (desired.read cell).isSome then cell.upsertStage else cell.removalStage

section Plan

variable {current desired : Maps} {op : Op} {number : Nat} {key : LbKey width}

/-- An op sets its cell to the desired content, in its stage. -/
def Fits (desired : Maps) (number : Nat) (op : Op) : Prop :=
  op.write.value = desired.read op.write.cell ∧ stage desired op.write.cell = number

theorem fits_upsert {value : op.write.cell.Content}
    (held : desired.read op.write.cell = some value) (writes : op.write.value = some value)
    (stages : op.write.cell.upsertStage = number) : Fits desired number op := by
  refine ⟨writes.trans held.symm, ?_⟩
  rw [stage, held]
  exact stages

theorem fits_removal (missing : desired.read op.write.cell = none) (writes : op.write.value = none)
    (stages : op.write.cell.removalStage = number) : Fits desired number op := by
  refine ⟨writes.trans missing.symm, ?_⟩
  rw [stage, missing]
  exact stages

theorem isRound_true (round : isRound true key = true) : key.backendSlot = 0#16 := by
  simpa [isRound] using round

theorem isRound_false (round : isRound false key = true) : key.backendSlot ≠ 0#16 := by
  simpa [isRound] using round

theorem mem_difference [Ord κ] [Std.TransOrd κ] [Std.LawfulEqOrd κ] {left right : BTreeSet κ}
    {key : κ} : key ∈ difference left right ↔ key ∈ left ∧ key ∉ right := by
  simp [difference, ← Bool.not_eq_true]

theorem phases_fit (current desired : Maps) :
    ∀ phase ∈ (phases current desired).zipIdx, ∀ op ∈ phase.1, Fits desired phase.2 op := by
  simp only [phases, List.flatMap_cons, List.flatMap_nil, List.append_nil, List.cons_append,
    List.nil_append, List.zipIdx_cons, List.zipIdx_nil, List.forall_mem_cons,
    List.forall_mem_map, List.not_mem_nil, false_implies, implies_true, and_true,
    List.mem_filter, Nat.zero_add, Nat.reduceAdd]
  refine ⟨?_, ?_, ?_, ?_, ?_, ?_, ?_, ?_, ?_, ?_, ?_, ?_, ?_, ?_, ?_, ?_, ?_, ?_⟩ <;>
    intro item member
  · exact fits_upsert (mem_changed.mp member).1 rfl rfl
  · exact fits_upsert (mem_changed.mp member).1 rfl rfl
  · exact fits_upsert (if_pos (mem_difference.mp member).1) rfl rfl
  · exact fits_upsert (mem_changed.mp member).1 rfl rfl
  · exact fits_upsert (mem_changed.mp member).1 rfl rfl
  · exact fits_upsert (mem_changed.mp member.1).1 rfl (if_neg (isRound_false member.2))
  · exact fits_upsert (mem_changed.mp member.1).1 rfl (if_neg (isRound_false member.2))
  · exact fits_upsert (mem_changed.mp member.1).1 rfl (if_pos (isRound_true member.2))
  · exact fits_upsert (mem_changed.mp member.1).1 rfl (if_pos (isRound_true member.2))
  · exact fits_removal (mem_stale.mp member.1).2 rfl (if_pos (isRound_true member.2))
  · exact fits_removal (mem_stale.mp member.1).2 rfl (if_pos (isRound_true member.2))
  · exact fits_removal (mem_stale.mp member.1).2 rfl (if_neg (isRound_false member.2))
  · exact fits_removal (mem_stale.mp member.1).2 rfl (if_neg (isRound_false member.2))
  · exact fits_removal (mem_stale.mp member).2 rfl rfl
  · exact fits_removal (mem_stale.mp member).2 rfl rfl
  · exact fits_removal (if_neg (mem_difference.mp member).2) rfl rfl
  · exact fits_removal (mem_stale.mp member).2 rfl rfl
  · exact fits_removal (mem_stale.mp member).2 rfl rfl

theorem mem_plan {op : Op} (member : op ∈ plan current desired) :
    ∃ number < 18, ∃ phase, (phases current desired)[number]? = some phase ∧ op ∈ phase ∧
      Fits desired number op := by
  rcases List.mem_flatten.mp member with ⟨phase, isPhase, inside⟩
  rcases List.mem_iff_getElem?.mp isPhase with ⟨number, found⟩
  have below : number < 18 := by
    rcases List.getElem?_eq_some_iff.mp found with ⟨within, _⟩
    exact within
  refine ⟨number, below, phase, found, inside, ?_⟩
  exact phases_fit current desired (phase, number)
    (List.mem_zipIdx_iff_getElem?.mpr found) op inside

theorem phases_staged (current desired : Maps) :
    (phases current desired).Pairwise fun earlier later => ∀ op ∈ earlier, ∀ other ∈ later,
      stage desired op.write.cell < stage desired other.write.cell := by
  have fits : ∀ number phase, (phases current desired)[number]? = some phase →
      ∀ op ∈ phase, stage desired op.write.cell = number := fun number phase found op inside =>
    (phases_fit current desired (phase, number)
      (List.mem_zipIdx_iff_getElem?.mpr found) op inside).2
  rw [List.pairwise_iff_getElem]
  intro earlier later earlierWithin laterWithin order first inFirst second inSecond
  rw [fits earlier _ (List.getElem?_eq_getElem earlierWithin) first inFirst,
    fits later _ (List.getElem?_eq_getElem laterWithin) second inSecond]
  exact order

theorem plan_ordered (current desired : Maps) :
    ((plan current desired).map Op.write).Pairwise fun first second =>
      stage desired first.cell ≤ stage desired second.cell := by
  rw [List.pairwise_map, plan, List.pairwise_flatten]
  constructor
  · intro phase isPhase
    rcases List.mem_iff_getElem?.mp isPhase with ⟨number, found⟩
    have fits := phases_fit current desired (phase, number) (List.mem_zipIdx_iff_getElem?.mpr found)
    apply List.pairwise_of_forall_mem_list
    intro first inFirst second inSecond
    rw [(fits first inFirst).2, (fits second inSecond).2]
  · exact (phases_staged current desired).imp fun staged first inFirst second inSecond =>
      (staged first inFirst second inSecond).le

section Phases

variable {items : List α} {item : α} {ops : α → Op} {cell : Cell}

theorem exists_op_of_phase (number : Nat)
    (found : (phases current desired)[number]? = some (items.map ops)) (member : item ∈ items)
    (same : (ops item).write.cell = cell) : ∃ op ∈ plan current desired, op.write.cell = cell :=
  ⟨ops item, List.mem_flatten.mpr ⟨_, List.mem_of_getElem? found, List.mem_map_of_mem member⟩, same⟩

/-- The services are gone through twice: the masters and the slots. -/
theorem exists_op_of_rounds {key : α → LbKey width} (slots masters : Nat)
    (slotPhase : (phases current desired)[slots]? =
      some ((items.filter (isRound false <| key ·)).map ops))
    (masterPhase : (phases current desired)[masters]? =
      some ((items.filter (isRound true <| key ·)).map ops))
    (member : item ∈ items) (same : (ops item).write.cell = cell) :
    ∃ op ∈ plan current desired, op.write.cell = cell := by
  by_cases master : (key item).backendSlot = 0#16
  · exact exists_op_of_phase masters masterPhase
      (List.mem_filter.mpr ⟨member, by simp [isRound, master]⟩) same
  · exact exists_op_of_phase slots slotPhase
      (List.mem_filter.mpr ⟨member, by simp [isRound, master]⟩) same

end Phases

theorem changed_or_stale [Ord κ] [Std.TransOrd κ] [Std.LawfulEqOrd κ] [DecidableEq ν]
    {current desired : BTreeMap κ ν} {key : κ} (different : current[key]? ≠ desired[key]?) :
    (∃ value, (key, value) ∈ changed current desired) ∨ key ∈ stale current desired := by
  cases wanted : desired[key]? with
  | some value =>
      exact .inl ⟨value, mem_changed.mpr ⟨wanted, fun held => different (held.trans wanted.symm)⟩⟩
  | none =>
      exact .inr (mem_stale.mpr ⟨fun missing => different (missing.trans wanted.symm), wanted⟩)

theorem exists_op_of_ne (cell : Cell) (different : current.read cell ≠ desired.read cell) :
    ∃ op ∈ plan current desired, op.write.cell = cell := by
  cases cell with
  | backend4 id =>
      rcases changed_or_stale different with ⟨value, isChanged⟩ | isStale
      · exact exists_op_of_phase 0 rfl isChanged rfl
      · exact exists_op_of_phase 16 rfl isStale rfl
  | backend6 id =>
      rcases changed_or_stale different with ⟨value, isChanged⟩ | isStale
      · exact exists_op_of_phase 1 rfl isChanged rfl
      · exact exists_op_of_phase 17 rfl isStale rfl
  | maglev4 id =>
      rcases changed_or_stale different with ⟨table, isChanged⟩ | isStale
      · exact exists_op_of_phase 3 rfl isChanged rfl
      · exact exists_op_of_phase 13 rfl isStale rfl
  | maglev6 id =>
      rcases changed_or_stale different with ⟨table, isChanged⟩ | isStale
      · exact exists_op_of_phase 4 rfl isChanged rfl
      · exact exists_op_of_phase 14 rfl isStale rfl
  | affinity key =>
      by_cases wanted : key ∈ desired.affinityMatch
      · have isNew : key ∈ difference desired.affinityMatch current.affinityMatch :=
          mem_difference.mpr ⟨wanted, fun held => different (by simp [Maps.read, wanted, held])⟩
        exact exists_op_of_phase 2 rfl isNew rfl
      · have held : key ∈ current.affinityMatch := by
          by_contra missing
          exact different (by simp [Maps.read, wanted, missing])
        exact exists_op_of_phase 15 rfl (mem_difference.mpr ⟨held, wanted⟩) rfl
  | service4 key =>
      rcases changed_or_stale different with ⟨value, isChanged⟩ | isStale
      · exact exists_op_of_rounds 5 7 rfl rfl isChanged rfl
      · exact exists_op_of_rounds 11 9 rfl rfl isStale rfl
  | service6 key =>
      rcases changed_or_stale different with ⟨value, isChanged⟩ | isStale
      · exact exists_op_of_rounds 6 8 rfl rfl isChanged rfl
      · exact exists_op_of_rounds 12 10 rfl rfl isStale rfl

theorem plan_reaches (current desired : Maps) :
    Reaches current.read desired.read ((plan current desired).map Op.write) where
  aims := by
    intro write member
    rcases List.mem_map.mp member with ⟨op, inPlan, equal⟩
    rcases mem_plan inPlan with ⟨_, _, _, _, _, fits⟩
    rw [← equal]
    exact fits.1
  complete := by
    intro cell different
    rcases exists_op_of_ne cell different with ⟨op, inPlan, same⟩
    exact ⟨op.write, List.mem_map_of_mem inPlan, same⟩

theorem apply_plan (current desired : Maps) : current.apply (plan current desired) = desired := by
  apply Maps.ext_read
  rw [Maps.read_apply]
  exact run_of_reaches (plan_reaches current desired)

theorem between_plan_take (current desired : Maps) (count : Nat) :
    ∃ cut, Between (stage desired) current.read desired.read
      (current.apply ((plan current desired).take count)).read cut := by
  rw [Maps.read_apply, List.map_take]
  have bounded : ∀ write ∈ (plan current desired).map Op.write,
      stage desired write.cell < 18 := by
    intro write member
    rcases List.mem_map.mp member with ⟨op, inPlan, equal⟩
    rcases mem_plan inPlan with ⟨number, below, _, _, _, fits⟩
    rw [← equal, fits.2]
    exact below
  exact between_take (plan_reaches current desired) bounded (plan_ordered current desired) count

/-! ## No write too many -/

section Apart

variable [Ord κ] [Std.TransOrd κ]

theorem ne_of_compare {left right : κ} (different : compare left right ≠ .eq) : left ≠ right := by
  rintro rfl
  exact different Std.ReflCmp.compare_self

theorem apart_changed [DecidableEq ν] (current desired : BTreeMap κ ν) :
    (changed current desired).Pairwise fun left right => left.1 ≠ right.1 :=
  (Std.ExtTreeMap.distinct_keys_toList.imp ne_of_compare).filter _

theorem apart_stale (current desired : BTreeMap κ ν) :
    (stale current desired).Pairwise (· ≠ ·) := Std.ExtTreeMap.nodup_keys.filter _

end Apart

theorem phases_change (current desired : Maps) : ∀ phase ∈ phases current desired,
    (∀ op ∈ phase, current.read op.write.cell ≠ op.write.value) ∧
      phase.Pairwise fun op other => op.write.cell ≠ other.write.cell := by
  simp only [phases, List.flatMap_cons, List.flatMap_nil, List.append_nil, List.cons_append,
    List.nil_append, List.forall_mem_cons, List.forall_mem_map, List.not_mem_nil, false_implies,
    implies_true, and_true, List.pairwise_map]
  refine ⟨?_, ?_, ?_, ?_, ?_, ?_, ?_, ?_, ?_, ?_, ?_, ?_, ?_, ?_, ?_, ?_, ?_, ?_⟩ <;>
    refine ⟨fun item member => ?_, ?_⟩
  all_goals first
    | exact (mem_changed.mp member).2
    | exact (mem_stale.mp member).1
    | exact (mem_changed.mp (List.mem_of_mem_filter member)).2
    | exact (mem_stale.mp (List.mem_of_mem_filter member)).1
    | exact (apart_changed _ _).imp fun different same => different (by injection same)
    | exact (apart_stale _ _).imp fun different same => different (by injection same)
    | exact ((apart_changed _ _).filter _).imp fun different same => different (by injection same)
    | exact ((apart_stale _ _).filter _).imp fun different same => different (by injection same)
    | simp [Maps.read, Op.write, mem_difference.mp member]

/-- A plan writes exactly the cells that differ, each of them once, and no other list of writes
that leads to the desired maps is shorter. -/
theorem plan_fewest (current desired : Maps) :
    ((plan current desired).map (·.write.cell)).Nodup ∧
      (∀ cell, cell ∈ (plan current desired).map (·.write.cell) ↔
        current.read cell ≠ desired.read cell) ∧
      ∀ ops, current.apply ops = desired → (plan current desired).length ≤ ops.length := by
  have once : ((plan current desired).map (·.write.cell)).Nodup := by
    rw [List.Nodup, List.pairwise_map, plan, List.pairwise_flatten]
    refine ⟨fun phase isPhase => (phases_change current desired phase isPhase).2, ?_⟩
    refine (phases_staged current desired).imp fun staged op inFirst other inSecond same => ?_
    exact absurd (staged op inFirst other inSecond) (by rw [same]; exact Nat.lt_irrefl _)
  have differs : ∀ cell, cell ∈ (plan current desired).map (·.write.cell) ↔
      current.read cell ≠ desired.read cell := by
    intro cell
    constructor
    · intro member
      rcases List.mem_map.mp member with ⟨op, inPlan, rfl⟩
      rcases List.mem_flatten.mp inPlan with ⟨phase, isPhase, inside⟩
      rcases mem_plan inPlan with ⟨_, _, _, _, _, fits⟩
      rw [← fits.1]
      exact (phases_change current desired phase isPhase).1 op inside
    · intro different
      rcases exists_op_of_ne cell different with ⟨op, inPlan, same⟩
      exact List.mem_map.mpr ⟨op, inPlan, same⟩
  refine ⟨once, differs, fun ops leads => ?_⟩
  have inside : (plan current desired).map (·.write.cell) ⊆ ops.map (·.write.cell) := by
    intro cell member
    by_contra absent
    refine (differs cell).mp member ?_
    rw [← leads, Maps.read_apply]
    refine (run_of_not_mem fun write isWrite same => ?_).symm
    rcases List.mem_map.mp isWrite with ⟨op, isOp, rfl⟩
    exact absent (List.mem_map.mpr ⟨op, isOp, same⟩)
  have shorter := once.length_le_of_subset inside
  rwa [List.length_map, List.length_map] at shorter

end Plan

end FlowSdn.Lb
