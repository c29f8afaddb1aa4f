import FlowSdn.Reconcile.Moves

/-! # What was attempted and what was applied

A change that the reconciler was given has been tried at the target, has been written over, or is
still to be tried, beyond the published checkpoint. A row whose status is done is what the target
was last given under its key, or has been written over.
-/

namespace FlowSdn.Reconcile

open OrderedMap Tables Concurrent

section Attempts

variable {Row : Type} [Keyed Row]

/-- The target was asked, or there is nothing to ask any more. -/
def Handled (system : System Row) (key : Key) (revision : Nat) : Prop :=
  Called system.log key revision ∨ Superseded system.history key revision

variable {after before : System Row} {change : Change Row} {work : Work Row}

omit [Keyed Row] in
theorem Handled.mono {key : Key} {revision : Nat}
    (handled : Handled before key revision) (log : ∀ event ∈ before.log, event ∈ after.log)
    (history : ∀ mutation ∈ before.history, mutation ∈ after.history) :
    Handled after key revision := by
  rcases handled with ⟨work, called, isWork⟩ | ⟨mutation, noted, later⟩
  · exact .inl ⟨work, log _ called, isWork⟩
  · exact .inr ⟨mutation, history _ noted, later⟩

/-- A change is a first attempt in the queue. -/
def Queued (pending : List (Work Row)) (work : Work Row) : Prop :=
  ∃ other ∈ pending, other.firstAttempt = true ∧ other.key = work.key ∧
    other.revision = work.revision

/-- What was delivered is traced: up to the checkpoint it was handled. -/
structure Tried (system : System Row) : Prop where
  traced : ∀ change ∈ system.deliveries, ∀ work, workOf change = some work →
    Handled system work.key work.revision ∨ Queued system.self.pending work ∨ change ∈ system.hand
  queued : ∀ work ∈ system.self.pending, work.firstAttempt = true →
    work.revision ≤ system.self.attemptedRevision → Handled system work.key work.revision
  held : ∀ change ∈ system.hand, ∀ work, workOf change = some work →
    work.revision ≤ system.self.attemptedRevision → Handled system work.key work.revision

theorem Tried.handled {system : System Row} (tried : Tried system)
    (delivered : change ∈ system.deliveries) (isWork : workOf change = some work)
    (reached : work.revision ≤ system.self.attemptedRevision) :
    Handled system work.key work.revision := by
  rcases tried.traced change delivered work isWork with
    handled | ⟨other, member, first, same⟩ | inHand
  · exact handled
  · have handled := tried.queued other member first (by rw [same.2]; exact reached)
    rwa [same.1, same.2] at handled
  · exact tried.held change inHand work isWork reached

theorem Tried.grow (tried : Tried before) (log : ∀ event ∈ before.log, event ∈ after.log)
    (history : ∀ mutation ∈ before.history, mutation ∈ after.history)
    (deliveries : after.deliveries = before.deliveries) (hand : after.hand = before.hand)
    (pending : after.self.pending.Perm before.self.pending)
    (attempted : after.self.attemptedRevision = before.self.attemptedRevision) : Tried after := by
  refine ⟨?_, ?_, ?_⟩
  · intro change delivered work isWork
    rw [deliveries] at delivered
    rcases tried.traced change delivered work isWork with handled | ⟨other, member, first⟩ | inHand
    · exact .inl (handled.mono log history)
    · exact .inr (.inl ⟨other, pending.mem_iff.mpr member, first⟩)
    · exact .inr (.inr (hand ▸ inHand))
  · intro work member first reached
    rw [attempted] at reached
    exact (tried.queued work (pending.mem_iff.mp member) first reached).mono log history
  · intro change inHand work isWork reached
    rw [hand] at inHand
    rw [attempted] at reached
    exact (tried.held change inHand work isWork reached).mono log history

theorem Tried.others (tried : Tried before) (others : Others before after) : Tried after := by
  rcases others with ⟨self, hand, deliveries, log, ⟨mutations, history, _⟩, _⟩
  refine tried.grow ?_ ?_ deliveries hand (self ▸ .refl _) (by rw [self])
  · exact fun event member => log ▸ member
  · intro mutation member
    rw [history]
    exact List.mem_append_left _ member

theorem revision_of_workOf (isWork : workOf change = some work) :
    change.stamp = some work.revision ∧ work.firstAttempt = true := by
  cases change with
  | insert row revision =>
      cases isWork
      exact ⟨rfl, rfl⟩
  | delete key revision =>
      cases isWork
      exact ⟨rfl, rfl⟩
  | resync revision => cases isWork

section Moves

variable {terms : Terms} {system : System Row} (tried : Tried system)

include tried

theorem Tried.drain (grounded : Grounded system) (max now : Nat)
    (idle : system.self.pending = []) : Tried (system.drained max now) := by
  have delivery := Table.drain_delivery grounded.stream grounded.chronicle grounded.buried max now
  refine ⟨?_, ?_, ?_⟩
  · intro change delivered work isWork
    rcases List.mem_append.mp delivered with old | new
    · rcases tried.traced change old work isWork with handled | queued | inHand
      · exact .inl handled
      · exact .inr (.inl queued)
      · exact .inr (.inr (List.mem_append_left _ inHand))
    · exact .inr (.inr (List.mem_append_right _ new))
  · intro work member
    exact absurd (idle ▸ member : work ∈ []) List.not_mem_nil
  · intro change member work isWork reached
    rcases List.mem_append.mp member with old | new
    · exact tried.held change old work isWork reached
    · have again := delivery.repeated change new work.revision (revision_of_workOf isWork).1
        (reached.trans grounded.attempted_le)
      exact tried.handled again isWork reached

theorem Tried.takeIn : Tried system.tookIn := by
  have enqueued := Reconciler.enqueued_takeIn system.self system.hand
  have pending : system.tookIn.self.pending =
      system.self.pending ++ Reconciler.changeWorks system.hand := enqueued.pending
  have attempted : system.tookIn.self.attemptedRevision = system.self.attemptedRevision :=
    enqueued.attemptedRevision
  refine ⟨?_, ?_, List.forall_mem_nil _⟩
  · intro change delivered work isWork
    rw [pending]
    rcases tried.traced change delivered work isWork with handled | ⟨other, member, first⟩ | inHand
    · exact .inl handled
    · exact .inr (.inl ⟨other, List.mem_append_left _ member, first⟩)
    · refine .inr (.inl ⟨work, List.mem_append_right _ ?_, (revision_of_workOf isWork).2, rfl, rfl⟩)
      exact Reconciler.mem_changeWorks.mpr ⟨change, inHand, isWork⟩
  · intro work member first reached
    rw [attempted] at reached
    rw [pending] at member
    rcases List.mem_append.mp member with old | new
    · exact tried.queued work old first reached
    · rcases Reconciler.mem_changeWorks.mp new with ⟨change, inHand, isWork⟩
      exact tried.held change inHand work isWork reached

theorem Tried.publish (grounded : Grounded system) (empty : system.hand = []) :
    Tried (system.amended (·.publishProgress)) := by
  refine ⟨tried.traced, ?_, ?_⟩
  · intro work member first reached
    exact tried.queued work member first
      (Reconciler.not_reached_of_publishProgress grounded.counted member first reached)
  · intro change member
    exact absurd (empty ▸ member : change ∈ []) List.not_mem_nil

theorem Tried.push {work : Work Row} (again : work.firstAttempt = false) :
    Tried (system.amended (·.pushWork work)) := by
  refine ⟨?_, ?_, tried.held⟩
  · intro change delivered other isWork
    rcases tried.traced change delivered other isWork with
      handled | ⟨queued, member, first⟩ | inHand
    · exact .inl handled
    · exact .inr (.inl ⟨queued, List.mem_append_left _ member, first⟩)
    · exact .inr (.inr inHand)
  · intro other member first reached
    rcases List.mem_append.mp member with old | new
    · exact tried.queued other old first reached
    · rw [List.mem_singleton.mp new, again] at first
      cases first

theorem Tried.pop {work : Work Row} {rest : List (Work Row)}
    (first : system.self.pending = work :: rest) (handled : Handled system work.key work.revision) :
    Tried (system.amended (·.popWork)) := by
  have left : (system.amended (·.popWork)).self.pending = rest := by
    simp [System.amended, first]
  have attempted : (system.amended (·.popWork)).self.attemptedRevision =
      system.self.attemptedRevision := system.self.attemptedRevision_popWork
  refine ⟨?_, ?_, ?_⟩
  · intro change delivered other isWork
    rw [left]
    rcases tried.traced change delivered other isWork with done | ⟨queued, member, isFirst⟩ | inHand
    · exact .inl done
    · rw [first] at member
      rcases List.mem_cons.mp member with rfl | member
      · refine .inl ?_
        rw [← isFirst.2.1, ← isFirst.2.2]
        exact handled
      · exact .inr (.inl ⟨queued, member, isFirst⟩)
    · exact .inr (.inr inHand)
  · intro other member isFirst reached
    rw [left] at member
    rw [attempted] at reached
    refine tried.queued other ?_ isFirst reached
    rw [first]
    exact .tail _ member
  · intro change member other isWork reached
    rw [attempted] at reached
    exact tried.held change member other isWork reached

theorem Tried.move (grounded : Grounded system) {after : System Row}
    (moved : Move terms system after) : Tried after := by
  have same : ∀ {next : System Row}, next.log = system.log → next.history = system.history →
      next.deliveries = system.deliveries → next.hand = system.hand →
      next.self.pending = system.self.pending →
      next.self.attemptedRevision = system.self.attemptedRevision → Tried next := by
    intro next log history deliveries hand pending attempted
    exact tried.grow (fun _ member => log ▸ member) (fun _ member => history ▸ member) deliveries
      hand (pending ▸ .refl _) attempted
  cases moved with
  | look => exact tried
  | drain max now idle _ => exact tried.drain grounded max now idle
  | enqueue idle => exact tried.takeIn.publish (grounded.takeIn idle) rfl
  | ack revision now => exact same rfl rfl rfl rfl rfl rfl
  | request pruneRequested => exact same rfl rfl rfl rfl rfl rfl
  | publish empty => exact tried.publish grounded empty
  | refresh next genuine => exact same rfl rfl rfl rfl rfl rfl
  | prune next resyncRequired => exact same rfl rfl rfl rfl rfl rfl
  | retry key retry work found mutation again genuine _ =>
      have taken : Tried (system.amended (·.takeRetry key)) := same rfl rfl rfl rfl rfl rfl
      exact taken.push again
  | abandon key => exact same rfl rfl rfl rfl rfl rfl
  | revisit work genuine again _ _ _ =>
      refine tried.push ?_
      rw [Work.firstAttempt, again, Bool.not_true, Bool.and_false]
  | discard work rest first settled =>
      have dropped : Tried (system.amended (·.dropStatus work.key)) := same rfl rfl rfl rfl rfl rfl
      exact dropped.pop first settled.symm
  | announce works => exact same rfl rfl rfl rfl rfl rfl
  | attempt works took _ _ _ =>
      exact tried.grow (fun _ member => List.mem_append_right _ member) (fun _ member => member) rfl
        rfl (.refl _) rfl
  | record work rest result now round after first settled succeeded recorded =>
      have fields := recorded_recordResult recorded
      have kept : Tried (system.amended fun _ => after.1) :=
        same rfl rfl rfl rfl fields.pending fields.attemptedRevision
      exact kept.pop (fields.pending.trans first) settled.symm
  | prune_target desired absent =>
      exact tried.grow (fun _ member => .tail _ member) (fun _ member => member) rfl rfl
        (.refl _) rfl
  | sort =>
      exact tried.grow (fun _ member => member) (fun _ member => member) rfl rfl
        (List.perm_insertionSort _ _) rfl

end Moves

theorem progress_le_of_move {terms : Terms}
    (grounded : Grounded before) (moved : Move terms before after) :
    before.self.progress.attemptedRevision ≤ after.self.progress.attemptedRevision := by
  have published : ∀ self : Reconciler Row,
      self.progress.attemptedRevision ≤ self.attemptedRevision →
      self.progress.attemptedRevision ≤ self.publishProgress.progress.attemptedRevision :=
    fun self within => within.trans (Nat.le_max_left _ _)
  cases moved with
  | enqueue idle =>
      have enqueued := Reconciler.enqueued_takeIn before.self before.hand
      have within := published (before.self.takeIn before.hand) (grounded.takeIn idle).progress_le
      rw [enqueued.progress] at within
      exact within
  | publish _ => exact published before.self grounded.progress_le
  | discard work rest first settled =>
      exact (congrArg ReconcileProgress.attemptedRevision
        (before.self.dropStatus work.key).progress_popWork).ge
  | record work rest result now round after first settled succeeded recorded =>
      have fields := recorded_recordResult recorded
      exact (congrArg ReconcileProgress.attemptedRevision
        (after.1.progress_popWork.trans fields.progress)).ge
  | _ => exact Nat.le_refl _

end Attempts

section Applied

variable {Row : Type} [Keyed Row]

/-- The target was last given a row under its key. -/
def Standing (system : System Row) (key : Key) (revision : Nat) : Prop :=
  ∃ event, lastOn key system.log = some (.done event) ∧ event.mutation = ⟨key, revision, false⟩ ∧
    event.Genuine system.history system.published

/-- A row whose status is done stands at the target or has been written over. -/
def Applied (system : System Row) : Prop :=
  ∀ key revision, IsDone system.self.statuses key revision →
    Superseded system.history key revision ∨ Standing system key revision

variable {after before : System Row}

theorem Applied.fewer (applied : Applied before)
    (log : after.log = before.log) (history : after.history = before.history)
    (published : after.published = before.published)
    (fewer : ∀ key revision, IsDone after.self.statuses key revision →
      IsDone before.self.statuses key revision) : Applied after := by
  intro key revision done
  unfold Standing
  rw [log, history, published]
  exact applied key revision (fewer key revision done)

theorem Applied.others (grounded : Grounded before)
    (applied : Applied before) (others : Others before after) : Applied after := by
  rcases others with ⟨self, hand, deliveries, log, ⟨mutations, history, steps⟩, _⟩
  intro key revision done
  rw [self] at done
  unfold Standing
  rw [log, history]
  rcases applied key revision done with superseded | ⟨event, last, isMutation, genuine⟩
  · exact .inl (superseded.append _)
  · exact .inr ⟨event, last, isMutation, genuine.steps grounded.chronicle steps⟩

omit [Keyed Row] in
theorem lastOn_attempted {system : System Row} {works took : List (Work Row)} {key : Key}
    (subset : ∀ work ∈ took, work ∈ works) (other : ∀ work ∈ works, work.key ≠ key) :
    lastOn key (system.attempted works took).log = lastOn key system.log := by
  have untouched : ∀ event ∈ (took.map Event.done).reverse ++ (works.map Event.called).reverse,
      ¬Event.touches key event = true := by
    intro event member
    rcases List.mem_append.mp member with member | member
    · rcases List.mem_map.mp (List.mem_reverse.mp member) with ⟨work, isWork, rfl⟩
      simpa [Event.touches] using other work (subset work isWork)
    · rcases List.mem_map.mp (List.mem_reverse.mp member) with ⟨work, _, rfl⟩
      exact Bool.false_ne_true
  unfold lastOn System.attempted
  rw [List.find?_append, List.find?_eq_none.mpr untouched, Option.none_or]

theorem Applied.move {terms : Terms} (applied : Applied before)
    (moved : Move terms before after) : Applied after := by
  cases moved with
  | drain max now _ _ =>
      exact applied.fewer rfl rfl (Table.published_drain max now) fun _ _ done => done
  | enqueue idle =>
      refine applied.fewer rfl rfl rfl fun key revision done => ?_
      rcases (Reconciler.enqueued_takeIn before.self before.hand).statuses with same | empty
      · exact same ▸ done
      · rcases done with ⟨status, held, _⟩
        rw [System.enqueued, Reconciler.enqueueChanges_eq] at held
        change (before.self.takeIn before.hand).statuses[key]? = some status at held
        rw [empty] at held
        cases held.symm.trans Std.ExtTreeMap.getElem?_empty
  | abandon key =>
      exact applied.fewer rfl rfl rfl fun other revision done => (isDone_erase done).2
  | discard work rest first settled =>
      refine applied.fewer rfl rfl rfl fun other revision done => ?_
      rw [System.amended, Reconciler.statuses_popWork] at done
      exact (isDone_erase done).2
  | announce works =>
      exact applied.fewer rfl rfl rfl fun key revision done => (isDone_attempt done).1
  | attempt works took subset genuine announced =>
      intro key revision done
      have other : ∀ work ∈ works, work.key ≠ key := by
        rintro work member rfl
        exact announced work member revision done
      unfold Standing
      rw [lastOn_attempted subset other]
      exact applied key revision done
  | record work rest result now round after first settled succeeded recorded =>
      intro key revision done
      rw [System.amended, Reconciler.statuses_popWork] at done
      rcases (recorded_recordResult recorded).done key revision done with
        ⟨_, earlier⟩ | ⟨rfl, rfl, isUpdate, ok⟩
      · exact applied key revision earlier
      · rcases succeeded ok isUpdate with ⟨row, isRow, event, last, same, genuine⟩
        refine .inr ⟨event, last, same.trans ?_, genuine⟩
        rw [Work.mutation, isRow]
        rfl
  | prune_target desired absent =>
      intro key revision done
      cases held : desired.rows[key]? with
      | none => exact .inl (absent key revision held done)
      | some pair =>
          have untouched : lastOn key (before.pruned desired).log = lastOn key before.log := by
            refine List.find?_cons_of_neg ?_
            rw [Event.touches, held]
            exact Bool.false_ne_true
          unfold Standing
          rw [untouched]
          exact applied key revision done
  | _ => exact applied

end Applied

end FlowSdn.Reconcile
