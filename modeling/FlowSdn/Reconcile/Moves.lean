import FlowSdn.Reconcile.Program
import FlowSdn.Reconcile.Queue

/-! # What a reconciler may do

Every operation of a round is one of a few moves. The queue, the retries, the statuses and the
candidates for a refresh tell of mutations that were published; every move keeps this, and so does
everything that others do.
-/

namespace FlowSdn.Reconcile

open OrderedMap Tables Concurrent

section Facts

variable {Row : Type} [Keyed Row]

def Called (log : List (Event Row)) (key : Key) (revision : Nat) : Prop :=
  ∃ work, .called work ∈ log ∧ work.key = key ∧ work.revision = revision

/-- The newest event that changed what the target has under a key. -/
def lastOn (key : Key) (log : List (Event Row)) : Option (Event Row) :=
  log.find? (Event.touches key)

def Work.mutation (work : Work Row) : Mutation := ⟨work.key, work.revision, work.row.isNone⟩

/-- A work tells of a mutation that was published, and its row is what the mutation wrote. -/
structure Work.Genuine (history : List Mutation) (version : Version Row) (work : Work Row) :
    Prop where
  noted : work.mutation ∈ history
  keyed : ∀ row, work.row = some row → Keyed.primaryKey row = work.key
  same : ∀ row, work.row = some row → ∀ other,
    version.rows[work.key]? = some (other, work.revision) → other = row

def Retry.mutation (retry : Retry) : Mutation :=
  ⟨retry.key, retry.revision, decide (retry.operation = .delete)⟩

/-- The rows of a pass were published, and so were its candidates, which are refreshes. -/
structure Pass.Genuine (history : List Mutation) (version : Version Row) (pass : Pass Row) :
    Prop where
  rows : ∀ (key : Key) row revision, pass.snapshot.rows[key]? = some (row, revision) →
    Tables.Genuine history version row revision
  candidates : ∀ work ∈ pass.candidates, work.Genuine history version ∧ work.row.isSome ∧
    work.failures = 0 ∧ work.refresh = true

def RefreshState.Genuine (history : List Mutation) (version : Version Row)
    (refresh : RefreshState Row) : Prop :=
  ∀ pass, refresh.pass = some pass → pass.Genuine history version

def IsDone (statuses : BTreeMap Key Status) (key : Key) (revision : Nat) : Prop :=
  ∃ status, statuses[key]? = some status ∧ status.kind = .done ∧ status.id = revision

/-- The reconciler's state tells of what was published. -/
structure Grounded (system : System Row) : Prop where
  chronicle : Chronicle system.history system.published
  buried : system.watched.table.streams.Buried system.history
  stream : system.self.stream.Sound system.history system.published system.deliveries
  unmarked : ∀ revision, .resync revision ∉ system.self.stream.pending
  hand : ∀ change ∈ system.hand,
    change.Genuine system.history system.published ∧ change ∈ system.deliveries
  delivered : ∀ change ∈ system.deliveries, change.Genuine system.history system.published
  queue : ∀ work ∈ system.self.pending, work.Genuine system.history system.published
  retries : ∀ (key : Key) retry, system.self.retries.entries[key]? = some retry →
    retry.key = key ∧ retry.mutation ∈ system.history ∧ 0 < retry.failures
  done : ∀ key revision, IsDone system.self.statuses key revision →
    ⟨key, revision, false⟩ ∈ system.history
  refresh : system.self.refresh.Genuine system.history system.published
  counted : Counted system.self.pendingFirstAttempts system.self.pending
  attempted_le : system.self.attemptedRevision ≤ system.self.stream.delivered
  progress_le : system.self.progress.attemptedRevision ≤ system.self.attemptedRevision

/-- What others do: they write to the table, and leave the reconciler and the target alone. -/
structure Others (before after : System Row) : Prop where
  self : after.self = before.self
  hand : after.hand = before.hand
  deliveries : after.deliveries = before.deliveries
  log : after.log = before.log
  writes : ∃ mutations, after.history = before.history ++ mutations ∧
    before.published.Steps mutations after.published
  buried : before.watched.table.streams.Buried before.history →
    after.watched.table.streams.Buried after.history

/-- A move of the reconciler. Except where it takes changes in, it has none in its hand. -/
inductive Move (terms : Terms) (before : System Row) : System Row → Prop
  | look : Move terms before before
  | drain (max now : Nat) (idle : before.self.pending = [])
      (free : terms.apart = true → before.overlaps max now = false) :
      Move terms before (before.drained max now)
  | enqueue (idle : before.self.pending = []) : Move terms before (before.enqueued before.hand)
  | ack (revision now : Nat) : Move terms before (before.acknowledged revision now)
  | request (pruneRequested : Bool) : Move terms before { before with pruneRequested }
  | publish (empty : before.hand = []) : Move terms before (before.amended (·.publishProgress))
  | refresh (next : RefreshState Row) (genuine : next.Genuine before.history before.published) :
      Move terms before (before.amended fun self => { self with refresh := next })
  | prune (next : PruneState) (resyncRequired : Bool) :
      Move terms before (before.amended fun self => { self with prune := next, resyncRequired })
  | retry (key : Key) (retry : Retry) (work : Work Row)
      (found : before.self.retries.entries[key]? = some retry)
      (mutation : work.mutation = retry.mutation) (again : work.firstAttempt = false)
      (genuine : work.Genuine before.history before.published) (empty : before.hand = []) :
      Move terms before (before.amended fun self => (self.takeRetry key).pushWork work)
  | abandon (key : Key) : Move terms before
      (before.amended fun self => (self.takeRetry key).dropStatus key)
  | revisit (work : Work Row) (genuine : work.Genuine before.history before.published)
      (again : work.refresh = true) (alone : ∀ other ∈ before.self.pending, other.refresh = false)
      (done : IsDone before.self.statuses work.key work.revision) (empty : before.hand = []) :
      Move terms before (before.amended (·.pushWork work))
  | discard (work : Work Row) (rest : List (Work Row)) (first : before.self.pending = work :: rest)
      (settled : Superseded before.history work.key work.revision ∨
        Called before.log work.key work.revision) :
      Move terms before (before.amended fun self => (self.dropStatus work.key).popWork)
  | announce (works : List (Work Row)) : Move terms before (before.amended (·.attempt works))
  | attempt (works took : List (Work Row)) (took_subset : ∀ work ∈ took, work ∈ works)
      (genuine : ∀ work ∈ works, work.Genuine before.history before.published)
      (announced : ∀ work ∈ works, ∀ revision, ¬IsDone before.self.statuses work.key revision) :
      Move terms before (before.attempted works took)
  | record (work : Work Row) (rest : List (Work Row)) (result : Except String Unit) (now : Nat)
      (round : Round) (after : Reconciler Row × Round)
      (first : before.self.pending = work :: rest)
      (settled : Superseded before.history work.key work.revision ∨
        Called before.log work.key work.revision)
      (succeeded : result = .ok () → work.row.isSome →
        ∃ row, work.row = some row ∧ ∃ event, lastOn work.key before.log = some (.done event) ∧
          event.mutation = work.mutation ∧ event.Genuine before.history before.published)
      (recorded : before.self.recordResult work result now round = .ok after) :
      Move terms before (before.amended fun _ => after.1.popWork)
  | prune_target (desired : Version Row)
      (absent : ∀ (key : Key) revision, desired.rows[key]? = none →
        IsDone before.self.statuses key revision → Superseded before.history key revision) :
      Move terms before (before.pruned desired)
  | sort : Move terms before (before.amended (·.sortPending))

/-! ## What others do -/

variable {history : List Mutation} {work : Work Row} {key : Key} {revision : Nat}
  {self : Reconciler Row} {mutations : List Mutation} {statuses : BTreeMap Key Status}

theorem Work.Genuine.steps {before after : Version Row} (genuine : work.Genuine history before)
    (chronicle : Chronicle history before) (steps : before.Steps mutations after) :
    work.Genuine (history ++ mutations) after where
  noted := List.mem_append_left _ genuine.noted
  keyed := genuine.keyed
  same row isRow other held :=
    genuine.same row isRow other (steps.rows_of_le held (chronicle.bounded _ genuine.noted))

theorem RefreshState.Genuine.steps {before after : Version Row} {refresh : RefreshState Row}
    (genuine : refresh.Genuine history before) (chronicle : Chronicle history before)
    (steps : before.Steps mutations after) : refresh.Genuine (history ++ mutations) after := by
  intro pass isPass
  refine ⟨?_, ?_⟩
  · intro key row revision held
    exact ((genuine pass isPass).rows key row revision held).steps chronicle steps
  · intro work member
    rcases (genuine pass isPass).candidates work member with ⟨isGenuine, isRefresh⟩
    exact ⟨isGenuine.steps chronicle steps, isRefresh⟩

theorem others_disturb (act : System.Other Row) (system : System Row) :
    Others system (System.disturb act system) := by
  cases act with
  | call now call =>
      exact ⟨rfl, rfl, rfl, rfl, ⟨_, rfl, system.watched.perform_steps now call⟩,
        fun buried => Watched.perform_buried buried now call⟩
  | ready =>
      exact ⟨rfl, rfl, rfl, rfl, ⟨[], (List.append_nil _).symm, .refl _⟩, fun buried => buried⟩
  | prune =>
      exact ⟨rfl, rfl, rfl, rfl, ⟨[], (List.append_nil _).symm, .refl _⟩, fun buried => buried⟩

theorem Grounded.others {before after : System Row} (grounded : Grounded before)
    (others : Others before after) : Grounded after := by
  rcases others with ⟨self, hand, deliveries, log, ⟨mutations, history, steps⟩, buried⟩
  have chronicle := grounded.chronicle
  refine ⟨?_, buried grounded.buried, ?_, ?_, ?_, ?_, ?_, ?_, ?_, ?_, ?_, ?_, ?_⟩
  · rw [history]
    exact chronicle.steps steps
  · rw [self, deliveries, history]
    exact grounded.stream.steps chronicle steps
  · rw [self]
    exact grounded.unmarked
  · rw [hand, deliveries, history]
    exact fun change member =>
      ⟨(grounded.hand change member).1.steps chronicle steps, (grounded.hand change member).2⟩
  · rw [deliveries, history]
    exact fun change member => (grounded.delivered change member).steps chronicle steps
  · rw [self, history]
    exact fun work member => (grounded.queue work member).steps chronicle steps
  · rw [self, history]
    intro key retry held
    rcases grounded.retries key retry held with ⟨isKey, noted, failed⟩
    exact ⟨isKey, List.mem_append_left _ noted, failed⟩
  · rw [self, history]
    exact fun key revision done => List.mem_append_left _ (grounded.done key revision done)
  · rw [self, history]
    exact grounded.refresh.steps chronicle steps
  · rw [self]
    exact grounded.counted
  · rw [self]
    exact grounded.attempted_le
  · rw [self]
    exact grounded.progress_le

/-! ## Moves -/

theorem work_genuine_of_change {version : Version Row}
    {change : Change Row} (genuine : change.Genuine history version)
    (isWork : workOf change = some work) : work.Genuine history version := by
  cases change with
  | insert row revision =>
      cases isWork
      refine ⟨genuine.noted, ?_, ?_⟩
      · intro other isRow
        cases isRow
        rfl
      · intro other isRow third held
        cases isRow
        exact genuine.same third held
  | delete key revision =>
      cases isWork
      exact ⟨genuine, fun _ isRow => (Option.some_ne_none _ isRow.symm).elim,
        fun _ isRow => (Option.some_ne_none _ isRow.symm).elim⟩
  | resync revision => cases isWork

theorem isDone_erase {other : Key} (done : IsDone (statuses.erase key) other revision) :
    other ≠ key ∧ IsDone statuses other revision := by
  rcases done with ⟨status, held, isDone⟩
  rw [getElem?_erase_eq_some_iff] at held
  exact ⟨held.1.symm, status, held.2, isDone⟩

omit [Keyed Row] in
theorem isDone_attempt {works : List (Work Row)}
    (done : IsDone (self.attempt works).statuses key revision) :
    IsDone self.statuses key revision ∧ ∀ work ∈ works, work.key ≠ key := by
  rcases done with ⟨status, held, isDone, isRevision⟩
  rcases getElem?_insertAll_eq_some held with inside | ⟨outside, earlier⟩
  · rcases List.mem_map.mp inside with ⟨other, _, same⟩
    cases same
    unfold Work.attempting at isDone
    dsimp only at isDone
    split at isDone <;> cases isDone
  · exact ⟨⟨status, earlier, isDone, isRevision⟩, fun work member =>
      outside (work.key, work.attempting) (List.mem_map.mpr ⟨work, member, rfl⟩)⟩

structure Recorded (before : Reconciler Row) (work : Work Row) (result : Except String Unit)
    (after : Reconciler Row) : Prop where
  stream : after.stream = before.stream
  pending : after.pending = before.pending
  pendingFirstAttempts : after.pendingFirstAttempts = before.pendingFirstAttempts
  attemptedRevision : after.attemptedRevision = before.attemptedRevision
  progress : after.progress = before.progress
  refresh : after.refresh = before.refresh
  done : ∀ key revision, IsDone after.statuses key revision →
    key ≠ work.key ∧ IsDone before.statuses key revision ∨
      key = work.key ∧ revision = work.revision ∧ work.row.isSome ∧ result = .ok ()
  retries : ∀ (key : Key) retry, after.retries.entries[key]? = some retry →
    key ≠ work.key ∧ before.retries.entries[key]? = some retry ∨
      key = work.key ∧ retry.key = work.key ∧ retry.mutation = work.mutation ∧
        0 < retry.failures ∧ result ≠ .ok ()

omit [Keyed Row] in
theorem isDone_insert {other : Key} {status : Status}
    (done : IsDone (statuses.insert key status) other revision) :
    other ≠ key ∧ IsDone statuses other revision ∨
      other = key ∧ status.kind = .done ∧ status.id = revision := by
  rcases done with ⟨found, held, isDone⟩
  rcases getElem?_insert_eq_some_iff.mp held with ⟨rfl, rfl⟩ | ⟨different, before⟩
  · exact .inr ⟨rfl, isDone⟩
  · exact .inl ⟨different.symm, found, before, isDone⟩

omit [Keyed Row] in
theorem recorded_recordDone (self : Reconciler Row) (work : Work Row) (now : Nat) :
    Recorded self work (.ok ()) (self.recordDone work now) := by
  refine ⟨rfl, rfl, rfl, rfl, rfl, rfl, ?_, ?_⟩
  · intro key revision done
    unfold Reconciler.recordDone at done
    dsimp only at done
    split at done
    · rename_i isUpdate
      rcases isDone_insert done with earlier | ⟨isKey, _, isRevision⟩
      · exact .inl earlier
      · exact .inr ⟨isKey, isRevision.symm, isUpdate, rfl⟩
    · exact .inl (isDone_erase done)
  · exact fun key retry held => .inl (RetryQueue.getElem?_of_remove held)

omit [Keyed Row] in
theorem recorded_recordError {after : Reconciler Row} {error : String}
    {now : Nat} (recorded : self.recordError work error now = .ok after) :
    Recorded self work (.error error) after := by
  unfold Reconciler.recordError at recorded
  dsimp only at recorded
  cases deadline : checkedAdd now
      (self.options.backoff (min (work.failures + 1) (2 ^ 32 - 1))) with
  | none =>
      rw [deadline] at recorded
      cases recorded
  | some time =>
      rw [deadline] at recorded
      cases recorded
      refine ⟨rfl, rfl, rfl, rfl, rfl, rfl, ?_, ?_⟩
      · intro key revision done
        rcases isDone_insert done with earlier | ⟨_, isDone, _⟩
        · exact .inl earlier
        · cases isDone
      · intro key retry held
        rcases RetryQueue.getElem?_of_insert held with ⟨isKey, rfl⟩ | earlier
        · refine .inr ⟨isKey, rfl, ?_, by simp, fun same => by cases same⟩
          unfold Retry.mutation Work.mutation Work.operation
          cases work.row <;> rfl
        · exact .inl earlier

omit [Keyed Row] in
theorem recorded_recordResult
    {result : Except String Unit} {now : Nat} {round : Round} {after : Reconciler Row × Round}
    (recorded : self.recordResult work result now round = .ok after) :
    Recorded self work result after.1 := by
  cases result with
  | ok value =>
      cases recorded
      exact recorded_recordDone self work now
  | error error =>
      rcases error_eq : self.recordError work error now with failed | next
      · rw [Reconciler.recordResult, error_eq] at recorded
        cases recorded
      · rw [Reconciler.recordResult, error_eq] at recorded
        cases recorded
        exact recorded_recordError error_eq

/-! ## Grounded moves -/

/-- The changes in the hand are queued, and the progress is not published yet. -/
def System.tookIn (system : System Row) : System Row :=
  { system with
    self := system.self.takeIn system.hand
    hand := []
    pruneRequested := system.pruneRequested || system.hand.any (·.stamp.isNone) }

namespace Grounded

variable {terms : Terms} {system : System Row} (grounded : Grounded system)

include grounded

theorem drain (max now : Nat) : Grounded (system.drained max now) := by
  have delivery := Table.drain_delivery grounded.stream grounded.chronicle grounded.buried max now
  have same : (system.drained max now).published = system.published :=
    Table.published_drain max now
  refine ⟨?_, ?_, ?_, ?_, ?_, ?_, ?_, grounded.retries, grounded.done, ?_, grounded.counted,
    grounded.attempted_le.trans delivery.delivered_le, grounded.progress_le⟩
  · rw [same]
    exact grounded.chronicle
  · exact Table.drain_buried grounded.buried _ max now
  · rw [same]
    exact delivery.sound
  · exact (Table.drain_cases grounded.stream grounded.chronicle grounded.buried max now
      grounded.unmarked).1
  · rw [same]
    intro change member
    rcases List.mem_append.mp member with old | new
    · exact ⟨(grounded.hand change old).1, List.mem_append_left _ (grounded.hand change old).2⟩
    · exact ⟨delivery.genuine change new, List.mem_append_right _ new⟩
  · rw [same]
    intro change member
    rcases List.mem_append.mp member with old | new
    · exact grounded.delivered change old
    · exact delivery.genuine change new
  · rw [same]
    exact grounded.queue
  · rw [same]
    exact grounded.refresh

theorem publish : Grounded (system.amended (·.publishProgress)) :=
  { grounded with
    attempted_le := Reconciler.attemptedRevision_publishProgress_le grounded.attempted_le
    progress_le := Nat.le_refl _ }

theorem takeIn (idle : system.self.pending = []) : Grounded system.tookIn := by
  have enqueued := Reconciler.enqueued_takeIn system.self system.hand
  refine ⟨grounded.chronicle, grounded.buried, ?_, ?_, List.forall_mem_nil _,
    grounded.delivered, ?_, ?_, ?_, ?_, enqueued.counted grounded.counted, ?_, ?_⟩
  · exact enqueued.stream ▸ grounded.stream
  · exact enqueued.stream ▸ grounded.unmarked
  · intro work member
    have inside : work ∈ Reconciler.changeWorks system.hand := by
      rwa [System.tookIn, enqueued.pending, idle, List.nil_append] at member
    rcases Reconciler.mem_changeWorks.mp inside with ⟨change, isChange, isWork⟩
    exact work_genuine_of_change (grounded.hand change isChange).1 isWork
  · exact fun key retry held => grounded.retries key retry (enqueued.retries key retry held)
  · intro key revision done
    rcases enqueued.statuses with same | empty
    · exact grounded.done key revision (same ▸ done)
    · rcases done with ⟨status, held, _⟩
      rw [System.tookIn, empty] at held
      cases held.symm.trans Std.ExtTreeMap.getElem?_empty
  · intro pass isPass
    rcases enqueued.pass with same | none
    · exact grounded.refresh pass (same ▸ isPass)
    · exact (Option.some_ne_none _ (isPass.symm.trans none)).elim
  · exact (enqueued.attemptedRevision.le.trans grounded.attempted_le).trans_eq
      (congrArg _ enqueued.stream.symm)
  · exact (congrArg _ enqueued.progress).le.trans
      (grounded.progress_le.trans_eq enqueued.attemptedRevision.symm)

theorem push {work : Work Row} (genuine : work.Genuine system.history system.published) :
    Grounded (system.amended (·.pushWork work)) := by
  refine { grounded with queue := ?_, counted := Reconciler.counted_pushWork grounded.counted work }
  intro other member
  rcases List.mem_append.mp member with old | new
  · exact grounded.queue other old
  · rw [List.mem_singleton.mp new]
    exact genuine

theorem pop : Grounded (system.amended (·.popWork)) := by
  refine ⟨grounded.chronicle, grounded.buried, ?_, ?_, grounded.hand, grounded.delivered, ?_, ?_,
    ?_, ?_, Reconciler.counted_popWork grounded.counted, ?_, ?_⟩ <;>
    simp only [System.amended, System.published, Reconciler.stream_popWork,
      Reconciler.statuses_popWork, Reconciler.retries_popWork, Reconciler.refresh_popWork,
      Reconciler.attemptedRevision_popWork, Reconciler.progress_popWork,
      Reconciler.pending_popWork]
  · exact grounded.stream
  · exact grounded.unmarked
  · exact fun work member => grounded.queue work (List.mem_of_mem_tail member)
  · exact grounded.retries
  · exact grounded.done
  · exact grounded.refresh
  · exact grounded.attempted_le
  · exact grounded.progress_le

theorem takeRetry (key : Key) : Grounded (system.amended (·.takeRetry key)) :=
  { grounded with
    retries := fun other retry held =>
      grounded.retries other retry (RetryQueue.getElem?_of_remove held).2 }

theorem dropStatus (key : Key) : Grounded (system.amended (·.dropStatus key)) :=
  { grounded with
    done := fun other revision done => grounded.done other revision (isDone_erase done).2 }

theorem record {work : Work Row} {result : Except String Unit} {after : Reconciler Row}
    (member : work ∈ system.self.pending) (recorded : Recorded system.self work result after) :
    Grounded (system.amended fun _ => after) := by
  have noted := (grounded.queue work member).noted
  refine ⟨grounded.chronicle, grounded.buried, ?_, ?_, grounded.hand, grounded.delivered, ?_, ?_,
    ?_, ?_, ?_, ?_, ?_⟩ <;>
    simp only [System.amended, System.published, recorded.stream, recorded.pending,
      recorded.pendingFirstAttempts, recorded.attemptedRevision, recorded.progress,
      recorded.refresh]
  · exact grounded.stream
  · exact grounded.unmarked
  · exact grounded.queue
  · intro key retry held
    rcases recorded.retries key retry held with ⟨_, earlier⟩ | ⟨isKey, keyed, same, failed, _⟩
    · exact grounded.retries key retry earlier
    · exact ⟨keyed.trans isKey.symm, same ▸ noted, failed⟩
  · intro key revision done
    rcases recorded.done key revision done with ⟨_, earlier⟩ | ⟨rfl, rfl, isUpdate, _⟩
    · exact grounded.done key revision earlier
    · have isNone : work.row.isNone = false := by
        cases row : work.row with
        | none =>
            rw [row] at isUpdate
            cases isUpdate
        | some value => rfl
      rw [Work.mutation, isNone] at noted
      exact noted
  · exact grounded.refresh
  · exact grounded.counted
  · exact grounded.attempted_le
  · exact grounded.progress_le

theorem move {after : System Row} (moved : Move terms system after) : Grounded after := by
  cases moved with
  | look => exact grounded
  | drain max now _ _ => exact grounded.drain max now
  | enqueue idle => exact (grounded.takeIn idle).publish
  | ack revision now =>
      exact { grounded with buried := Table.ack_buried grounded.buried _ _ _ }
  | request pruneRequested => exact { grounded with }
  | publish _ => exact grounded.publish
  | refresh next genuine =>
      exact { grounded with refresh := genuine }
  | prune next resyncRequired => exact { grounded with }
  | retry key retry work found mutation _ genuine _ => exact (grounded.takeRetry key).push genuine
  | abandon key => exact (grounded.takeRetry key).dropStatus key
  | revisit work genuine _ _ _ _ => exact grounded.push genuine
  | discard work rest first settled => exact (grounded.dropStatus work.key).pop
  | announce works =>
      exact { grounded with
        done := fun key revision done => grounded.done key revision (isDone_attempt done).1 }
  | attempt works took _ _ _ => exact { grounded with }
  | record work rest result now round after first settled succeeded recorded =>
      have member : work ∈ system.self.pending := by
        rw [first]
        exact .head _
      exact (grounded.record member (recorded_recordResult recorded)).pop
  | prune_target desired absent => exact { grounded with }
  | sort =>
      have perm : system.self.sortPending.pending.Perm system.self.pending :=
        List.perm_insertionSort _ _
      exact { grounded with
        queue := fun work member => grounded.queue work (perm.mem_iff.mp member)
        counted := grounded.counted.perm perm }

end Grounded

end Facts

end FlowSdn.Reconcile
