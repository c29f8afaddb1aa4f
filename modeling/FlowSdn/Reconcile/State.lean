import FlowSdn.Tables.Streams
import Mathlib.Data.List.Sort

/-! # The reconciler's own state

A reconciler brings a target in line with a table. It holds a change stream of the table, the work
to be done, the status of what was done and the failures to be tried again. These are the parts of
a round that neither look at the table nor call the target. Times are nanoseconds.
-/

namespace FlowSdn.Reconcile

open OrderedMap Tables

structure Options where
  roundSize : Nat := 1000
  minBackoff : Nat := 100 * 10 ^ 6
  maxBackoff : Nat := 60 * 10 ^ 9
  pruneInterval : Nat := 3600 * 10 ^ 9
  roundInterval : Nat := 10 ^ 6
  /-- Zero disables refresh. -/
  refreshInterval : Nat := 1800 * 10 ^ 9
  /-- Newly scheduled refresh rows per second. -/
  refreshRate : Nat := 100
  deriving DecidableEq

inductive ReconcileError
  | emptyRound
  | invalidBackoff
  | retryDeadlineOverflow
  | invalidPruneInterval
  | pruneDeadlineOverflow
  | invalidRoundInterval
  | roundDeadlineOverflow
  | healthPublicationFailed
  | invalidBatchResults
  | invalidRefreshRate
  | refreshDeadlineOverflow
  deriving DecidableEq

inductive Kind
  | pending
  | refreshing
  | done
  | error
  deriving DecidableEq

inductive Operation
  | update
  | delete
  deriving DecidableEq

structure Status where
  kind : Kind
  id : Nat
  operation : Operation
  updatedAt : Option Nat := none
  error : Option String := none
  retries : Nat := 0
  nextRetry : Option Nat := none
  deriving DecidableEq

def Status.pending (revision : Nat) (operation : Operation) : Status :=
  { kind := .pending, id := revision, operation }

/-- The seconds of an instant are a signed 64-bit number. -/
def checkedAdd (now delay : Nat) : Option Nat :=
  if now + delay < 2 ^ 63 * 10 ^ 9 then some (now + delay) else none

def checked (error : ReconcileError) : Option α → Except ReconcileError α
  | some value => .ok value
  | none => .error error

/-! ## Retries -/

/-- A key with an instant or a revision it is ordered by. -/
structure Stamped where
  number : Nat
  key : Key
  deriving DecidableEq

namespace Stamped

instance : Ord Stamped where
  compare := compareLex (compareOn number) (compareOn key)

instance transOrd : Std.TransOrd Stamped := inferInstanceAs (Std.TransCmp (compareLex _ _))

instance : Std.LawfulEqOrd Stamped where
  eq_of_compare {left right} equal := by
    cases left
    cases right
    simp_all [compare]

end Stamped

structure Retry where
  key : Key
  revision : Nat
  operation : Operation
  failures : Nat
  deadline : Nat
  refresh : Bool
  deriving DecidableEq

structure RetryQueue where
  entries : BTreeMap Key Retry := ∅
  deadlines : BTreeSet Stamped := ∅
  revisions : BTreeSet Stamped := ∅

namespace RetryQueue

def remove (queue : RetryQueue) (key : Key) : RetryQueue :=
  match queue.entries[key]? with
  | some old =>
      { entries := queue.entries.erase key
        deadlines := queue.deadlines.erase ⟨old.deadline, old.key⟩
        revisions := queue.revisions.erase ⟨old.revision, old.key⟩ }
  | none => queue

def insert (queue : RetryQueue) (retry : Retry) : RetryQueue :=
  let queue := queue.remove retry.key
  { entries := queue.entries.insert retry.key retry
    deadlines := queue.deadlines.insert ⟨retry.deadline, retry.key⟩
    revisions := queue.revisions.insert ⟨retry.revision, retry.key⟩ }

/-- The key that is tried again next, if its time has come. -/
def dueKey (queue : RetryQueue) (now : Nat) : Option Key :=
  match queue.deadlines.toList.head? with
  | some first => if now < first.number then none else some first.key
  | none => none

/-- The retry that `due` takes out of the queue, with the key it is under. -/
def due (queue : RetryQueue) (now : Nat) : Option (Key × Retry) :=
  (queue.dueKey now).bind fun key => queue.entries[key]?.map (key, ·)

end RetryQueue

/-! ## Work -/

/-- A row that is to be written, or a key that is to be deleted. -/
structure Work (Row : Type) where
  key : Key
  revision : Nat
  row : Option Row
  failures : Nat := 0
  refresh : Bool := false
  deriving DecidableEq

namespace Work

def operation (work : Work Row) : Operation :=
  if work.row.isSome then .update else .delete

/-- Whether the table still says what is to be done, given what it has under the key. -/
def current (work : Work Row) : Option (Row × Nat) → Bool
  | some (_, revision) => work.row.isSome && revision == work.revision
  | none => work.row.isNone

def firstAttempt (work : Work Row) : Bool := work.failures == 0 && !work.refresh

def attempting (work : Work Row) : Status :=
  { Status.pending work.revision work.operation with
    kind := if work.refresh then .refreshing else .pending
    retries := work.failures }

end Work

def Retry.work (retry : Retry) (row : Option Row) : Work Row where
  key := retry.key
  revision := retry.revision
  row
  failures := retry.failures
  refresh := retry.refresh

def countUp (counts : BTreeMap Nat Nat) (revision : Nat) : BTreeMap Nat Nat :=
  counts.insert revision ((counts[revision]?).getD 0 + 1)

def countDown (counts : BTreeMap Nat Nat) (revision : Nat) : BTreeMap Nat Nat :=
  match counts[revision]? with
  | some count =>
      if count - 1 = 0 then counts.erase revision else counts.insert revision (count - 1)
  | none => counts

structure PruneStatus where
  revision : Nat
  updatedAt : Nat
  error : Option String
  deriving DecidableEq

structure PruneState where
  inFlight : Bool := false
  nextDue : Option Nat := none
  status : Option PruneStatus := none
  deriving DecidableEq

/-- A pass over the rows of a snapshot, in the order of their revisions. -/
structure Pass (Row : Type) where
  snapshot : Version Row
  started : Nat
  fromRevision : Nat := 0
  exhausted : Bool := false
  candidates : List (Work Row) := []
  nextEligible : Option Nat := none

structure RefreshState (Row : Type) where
  nextDue : Option Nat := none
  notBefore : Option Nat := none
  pass : Option (Pass Row) := none

structure ReconcileProgress where
  attemptedRevision : Nat := 0
  retryLowWaterMark : Option Nat := none
  resyncRequired : Bool := false
  deriving DecidableEq

structure Round where
  processed : Nat := 0
  updated : Nat := 0
  refreshed : Nat := 0
  deleted : Nat := 0
  stale : Nat := 0
  attemptedRevision : Nat := 0
  remainingRetries : Nat := 0
  resyncRequired : Bool := false
  prune : Option PruneStatus := none
  deriving DecidableEq

structure Reconciler (Row : Type) where
  stream : ChangeStream Row
  options : Options := {}
  statuses : BTreeMap Key Status := ∅
  retries : RetryQueue := {}
  pending : List (Work Row) := []
  pendingFirstAttempts : BTreeMap Nat Nat := ∅
  pendingFailures : BTreeMap Nat Nat := ∅
  attemptedRevision : Nat := 0
  resyncRequired : Bool := false
  prune : PruneState := {}
  refresh : RefreshState Row := {}
  progress : ReconcileProgress := {}

/-- The check of the options that a new reconciler begins with. -/
def Options.check (options : Options) : Except ReconcileError Unit :=
  if options.roundSize = 0 then .error .emptyRound
  else if options.minBackoff = 0 ∨ options.minBackoff > options.maxBackoff then
    .error .invalidBackoff
  else if options.pruneInterval = 0 then .error .invalidPruneInterval
  else if options.roundInterval = 0 then .error .invalidRoundInterval
  else if options.refreshInterval ≠ 0 ∧ options.refreshRate = 0 then .error .invalidRefreshRate
  else .ok ()

/-- Doubles with each failure up to the maximum. -/
def Options.delayAfter (options : Options) : Nat → Nat → Nat
  | 0, delay => delay
  | failures + 1, delay =>
      let delay := min (delay * 2) options.maxBackoff
      if delay = options.maxBackoff then delay else options.delayAfter failures delay

def Options.backoff (options : Options) (failures : Nat) : Nat :=
  options.delayAfter failures options.minBackoff

namespace Reconciler

variable {Row : Type} [Keyed Row] (self : Reconciler Row)

/-! ## The queue of work -/

def pushWork (work : Work Row) : Reconciler Row :=
  { self with
    pending := self.pending ++ [work]
    pendingFailures :=
      if work.failures > 0 then countUp self.pendingFailures work.revision
      else self.pendingFailures
    pendingFirstAttempts :=
      if work.firstAttempt then countUp self.pendingFirstAttempts work.revision
      else self.pendingFirstAttempts }

def popWork : Reconciler Row :=
  match self.pending with
  | [] => self
  | work :: rest =>
      { self with
        pending := rest
        pendingFailures :=
          if work.failures > 0 then countDown self.pendingFailures work.revision
          else self.pendingFailures
        pendingFirstAttempts :=
          if work.firstAttempt then countDown self.pendingFirstAttempts work.revision
          else self.pendingFirstAttempts }

def retryLowWaterMark : Option Nat :=
  ((self.retries.revisions.toList.head?.map (·.number)).toList ++
    self.pendingFailures.keys.head?.toList).min?

/-- A checkpoint stops before any first attempt that is queued. -/
def checkpoint : Nat :=
  match self.pendingFirstAttempts.keys.head? with
  | some revision => min (revision - 1) self.stream.delivered
  | none => self.stream.delivered

def publishProgress : Reconciler Row :=
  let attemptedRevision := max self.attemptedRevision self.checkpoint
  { self with
    attemptedRevision
    progress := {
      attemptedRevision
      retryLowWaterMark := self.retryLowWaterMark
      resyncRequired := self.resyncRequired } }

def dropStatus (key : Key) : Reconciler Row :=
  { self with statuses := self.statuses.erase key }

def takeRetry (key : Key) : Reconciler Row :=
  { self with retries := self.retries.remove key }

def attempt (works : List (Work Row)) : Reconciler Row :=
  { self with
    statuses := insertAll self.statuses (works.map fun work => (work.key, work.attempting)) }

/-- The pass is given up, and the time of the next one. -/
def resync : Reconciler Row :=
  { self with
    resyncRequired := true
    retries := {}
    statuses := ∅
    refresh := { self.refresh with nextDue := none, pass := none } }

end Reconciler

def workOf [Keyed Row] : Change Row → Option (Work Row)
  | .insert row revision => some { key := Keyed.primaryKey row, revision, row := some row }
  | .delete key revision => some { key, revision, row := none }
  | .resync _ => none

namespace Reconciler

variable {Row : Type} [Keyed Row] (self : Reconciler Row)

/-- What a change takes back before it is queued. -/
def prepare (change : Change Row) : Reconciler Row :=
  match workOf change with
  | some work => { self with retries := self.retries.remove work.key }
  | none => self.resync

/-- Deletes come first, in the order of the changes; a stable sort. -/
def enqueueChanges (changes : List (Change Row)) : Reconciler Row :=
  let prepared := changes.foldl prepare self
  let works := (changes.filterMap workOf).insertionSort
    fun left right => left.row.isSome → right.row.isSome
  (works.foldl pushWork prepared).publishProgress

/-- Deletes first, then by revision; a stable sort. -/
def sortPending : Reconciler Row :=
  { self with
    pending := self.pending.insertionSort fun left right =>
      (left.row.isSome → right.row.isSome) ∧
        (left.row.isSome = right.row.isSome → left.revision ≤ right.revision) }

end Reconciler

def Round.succeeded (round : Round) (work : Work Row) : Round :=
  if work.row.isSome then
    { round with
      updated := round.updated + 1
      refreshed := if work.refresh then round.refreshed + 1 else round.refreshed }
  else { round with deleted := round.deleted + 1 }

namespace Reconciler

variable {Row : Type} [Keyed Row] (self : Reconciler Row)

/-- The target has done what was asked. A row's status is kept, a deleted key's is not. -/
def recordDone (work : Work Row) (now : Nat) : Reconciler Row :=
  { self with
    retries := self.retries.remove work.key
    statuses :=
      if work.row.isSome then
        self.statuses.insert work.key
          { Status.pending work.revision work.operation with kind := .done, updatedAt := some now }
      else self.statuses.erase work.key }

/-- The target has refused: it is asked again later. Failures are counted in 32 bits. -/
def recordError (work : Work Row) (error : String) (now : Nat) :
    Except ReconcileError (Reconciler Row) := do
  let failures := min (work.failures + 1) (2 ^ 32 - 1)
  let deadline ← checked .retryDeadlineOverflow (checkedAdd now (self.options.backoff failures))
  return { self with
    retries := self.retries.insert {
      key := work.key
      revision := work.revision
      operation := work.operation
      failures
      deadline
      refresh := work.refresh }
    statuses := self.statuses.insert work.key
      { Status.pending work.revision work.operation with
        kind := .error
        updatedAt := some now
        error := some error
        retries := failures
        nextRetry := some deadline } }

def recordResult (work : Work Row) (result : Except String Unit) (now : Nat) (round : Round) :
    Except ReconcileError (Reconciler Row × Round) :=
  match result with
  | .ok _ => .ok (self.recordDone work now, round.succeeded work)
  | .error error => (self.recordError work error now).map (·, round)

/-! ## Refresh -/

def finishRefreshPass (now : Nat) : Except ReconcileError (Reconciler Row) := do
  let next ← checked .refreshDeadlineOverflow (checkedAdd now self.options.refreshInterval)
  let next :=
    match self.refresh.pass.bind (·.nextEligible) with
    | some eligible => min next (max eligible now)
    | none => next
  let next :=
    match self.refresh.notBefore with
    | some limit => max next limit
    | none => next
  return { self with refresh := { self.refresh with nextDue := some next, pass := none } }

def armRefresh (now : Nat) : Except ReconcileError (Reconciler Row) :=
  if self.options.refreshInterval = 0 ∨ self.refresh.nextDue.isSome then .ok self
  else self.finishRefreshPass now

def completeRefreshWork (now : Nat) : Except ReconcileError (Reconciler Row) :=
  if self.refresh.pass.any fun pass => pass.exhausted && pass.candidates.isEmpty then
    self.finishRefreshPass now
  else .ok self

/-- The status says that the row was written long enough ago. -/
def refreshDue (work : Work Row) (started : Nat) : Bool :=
  self.statuses[work.key]?.any fun status =>
    status.id == work.revision && status.kind == .done &&
      status.updatedAt.any fun updated => self.options.refreshInterval ≤ started - updated

def amendPass (change : Pass Row → Pass Row) : Reconciler Row :=
  { self with refresh := { self.refresh with pass := self.refresh.pass.map change } }

/-- A row that was written recently is eligible later. -/
def rememberRecent (work : Work Row) : Except ReconcileError (Reconciler Row) :=
  match self.statuses[work.key]? with
  | some status =>
      if status.id = work.revision ∧ status.kind = .done then
        match status.updatedAt with
        | some updated => do
            let eligible ← checked .refreshDeadlineOverflow
              (checkedAdd updated self.options.refreshInterval)
            return self.amendPass fun pass =>
              if eligible > pass.started then
                { pass with
                  nextEligible := some (match pass.nextEligible with
                    | some old => min old eligible
                    | none => eligible) }
              else pass
        | none => .ok self
      else .ok self
  | none => .ok self

def openPass (snapshot : Version Row) (now : Nat) : Reconciler Row :=
  { self with refresh := { self.refresh with pass := some { snapshot, started := now } } }

def scanned (candidates : List (Work Row)) (fromRevision : Nat) (exhausted : Bool) :
    Reconciler Row :=
  self.amendPass fun pass => { pass with candidates, fromRevision, exhausted }

def skipCandidate : Reconciler Row :=
  self.amendPass fun pass => { pass with candidates := pass.candidates.tail }

def refreshAt (next : Option Nat) : Reconciler Row :=
  { self with refresh := { self.refresh with nextDue := next } }

/-- The first candidate is scheduled, and the next one a while later. -/
def scheduleRefresh (next : Nat) : Reconciler Row :=
  let self := self.skipCandidate
  { self with refresh := { self.refresh with notBefore := some next, nextDue := some next } }

def beginPrune : Reconciler Row :=
  { self with prune := { self.prune with inFlight := true } }

def endPrune (status : PruneStatus) (nextDue : Nat) : Reconciler Row :=
  { self with
    prune := { inFlight := false, nextDue := some nextDue, status := some status }
    resyncRequired := if status.error.isNone then false else self.resyncRequired }

def status (key : Key) (found : Option (Row × Nat)) : Option Status :=
  match found with
  | some (_, revision) =>
      some ((self.statuses[key]?.filter fun status =>
        status.id = revision ∧ status.operation = .update).getD (.pending revision .update))
  | none => self.statuses[key]?.filter fun status => status.operation = .delete

def nextRetry : Option Nat := self.retries.deadlines.toList.head?.map (·.number)

def hasPendingWork (initialized requested : Bool) : Bool :=
  !self.pending.isEmpty || self.prune.inFlight ||
    (initialized && (requested || self.prune.nextDue.isNone))

def loopDeadline (initialized : Bool) : Option Nat :=
  (self.nextRetry.toList ++ (self.prune.nextDue.filter fun _ => initialized).toList ++
    self.refresh.nextDue.toList).min?

end Reconciler

/-- The rows of a snapshot from a revision on, in the order of their revisions. -/
def byRevision (version : Version Row) (fromRevision : Nat) : List (Row × Nat) :=
  (version.revisions.toList.filter fun entry => fromRevision ≤ entry.1).filterMap
    fun entry => version.rows[entry.2]?

end FlowSdn.Reconcile
