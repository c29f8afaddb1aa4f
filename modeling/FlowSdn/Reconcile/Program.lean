import FlowSdn.Foundation.Routine
import FlowSdn.Reconcile.State
import FlowSdn.Tables.Delivery

/-! # Rounds

A round of the reconciler as a routine of operations: what it looks up in the table, what it
does to its own state and what it asks of the target. Others write to the table between any two
operations. A round may be cancelled wherever it waits, and only there.
-/

namespace FlowSdn.Reconcile

open OrderedMap Tables Concurrent

structure BatchResult where
  key : Key
  revision : Nat
  result : Except String Unit

inductive Event (Row : Type)
  | called (work : Work Row)
  | done (work : Work Row)
  | pruned (desired : Version Row)

/-- The event changed what the target has under a key. -/
def Event.touches (key : Key) : Event Row → Bool
  | .called _ => false
  | .done work => work.key == key
  | .pruned desired => desired.rows[key]?.isNone

/-- A table with its other subscribers, a reconciler of it and what has happened: the mutations
that were published, the changes that the reconciler was given, those of them that it has in its
hand, and the events at the target, the newest first. -/
structure System (Row : Type) where
  watched : Watched Row
  initialized : Bool := false
  pruneRequested : Bool := false
  self : Reconciler Row
  history : List Mutation := []
  deliveries : List (Change Row) := []
  hand : List (Change Row) := []
  log : List (Event Row) := []

/-- A row that the table still has at the revision it was delivered with. -/
def stillThere [Keyed Row] (version : Version Row) : Change Row → Bool
  | .insert row revision =>
      (version.rows[Keyed.primaryKey row]?.map (·.2)) == some revision
  | _ => false

namespace System

variable {Row : Type} [Keyed Row] (system : System Row)

def published : Version Row := system.watched.table.published

/-- What others do: they call the table, finish its initialization or request a prune. -/
inductive Other (Row : Type)
  | call (now : Nat) (call : Call Row)
  | ready
  | prune

def disturb : Other Row → System Row → System Row
  | .call now call, system =>
      { system with
        watched := system.watched.perform (now, call)
        history := system.history ++ system.watched.mutations call }
  | .ready, system => { system with initialized := true }
  | .prune, system => { system with pruneRequested := true }

def drained (max now : Nat) : System Row :=
  let drained := system.watched.table.drain system.self.stream max now
  { system with
    watched := { system.watched with table := drained.2.2 }
    self := { system.self with stream := drained.2.1 }
    deliveries := system.deliveries ++ drained.1
    hand := system.hand ++ drained.1 }

def enqueued (changes : List (Change Row)) : System Row :=
  { system with
    self := system.self.enqueueChanges changes
    hand := []
    pruneRequested := system.pruneRequested || changes.any (·.stamp.isNone) }

def acknowledged (revision now : Nat) : System Row :=
  { system with
    watched := { system.watched with
      table := system.watched.table.ack system.self.stream revision now } }

def amended (next : Reconciler Row → Reconciler Row) : System Row :=
  { system with self := next system.self }

/-- The target is asked for some works, and some of them take effect, one after another. -/
def attempted (works took : List (Work Row)) : System Row :=
  { system with log := (took.map .done).reverse ++ (works.map .called).reverse ++ system.log }

def pruned (desired : Version Row) : System Row :=
  { system with log := .pruned desired :: system.log }

/-- A row in the hand would be delivered again: the stream is marked and the row is still there. -/
def overlaps (max now : Nat) : Bool :=
  max != 0 && (system.watched.table.attend system.self.stream.id now).1 &&
    system.hand.any (stillThere system.published)

end System

section Operations

variable {Row : Type}

/-- An operation of a routine; the last four wait. -/
inductive Op (Row : Type)
  | self
  | amend (next : Reconciler Row → Reconciler Row)
  | drain (max : Nat)
  | enqueue (changes : List (Change Row))
  | ack (revision : Nat)
  | get (key : Key)
  | snapshot
  | initialized
  | requested
  | takeRequest
  | clock
  | supportsBatches
  | polls
  | health
  | call (work : Work Row)
  | callBatch (works : List (Work Row))
  | prune (desired : Version Row)

/-- An operation that waits answers nothing if it is cancelled. -/
abbrev Op.Answer : Op Row → Type
  | .self => Reconciler Row
  | .drain _ => List (Change Row)
  | .get _ => Option (Row × Nat)
  | .snapshot => Version Row
  | .initialized => Bool
  | .requested => Bool
  | .clock => Nat
  | .supportsBatches => Bool
  | .polls => Bool
  | .health => Option Bool
  | .call _ => Option (Except String Unit)
  | .callBatch _ => Option (List BatchResult)
  | .prune _ => Option (Except String Unit)
  | _ => Unit

/-- What is left to chance. -/
inductive Choice
  | go
  | time (now : Nat)
  | flag (value : Bool)
  /-- The health report is made, fails or is cancelled. -/
  | health (made : Option Bool)
  /-- The target's answer, and whether a call without one took effect. -/
  | answer (reply : Option (Except String Unit)) (took : Bool)
  /-- The target's answer to a batch, and which of its works took effect in which order. -/
  | answers (reply : Option (List BatchResult)) (took : List Nat)

/-- What is assumed of the target and of the arrivals. -/
structure Terms where
  /-- A batch is answered with one result for each key and revision it has. -/
  honest : Bool := false
  /-- No row in the hand is delivered again by a resync. -/
  apart : Bool := false

/-- The work took effect if the target says so; without an answer it may have. -/
def tookEffect (reply : Option (Except String Unit)) (took : Bool) : Bool :=
  match reply with
  | some (.ok _) => true
  | some (.error _) => false
  | none => took

def BatchResult.isFor (result : BatchResult) (work : Work Row) : Bool :=
  result.key == work.key && result.revision == work.revision

/-- A result says whether the work it is for took effect. -/
def agrees (reply : Option (List BatchResult)) (took : List (Work Row)) : Bool :=
  (reply.getD []).all fun result => result.result.isOk == took.any result.isFor

def answersEach (works : List (Work Row)) (reply : Option (List BatchResult)) : Bool :=
  match reply with
  | none => true
  | some results =>
      decide ((results.map fun result => (result.key, result.revision)).Nodup) &&
        works.all (fun work => results.any fun result => result.isFor work) &&
        results.all fun result => works.any fun work => result.isFor work

variable [Keyed Row]

def effect (terms : Terms) (op : Op Row) (choice : Choice) (system : System Row) :
    Option (op.Answer × System Row) :=
  match op, choice with
  | .self, .go => some (system.self, system)
  | .amend next, .go => some ((), system.amended next)
  | .drain max, .time now =>
      if terms.apart && system.overlaps max now then none
      else some ((system.watched.table.drain system.self.stream max now).1, system.drained max now)
  | .enqueue changes, .go => some ((), system.enqueued changes)
  | .ack revision, .time now => some ((), system.acknowledged revision now)
  | .get key, .go => some (system.published.rows[key]?, system)
  | .snapshot, .go => some (system.published, system)
  | .initialized, .go => some (system.initialized, system)
  | .requested, .go => some (system.pruneRequested, system)
  | .takeRequest, .go => some ((), { system with pruneRequested := false })
  | .clock, .time now => some (now, system)
  | .supportsBatches, .flag value => some (value, system)
  | .polls, .flag value => some (value, system)
  | .health, .health made => some (made, system)
  | .call work, .answer reply took =>
      some (reply, system.attempted [work] (if tookEffect reply took then [work] else []))
  | .callBatch works, .answers reply took =>
      let took := took.filterMap (works[·]?)
      if agrees reply took && (!terms.honest || answersEach works reply) then
        some (reply, system.attempted works took)
      else none
  | .prune desired, .answer reply took =>
      some (reply, if tookEffect reply took then system.pruned desired else system)
  | _, _ => none

def platform (terms : Terms) : Platform (Op Row) Op.Answer (System Row) Choice where
  effect _ op choice system := effect terms op choice system
  leave _ system := system

end Operations

inductive Stop
  | cancelled
  | failed (error : ReconcileError)
  deriving DecidableEq

abbrev Task (Row : Type) (α : Type) := ExceptT Stop (Thread (Op Row) Op.Answer) α

section Tasks

variable {Row : Type}

def ask (op : Op Row) : Task Row op.Answer := ExceptT.lift (Thread.perform op)

def orCancelled : Option α → Task Row α
  | some value => pure value
  | none => throw .cancelled

def orFailed : Except ReconcileError α → Task Row α
  | .ok value => pure value
  | .error error => throw (.failed error)

/-- A change of the reconciler's own state that may fail, and then leaves it as it is. -/
def tryAmend (next : Reconciler Row → Except ReconcileError (Reconciler Row)) : Task Row Unit := do
  let after ← orFailed (next (← ask .self))
  ask (.amend fun _ => after)

def publishHealthChanges : Task Row Unit := do
  let made ← orCancelled (← ask .health)
  if made then pure () else throw (.failed .healthPublicationFailed)

def current (work : Work Row) : Task Row Bool := do
  return work.current (← ask (.get work.key))

/-! ### Refresh -/

def refreshEligible (work : Work Row) (started : Nat) : Task Row Bool := do
  let isCurrent ← current work
  return isCurrent && (← ask .self).refreshDue work started

def rememberRecent (work : Work Row) : Task Row Unit := do
  if ← current work then tryAmend (·.rememberRecent work) else pure ()

variable [Keyed Row]

def refreshWork (row : Row) (revision : Nat) : Work Row :=
  { key := Keyed.primaryKey row, revision, row := some row, refresh := true }

/-- The candidates among some rows, the revision to go on from and whether it is the last. -/
def scanRows (started : Nat) : List (Row × Nat) → List (Work Row) → Nat →
    Task Row (List (Work Row) × Nat × Bool)
  | [], candidates, fromRevision => pure (candidates, fromRevision, false)
  | (row, revision) :: rows, candidates, fromRevision => do
      let work := refreshWork row revision
      let candidates ←
        if ← refreshEligible work started then pure (candidates ++ [work])
        else do
          rememberRecent work
          pure candidates
      if revision + 1 < 2 ^ 64 then scanRows started rows candidates (revision + 1)
      else pure (candidates, fromRevision, true)

def openPass (now : Nat) : Task Row Unit := do
  if (← ask .self).refresh.pass.isNone then do
    let snapshot ← ask .snapshot
    ask (.amend (·.openPass snapshot now))
  else pure ()

/-- A chunk of the pass, once the candidates of the last one are done with. -/
def scanPass : Task Row Unit := do
  let self ← ask .self
  match self.refresh.pass with
  | none => pure ()
  | some pass =>
      if pass.candidates.isEmpty && !pass.exhausted then do
        let rows := byRevision pass.snapshot pass.fromRevision
        let (candidates, fromRevision, last) ←
          scanRows pass.started (rows.take self.options.roundSize) [] pass.fromRevision
        ask (.amend (·.scanned candidates fromRevision
          (last || rows.length ≤ self.options.roundSize)))
      else pure ()

/-- The first candidate that is still eligible; the others are skipped. -/
def skipCandidates (started now : Nat) : List (Work Row) → Task Row (Option (Work Row))
  | [] => do
      let self ← ask .self
      if self.refresh.pass.any (·.exhausted) then tryAmend (·.finishRefreshPass now)
      else ask (.amend (·.refreshAt (some now)))
      return none
  | work :: rest => do
      if ← refreshEligible work started then pure (some work)
      else do
        rememberRecent work
        ask (.amend (·.skipCandidate))
        skipCandidates started now rest

/-- At most a number of candidates a second. -/
def dispatchRefresh (now : Nat) (work : Work Row) : Task Row (Option (Work Row)) := do
  let self ← ask .self
  if self.refresh.notBefore.any (now < ·) then do
    ask (.amend (·.refreshAt self.refresh.notBefore))
    return none
  else do
    let gap := (10 ^ 9 + self.options.refreshRate - 1) / self.options.refreshRate
    let next ← orFailed (checked .refreshDeadlineOverflow (checkedAdd now gap))
    ask (.amend (·.scheduleRefresh next))
    return some work

/-- What is to be written again, from a pass that is due. -/
def chooseRefresh (now : Nat) : Task Row (Option (Work Row)) := do
  openPass now
  scanPass
  match (← ask .self).refresh.pass with
  | none => return none
  | some pass =>
      match ← skipCandidates pass.started now pass.candidates with
      | none => return none
      | some work => dispatchRefresh now work

def nextRefreshWork (now : Nat) : Task Row (Option (Work Row)) := do
  if (← ask .self).options.refreshInterval = 0 then return none
  else do
    tryAmend (·.armRefresh now)
    if (← ask .self).refresh.nextDue.any (now < ·) then return none
    else chooseRefresh now

/-! ### Work -/

/-- Where the next work comes from when nothing is queued. -/
inductive Found
  | pushed
  | stale
  | nothing
  deriving DecidableEq

/-- A failed operation is preserved: an old deletion never deletes a row that is back. -/
def retryWork (key : Key) (retry : Retry) : Task Row Found := do
  let found ← ask (.get retry.key)
  let row := if retry.operation = .update then found.map (·.1) else none
  if retry.operation = .update ∧ row.isNone then do
    ask (.amend fun self => (self.takeRetry key).dropStatus retry.key)
    return .stale
  else do
    ask (.amend fun self => (self.takeRetry key).pushWork (retry.work row))
    return .pushed

def refreshFound : Task Row Found := do
  match ← nextRefreshWork (← ask .clock) with
  | some work => do
      ask (.amend (·.pushWork work))
      return .pushed
  | none => return .nothing

/-- A retry whose time has come, or a row to be refreshed. -/
def findWork : Task Row Found := do
  let now ← ask .clock
  match (← ask .self).retries.due now with
  | some (key, retry) => retryWork key retry
  | none => refreshFound

def completeRefresh (work : Work Row) (now : Nat) : Task Row Unit :=
  if work.refresh then tryAmend (·.completeRefreshWork now) else pure ()

/-- The work is given up: the table says something else by now. -/
def discardWork (work : Work Row) : Task Row Unit := do
  ask (.amend fun self => (self.dropStatus work.key).popWork)
  ask (.amend (·.publishProgress))
  completeRefresh work (← ask .clock)

/-- The result of the first work is recorded and the work taken from the queue. -/
def recordWork (work : Work Row) (result : Except String Unit) (now : Nat) (round : Round) :
    Task Row Round := do
  let (after, round) ← orFailed ((← ask .self).recordResult work result now round)
  ask (.amend fun _ => after.popWork)
  ask (.amend (·.publishProgress))
  return round

/-- One work: the target is asked if the table still says so, and the answer counts if the
table still says so then. -/
def processWork (work : Work Row) (round : Round) : Task Row Round := do
  if ← current work then do
    publishHealthChanges
    ask (.amend (·.attempt [work]))
    ask (.amend (·.publishProgress))
    let result ← orCancelled (← ask (.call work))
    if ← current work then do
      let now ← ask .clock
      let round ← recordWork work result now round
      completeRefresh work now
      return round
    else do
      discardWork work
      return { round with stale := round.stale + 1 }
  else do
    discardWork work
    return { round with stale := round.stale + 1 }

def processFirst (round : Round) : Task Row Round := do
  match (← ask .self).pending with
  | [] => return round
  | work :: _ => processWork work { round with processed := round.processed + 1 }

/-- Works one by one; the number left is the round's size less what was processed. -/
def runScalar : Nat → Round → Task Row Round
  | 0, round => pure round
  | left + 1, round => do
      let found ← if (← ask .self).pending.isEmpty then findWork else pure .pushed
      match found with
      | .pushed => do
          let round ← processFirst round
          runScalar left round
      | .stale =>
          runScalar left { round with stale := round.stale + 1, processed := round.processed + 1 }
      | .nothing => pure round

/-! ### Batches -/

/-- A retry whose time has come, or a row to be refreshed. A refresh that was dispatched keeps its
pass until its result is recorded, so there is no second one. -/
def fillFound : Task Row Found := do
  let now ← ask .clock
  let self ← ask .self
  match self.retries.due now with
  | some (key, retry) => retryWork key retry
  | none => if self.pending.any (·.refresh) then pure .nothing else refreshFound

/-- Retries and a refresh join the queue; the number is what the round still has room for. -/
def fillBatch : Nat → Round → Task Row Round
  | 0, round => pure round
  | room + 1, round => do
      match ← fillFound with
      | .pushed => fillBatch room round
      | .stale =>
          fillBatch room { round with stale := round.stale + 1, processed := round.processed + 1 }
      | .nothing => pure round

def filterCurrent : List (Work Row) → Task Row (List (Work Row))
  | [] => pure []
  | work :: rest => do
      let isCurrent ← current work
      let rest ← filterCurrent rest
      return if isCurrent then work :: rest else rest

/-- The results by key and revision; two for one are refused. -/
def indexResults : List BatchResult → BTreeMap Stamped (Except String Unit) →
    Option (BTreeMap Stamped (Except String Unit))
  | [], indexed => some indexed
  | result :: results, indexed =>
      if (indexed[(⟨result.revision, result.key⟩ : Stamped)]?).isSome then none
      else indexResults results (indexed.insert ⟨result.revision, result.key⟩ result.result)

def Work.id (work : Work Row) : Stamped := ⟨work.revision, work.key⟩

/-- The whole answer is checked before any of it counts. -/
def validate (active : List (Work Row)) (results : List BatchResult) :
    Option (BTreeMap Stamped (Except String Unit)) :=
  if results.length ≠ active.length then none
  else
    (indexResults results ∅).bind fun indexed =>
      if active.any fun work => (indexed[work.id]?).isNone then none else some indexed

/-- The result of a work counts if the table still says so. -/
def settleWork (work : Work Row) (result : Option (Except String Unit)) (round : Round) :
    Task Row Round := do
  let counts ←
    match result with
    | some _ => current work
    | none => pure false
  match result, counts with
  | some result, true => do
      let round ← recordWork work result (← ask .clock) round
      completeRefresh work (← ask .clock)
      return { round with processed := round.processed + 1 }
  | _, _ => do
      discardWork work
      return { round with stale := round.stale + 1, processed := round.processed + 1 }

def settleGroup : List (Work Row) → BTreeMap Stamped (Except String Unit) → Round →
    Task Row Round
  | [], _, round => pure round
  | work :: rest, indexed, round => do
      let round ← settleWork work indexed[work.id]? round
      settleGroup rest (indexed.erase work.id) round

def askBatch (active : List (Work Row)) : Task Row (List BatchResult) := do
  if active.isEmpty then return [] else orCancelled (← ask (.callBatch active))

/-- The deletions at the front of the queue, or the updates. -/
def runGroup (deleting : Bool) (round : Round) : Task Row Round := do
  let self ← ask .self
  let group := (self.pending.take (self.options.roundSize - round.processed)).takeWhile
    fun work => work.row.isNone == deleting
  let active ← filterCurrent group
  publishHealthChanges
  ask (.amend (·.attempt active))
  ask (.amend (·.publishProgress))
  let results ← askBatch active
  match validate active results with
  | none => throw (.failed .invalidBatchResults)
  | some indexed => settleGroup group indexed round

def runBatchRound (round : Round) : Task Row Round := do
  let self ← ask .self
  let round ← fillBatch (self.options.roundSize - (self.pending.length + round.processed)) round
  ask (.amend (·.sortPending))
  let round ← runGroup true round
  runGroup false round

/-! ### Rounds -/

def loadChanges : Task Row Unit := do
  let changes ← ask (.drain (← ask .self).options.roundSize)
  ask (.enqueue changes)

def runPrune : Task Row (Option PruneStatus) := do
  let now ← ask .clock
  if ← ask .initialized then do
    let self ← ask .self
    let requested ← ask .requested
    if !self.prune.inFlight && !requested && self.prune.nextDue.any (now < ·) then return none
    else do
      -- a request that comes while the target is asked counts for the next round
      ask (.amend (·.beginPrune))
      ask .takeRequest
      let desired ← ask .snapshot
      ask (.amend (·.publishProgress))
      let result ← orCancelled (← ask (.prune desired))
      let now ← ask .clock
      let nextDue ← orFailed
        (checked .pruneDeadlineOverflow (checkedAdd now (← ask .self).options.pruneInterval))
      let status : PruneStatus := {
        revision := desired.revision
        updatedAt := now
        error := match result with
          | .ok _ => none
          | .error error => some error }
      ask (.amend (·.endPrune status nextDue))
      ask (.amend (·.publishProgress))
      return some status
  else return none

/-- What was attempted is acknowledged once nothing is queued. -/
def acknowledge : Task Row Unit := do
  if (← ask .self).pending.isEmpty then do
    ask (.amend (·.publishProgress))
    ask (.ack (← ask .self).attemptedRevision)
  else pure ()

def runCoreRound : Task Row Round := do
  let now ← ask .clock
  tryAmend (·.armRefresh now)
  let self ← ask .self
  if self.pending.isEmpty then loadChanges else pure ()
  let round ←
    if ← ask .supportsBatches then runBatchRound {} else runScalar self.options.roundSize {}
  acknowledge
  let prune ← runPrune
  let self ← ask .self
  return { round with
    prune
    attemptedRevision := self.attemptedRevision
    remainingRetries := self.retries.entries.size
    resyncRequired := self.resyncRequired }

def runRoundWithClock : Task Row Round := do
  publishHealthChanges
  let result ← ExceptT.lift runCoreRound.run
  match result with
  | .ok round => do
      publishHealthChanges
      return round
  | .error .cancelled => throw .cancelled
  | .error error => do
      publishHealthChanges
      throw error

/-- A turn of the loop with nothing to do yet: a change is taken in if there is one. -/
def takeChange : Task Row Unit := do
  if ← ask .polls then do
    let first ← ask (.drain 1)
    if first.isEmpty then pure ()
    else do
      let remaining ← ask (.drain ((← ask .self).options.roundSize - 1))
      ask (.enqueue (first ++ remaining))
  else pure ()

def driveRound : Task Row Round := do
  let round ← runRoundWithClock
  let now ← ask .clock
  let _ ← orFailed
    (checked .roundDeadlineOverflow (checkedAdd now (← ask .self).options.roundInterval))
  return round

def driveOnce : Task Row (Option Round) := do
  let initialized ← ask .initialized
  let requested ← ask .requested
  let self ← ask .self
  let now ← ask .clock
  if self.hasPendingWork initialized requested || (self.loopDeadline initialized).any (· ≤ now) then
    return some (← driveRound)
  else do
    takeChange
    return none

/-- How a reconciler is run: a single round, or the loop. -/
inductive Entry
  | runRound
  | run
  deriving DecidableEq

def routine : Entry → Thread (Op Row) Op.Answer (Except Stop (Option Round))
  | .runRound => (return some (← runRoundWithClock) : Task Row (Option Round)).run
  | .run => (driveOnce : Task Row (Option Round)).run

abbrev Reconciliation (Row : Type) :=
  Session (Op Row) Op.Answer (System Row) (Except Stop (Option Round))

/-- A new reconciler of a table that others have used. -/
def System.create (watched : Watched Row) (history : List Mutation) (options : Options)
    (now : Nat) :
    Except ReconcileError (System Row) := do
  options.check
  let opened := watched.table.watch 0 now
  return {
    watched := { watched with table := opened.2 }
    self := { stream := opened.1, options }
    history }

/-- A table, the calls it has seen and the reconciler that is made of it. -/
structure Setup (Row : Type) where
  indexes : List (Index Row) := []
  streamOptions : StreamOptions := {}
  started : Nat := 0
  calls : List (Nat × Call Row) := []
  options : Options := {}
  now : Nat := 0

namespace Setup

variable (setup : Setup Row)

def table : Watched Row × List Mutation :=
  setup.calls.foldl
    (fun state timed => (state.1.perform timed, state.2 ++ state.1.mutations timed.2))
    (Watched.start setup.indexes setup.streamOptions setup.started, [])

def system : Except ReconcileError (System Row) :=
  System.create setup.table.1 setup.table.2 setup.options setup.now

/-- Rounds of the reconciler and turns of its loop, with what others do between. -/
def run (terms : Terms) (occasions : List (Occasion Entry (System.Other Row) Choice)) :
    Option (Reconciliation Row) :=
  match setup.system with
  | .ok shared => Session.run (platform terms) System.disturb routine { shared } occasions
  | .error _ => none

end Setup

end Tasks

end FlowSdn.Reconcile
