import FlowSdn.Tables.Version

/-! # Change streams

A table keeps the deletions that some subscriber may not have seen as tombstones. A subscriber
first gets the rows there are and then what changes, and acknowledges what it has done with. One
that falls behind is marked: it gets a resync marker and the rows again. Times are nanoseconds.
-/

namespace FlowSdn.Tables

open OrderedMap

/-- Limits for a subscriber that does not acknowledge delivered revisions. -/
structure StreamOptions where
  tombstoneMaxAge : Nat := 600 * 10 ^ 9
  tombstoneMaxCount : Nat := 65536
  deriving DecidableEq

/-- What a subscriber is told. After a resync marker come all rows, with the revisions
they have. -/
inductive Change (Row : Type)
  | insert (row : Row) (revision : Nat)
  | delete (key : Key) (revision : Nat)
  | resync (revision : Nat)
  deriving DecidableEq

def Change.revision : Change Row → Nat
  | .insert _ revision => revision
  | .delete _ revision => revision
  | .resync revision => revision

structure Progress where
  acked : Nat
  lastAck : Nat
  resync : Bool
  deriving DecidableEq

structure StreamState where
  tombstones : BTreeMap Nat Key := ∅
  byKey : BTreeMap Key Nat := ∅
  subscribers : List (Nat × Progress) := []
  discardedThrough : Nat := 0
  lastGc : Nat := 0
  options : StreamOptions := {}

namespace StreamState

def record (state : StreamState) (mutation : Mutation) : StreamState :=
  let state :=
    match state.byKey[mutation.key]? with
    | some previous =>
        { state with
          byKey := state.byKey.erase mutation.key
          tombstones := state.tombstones.erase previous }
    | none => state
  if mutation.deleted then
    { state with
      byKey := state.byKey.insert mutation.key mutation.revision
      tombstones := state.tombstones.insert mutation.revision mutation.key }
  else state

def backlog (state : StreamState) (revision : Nat) : List (Nat × Key) :=
  state.tombstones.toList.filter fun tombstone => revision < tombstone.1

def overCount (state : StreamState) (acked : Nat) : Bool :=
  decide (state.tombstones.size > state.options.tombstoneMaxCount) &&
    ((state.backlog acked)[state.options.tombstoneMaxCount]?).isSome

/-- A subscriber that is too far behind is marked. -/
def visit (state : StreamState) (revision now : Nat) (progress : Progress) : Progress :=
  if progress.acked < revision ∧ (state.overCount progress.acked ∨
      now - progress.lastAck > state.options.tombstoneMaxAge) then
    { acked := revision, lastAck := now, resync := true }
  else progress

def discard (state : StreamState) (tombstone : Nat × Key) : StreamState :=
  { state with
    tombstones := state.tombstones.erase tombstone.1
    byKey := state.byKey.erase tombstone.2
    discardedThrough := max state.discardedThrough tombstone.1 }

/-- The tombstones up to a revision are let go, the oldest first. -/
def collectThrough (state : StreamState) (low : Nat) : StreamState :=
  (state.tombstones.toList.takeWhile fun tombstone => tombstone.1 ≤ low).foldl discard state

/-- The least revision that a subscriber has acknowledged. -/
def lowest (subscribers : List (Nat × Progress)) (revision : Nat) : Nat :=
  subscribers.foldl (fun low subscriber => min low subscriber.2.acked) revision

def maintain (state : StreamState) (revision now : Nat) : StreamState :=
  let visited := { state with
    subscribers := state.subscribers.map fun subscriber =>
      (subscriber.1, state.visit revision now subscriber.2) }
  if now - state.lastGc < 10 ^ 9 ∧ state.tombstones.size ≤ state.options.tombstoneMaxCount then
    visited
  else
    { visited with lastGc := now }.collectThrough (lowest visited.subscribers revision)

def publish (state : StreamState) (mutations : List Mutation) (revision now : Nat) :
    StreamState :=
  (mutations.foldl record state).maintain revision now

def progress (state : StreamState) (id : Nat) : Option Progress :=
  (state.subscribers.find? fun subscriber => subscriber.1 = id).map (·.2)

def update (state : StreamState) (id : Nat) (next : Progress → Progress) : StreamState :=
  { state with
    subscribers := state.subscribers.map fun subscriber =>
      if subscriber.1 = id then (subscriber.1, next subscriber.2) else subscriber }

end StreamState

/-- A table; subscribers are told apart by the numbers they are given. -/
structure Table (Row : Type) where
  indexes : List (Index Row) := []
  published : Version Row := {}
  streams : StreamState := {}
  nextSubscriber : Nat := 0

structure ChangeStream (Row : Type) where
  id : Nat
  pending : List (Change Row) := []
  cursor : Nat
  delivered : Nat

section Operations

variable {Row : Type} [Keyed Row]

/-- A deletion among the rows, and what follows it. -/
def mergeOne (delete : Change Row) (rest : List (Change Row) → List (Change Row)) :
    List (Change Row) → List (Change Row)
  | [] => delete :: rest []
  | insert :: inserts =>
      if delete.revision < insert.revision then delete :: rest (insert :: inserts)
      else insert :: mergeOne delete rest inserts

def mergeChanges : List (Change Row) → List (Change Row) → List (Change Row)
  | [], inserts => inserts
  | delete :: deletes, inserts => mergeOne delete (mergeChanges deletes) inserts

def Version.population (version : Version Row) : List (Change Row) :=
  version.revisions.values.filterMap fun key =>
    version.rows[key]?.map fun row => .insert row.1 row.2

def ChangeStream.populate (stream : ChangeStream Row) (version : Version Row) :
    ChangeStream Row :=
  { stream with
    cursor := version.revision
    pending := stream.pending ++ version.population }

namespace Table

def write (table : Table Row) (actions : List (Action Row)) : Write Row :=
  Write.performAll table.indexes { version := table.published } actions

/-- The writes of a batch become visible together; without a write nothing does. -/
def batch (table : Table Row) (actions : List (Action Row)) (now : Nat) : Table Row :=
  let write := table.write actions
  if table.published.revision ≠ write.version.revision then
    { table with
      streams := table.streams.publish write.mutations write.version.revision now
      published := write.version }
  else table

def watch (table : Table Row) (fromRevision now : Nat) : ChangeStream Row × Table Row :=
  let revision := table.published.revision
  let progress : Progress := {
    acked := min fromRevision revision
    lastAck := now
    resync := decide (fromRevision ≠ 0 ∧
      (fromRevision < table.streams.discardedThrough ∨ fromRevision > revision)) }
  let stream : ChangeStream Row := {
    id := table.nextSubscriber
    cursor := min fromRevision revision
    delivered := min fromRevision revision }
  (if fromRevision = 0 then stream.populate table.published else stream,
    { table with
      streams := { table.streams with
        subscribers := table.streams.subscribers ++ [(table.nextSubscriber, progress)] }
      nextSubscriber := table.nextSubscriber + 1 })

/-- The acknowledgement moves forward, to what was delivered at most. -/
def ack (table : Table Row) (stream : ChangeStream Row) (revision now : Nat) : Table Row :=
  let next := min revision stream.delivered
  let acknowledge (progress : Progress) : Progress :=
    if next > progress.acked then { progress with acked := next, lastAck := now } else progress
  { table with
    streams := (table.streams.update stream.id acknowledge).maintain table.published.revision now }

/-- The deletions and the rows after a revision, in the order of their revisions. -/
def live (table : Table Row) (cursor : Nat) : List (Change Row) :=
  mergeChanges ((table.streams.backlog cursor).map fun tombstone => .delete tombstone.2 tombstone.1)
    ((table.published.revisions.toList.filter fun entry => cursor < entry.1).filterMap
      fun entry => table.published.rows[entry.2]?.map fun row => .insert row.1 entry.1)

/-- Maintenance, and whether a stream was marked; it is not any more. -/
def attend (table : Table Row) (id now : Nat) : Bool × Table Row :=
  let streams := table.streams.maintain table.published.revision now
  (((streams.progress id).map (·.resync)).getD false,
    { table with
      streams := streams.update id fun progress => { progress with resync := false } })

end Table

/-- A marked stream starts again, with the marker first. -/
def ChangeStream.restart (stream : ChangeStream Row) (version : Version Row) :
    ChangeStream Row :=
  { stream with pending := [.resync version.revision] }.populate version

/-- At most `max` changes, what is left of a population first. -/
def ChangeStream.deliver (stream : ChangeStream Row) (table : Table Row) (max : Nat) :
    List (Change Row) × ChangeStream Row :=
  if stream.pending.isEmpty then
    let changes := (table.live stream.cursor).take max
    let cursor := (changes.getLast?.map Change.revision).getD table.published.revision
    (changes, { stream with cursor, delivered := cursor })
  else
    let pending := stream.pending.drop max
    (stream.pending.take max,
      { stream with
        pending
        delivered := if pending.isEmpty then stream.cursor else stream.delivered })

namespace Table

def drain (table : Table Row) (stream : ChangeStream Row) (max now : Nat) :
    List (Change Row) × ChangeStream Row × Table Row :=
  if max = 0 then ([], stream, table)
  else
    let (resync, table) := table.attend stream.id now
    let stream := if resync then stream.restart table.published else stream
    let (changes, stream) := stream.deliver table max
    (changes, stream, table)

/-- A stream that is dropped no longer holds deletions back. -/
def unsubscribe (table : Table Row) (stream : ChangeStream Row) (now : Nat) : Table Row :=
  { table with
    streams := { table.streams with
      subscribers := table.streams.subscribers.filter fun subscriber =>
        subscriber.1 ≠ stream.id }.maintain table.published.revision now }

end Table

structure Watched (Row : Type) where
  table : Table Row
  streams : List (ChangeStream Row) := []

/-- A call that anyone may make at any time. -/
inductive Call (Row : Type)
  | batch (actions : List (Action Row))
  | watch (fromRevision : Nat)
  | drain (stream max : Nat)
  | ack (stream revision : Nat)
  | unsubscribe (stream : Nat)

namespace Watched

def start (indexes : List (Index Row)) (options : StreamOptions) (now : Nat) : Watched Row where
  table := {
    indexes
    published := { indexes := indexes.map fun _ => ∅ }
    streams := { options, lastGc := now } }

/-- A call at a time; one on a stream that is not open does nothing. -/
def perform (watched : Watched Row) (timed : Nat × Call Row) : Watched Row :=
  let now := timed.1
  match timed.2 with
  | .batch actions => { watched with table := watched.table.batch actions now }
  | .watch fromRevision =>
      let (stream, table) := watched.table.watch fromRevision now
      { table, streams := watched.streams ++ [stream] }
  | .drain index max =>
      match watched.streams[index]? with
      | none => watched
      | some stream =>
          let (_, stream, table) := watched.table.drain stream max now
          { table, streams := watched.streams.set index stream }
  | .ack index revision =>
      match watched.streams[index]? with
      | none => watched
      | some stream => { watched with table := watched.table.ack stream revision now }
  | .unsubscribe index =>
      match watched.streams[index]? with
      | none => watched
      | some stream =>
          { table := watched.table.unsubscribe stream now
            streams := watched.streams.eraseIdx index }

def performAll (watched : Watched Row) (calls : List (Nat × Call Row)) : Watched Row :=
  calls.foldl perform watched

end Watched

def tableAfter (indexes : List (Index Row)) (options : StreamOptions) (start : Nat)
    (calls : List (Nat × Call Row)) : Table Row :=
  ((Watched.start indexes options start).performAll calls).table

end Operations

namespace StreamState

variable {state : StreamState}

theorem overCount_iff (acked : Nat) :
    state.overCount acked ↔ state.options.tombstoneMaxCount < (state.backlog acked).length := by
  have fewer : (state.backlog acked).length ≤ state.tombstones.size := by
    rw [← Std.ExtTreeMap.length_toList]
    exact List.length_filter_le _ _
  simp only [overCount, Bool.and_eq_true, decide_eq_true_eq, gt_iff_lt, Option.isSome_iff_ne_none,
    ne_eq, List.getElem?_eq_none_iff, Nat.not_le]
  constructor
  · exact fun both => both.2
  · exact fun more => ⟨by omega, more⟩

@[simp] theorem subscribers_collectThrough (low : Nat) :
    (state.collectThrough low).subscribers = state.subscribers := by
  unfold collectThrough
  generalize (state.tombstones.toList.takeWhile _) = tombstones
  induction tombstones generalizing state with
  | nil => rfl
  | cons tombstone tombstones induction => exact induction

theorem subscribers_maintain (revision now : Nat) :
    (state.maintain revision now).subscribers = state.subscribers.map fun subscriber =>
      (subscriber.1, state.visit revision now subscriber.2) := by
  unfold maintain
  dsimp only
  split
  · rfl
  · rw [subscribers_collectThrough]

@[simp] theorem subscribers_record (mutation : Mutation) :
    (state.record mutation).subscribers = state.subscribers := by
  unfold record
  dsimp only
  split <;> split <;> rfl

@[simp] theorem options_record (mutation : Mutation) :
    (state.record mutation).options = state.options := by
  unfold record
  dsimp only
  split <;> split <;> rfl

@[simp] theorem subscribers_foldl_record (mutations : List Mutation) :
    (mutations.foldl record state).subscribers = state.subscribers := by
  induction mutations generalizing state with
  | nil => rfl
  | cons mutation mutations induction =>
      rw [List.foldl_cons, induction, subscribers_record]

@[simp] theorem options_foldl_record (mutations : List Mutation) :
    (mutations.foldl record state).options = state.options := by
  induction mutations generalizing state with
  | nil => rfl
  | cons mutation mutations induction =>
      rw [List.foldl_cons, induction, options_record]

theorem progress_map (next : Progress → Progress) (subscribers : List (Nat × Progress)) (id : Nat) :
    ((subscribers.map fun subscriber => (subscriber.1, next subscriber.2)).find?
      fun subscriber => subscriber.1 = id).map (·.2) =
      ((subscribers.find? fun subscriber => subscriber.1 = id).map (·.2)).map next := by
  induction subscribers with
  | nil => rfl
  | cons subscriber subscribers induction =>
      by_cases same : subscriber.1 = id
      · simp [same]
      · simpa [same] using induction

theorem progress_maintain (revision now id : Nat) :
    (state.maintain revision now).progress id =
      (state.progress id).map (state.visit revision now) := by
  unfold progress
  rw [subscribers_maintain, progress_map]

theorem progress_publish (mutations : List Mutation) (revision now id : Nat) :
    (state.publish mutations revision now).progress id =
      (state.progress id).map ((mutations.foldl record state).visit revision now) := by
  rw [publish, progress_maintain]
  unfold progress
  rw [subscribers_foldl_record]

end StreamState

section Idle

variable {Row : Type} [Keyed Row] {table : Table Row} {actions : List (Action Row)}

/-- The deletions a batch leaves a subscriber to see, before maintenance. -/
def Table.backlogAfter (table : Table Row) (actions : List (Action Row)) (acked : Nat) :
    List (Nat × Key) :=
  ((table.write actions).mutations.foldl StreamState.record table.streams).backlog acked

theorem Table.batch_eq_publish {now : Nat}
    (wrote : (table.batch actions now).published.revision ≠ table.published.revision) :
    (table.batch actions now).published = (table.write actions).version ∧
      (table.batch actions now).streams = table.streams.publish (table.write actions).mutations
        (table.write actions).version.revision now := by
  unfold Table.batch at wrote ⊢
  dsimp only at wrote ⊢
  split at wrote
  · rename_i different
    rw [if_pos different]
    exact ⟨rfl, rfl⟩
  · exact absurd rfl wrote

theorem Version.Steps.revision_le {before after : Version Row} {mutations : List Mutation}
    (steps : before.Steps mutations after) : before.revision ≤ after.revision := by
  induction steps with
  | refl => exact Nat.le_refl _
  | cons first _ induction =>
      cases first with
      | insert _ _ isRevision _ _ => omega
      | delete _ _ isRevision _ _ => omega

theorem Table.write_steps (table : Table Row) (actions : List (Action Row)) :
    table.published.Steps (table.write actions).mutations (table.write actions).version := by
  rcases Write.performAll_ran table.indexes { version := table.published } actions with
    ⟨mutations, noted, steps⟩
  rw [List.nil_append] at noted
  rw [Table.write, noted]
  exact steps

theorem Table.marked_iff {id : Nat} {progress : Progress}
    (subscribed : table.streams.progress id = some progress)
    (caughtUp : progress.acked = table.published.revision) (unmarked : progress.resync = false)
    {now : Nat} (wrote : (table.batch actions now).published.revision ≠ table.published.revision)
    (few : (table.backlogAfter actions progress.acked).length ≤
      table.streams.options.tombstoneMaxCount) :
    (∃ after, (table.batch actions now).streams.progress id = some after ∧ after.resync = true) ↔
      table.streams.options.tombstoneMaxAge < now - progress.lastAck := by
  rcases Table.batch_eq_publish wrote with ⟨published, streams⟩
  have later : progress.acked < (table.write actions).version.revision := by
    have grown := (table.write_steps actions).revision_le
    rw [published] at wrote
    omega
  have within : ¬((table.write actions).mutations.foldl StreamState.record
      table.streams).overCount progress.acked = true := by
    rw [StreamState.overCount_iff, StreamState.options_foldl_record]
    exact Nat.not_lt.mpr few
  rw [streams, StreamState.progress_publish, subscribed]
  constructor
  · rintro ⟨after, isAfter, marked⟩
    rw [Option.map_some, Option.some.injEq] at isAfter
    subst isAfter
    unfold StreamState.visit at marked
    split at marked
    · rename_i behind
      rw [StreamState.options_foldl_record] at behind
      exact behind.2.resolve_left within
    · rw [unmarked] at marked
      cases marked
  · intro old
    refine ⟨_, rfl, ?_⟩
    unfold StreamState.visit
    rw [StreamState.options_foldl_record, if_pos ⟨later, .inr old⟩]

@[simp] theorem StreamState.options_maintain (state : StreamState) (revision now : Nat) :
    (state.maintain revision now).options = state.options := by
  unfold StreamState.maintain
  dsimp only
  split
  · rfl
  · unfold StreamState.collectThrough
    generalize (List.takeWhile _ _) = tombstones
    generalize stateEq : ({ state with
      subscribers := state.subscribers.map fun subscriber =>
        (subscriber.1, state.visit revision now subscriber.2)
      lastGc := now } : StreamState) = visited
    have same : visited.options = state.options := by rw [← stateEq]
    rw [← same]
    clear stateEq same
    induction tombstones generalizing visited with
    | nil => rfl
    | cons tombstone tombstones induction => exact induction _

theorem Watched.options_perform (watched : Watched Row) (timed : Nat × Call Row) :
    (watched.perform timed).table.streams.options = watched.table.streams.options := by
  unfold Watched.perform
  dsimp only
  split
  · unfold Table.batch StreamState.publish
    dsimp only
    split
    · rw [StreamState.options_maintain, StreamState.options_foldl_record]
    · rfl
  · rfl
  · split
    · rfl
    · unfold Table.drain
      dsimp only
      split
      · rfl
      · exact StreamState.options_maintain _ _ _
  · split
    · rfl
    · exact StreamState.options_maintain _ _ _
  · split
    · rfl
    · exact StreamState.options_maintain _ _ _

theorem options_tableAfter (indexes : List (Index Row)) (options : StreamOptions) (start : Nat)
    (calls : List (Nat × Call Row)) :
    (tableAfter indexes options start calls).streams.options = options := by
  induction calls using List.reverseRecOn with
  | nil => rfl
  | append_singleton calls call induction =>
      rw [tableAfter, Watched.performAll, List.foldl_append]
      exact (Watched.options_perform _ call).trans induction

/-- After any calls, a subscriber that has acknowledged all there is when something is written,
and has no more deletions to see afterwards than the limit, is marked for a resync by that
write exactly when it last acknowledged longer ago than the limit of age. -/
theorem marked_iff_idle (indexes : List (Index Row)) (options : StreamOptions) (start : Nat)
    (calls : List (Nat × Call Row)) (id : Nat) (progress : Progress)
    (subscribed : (tableAfter indexes options start calls).streams.progress id = some progress)
    (caughtUp : progress.acked = (tableAfter indexes options start calls).published.revision)
    (unmarked : progress.resync = false) (actions : List (Action Row)) (now : Nat)
    (wrote : ((tableAfter indexes options start calls).batch actions now).published.revision ≠
      (tableAfter indexes options start calls).published.revision)
    (few : ((tableAfter indexes options start calls).backlogAfter actions progress.acked).length ≤
      options.tombstoneMaxCount) :
    (∃ after, ((tableAfter indexes options start calls).batch actions now).streams.progress id =
        some after ∧ after.resync = true) ↔ options.tombstoneMaxAge < now - progress.lastAck := by
  have same := options_tableAfter indexes options start calls
  have fewOptions := few.trans_eq (congrArg StreamOptions.tombstoneMaxCount same).symm
  rw [Table.marked_iff subscribed caughtUp unmarked wrote fewOptions, same]

end Idle

structure Item where
  number : U8
  deriving DecidableEq

instance : Keyed Item := ⟨fun item => [item.number]⟩

/-- A subscriber gets a row and acknowledges it two seconds after the start. -/
def acknowledged : List (Nat × Call Item) :=
  [(0, .watch 0), (10 ^ 9, .batch [.insert ⟨1⟩]), (2 * 10 ^ 9, .drain 0 10), (2 * 10 ^ 9, .ack 0 1)]

def acknowledgedProgress : Progress := ⟨1, 2 * 10 ^ 9, false⟩

/-- It is not marked by a write a second later. -/
theorem acknowledged_unmarked :
    ¬∃ after,
      ((tableAfter [] {} 0 acknowledged).batch [.insert ⟨2⟩] (3 * 10 ^ 9)).streams.progress 0 =
        some after ∧ after.resync = true := by
  rw [marked_iff_idle [] {} 0 acknowledged 0 acknowledgedProgress (by decide +kernel)
    (by decide +kernel) rfl [.insert ⟨2⟩] (3 * 10 ^ 9) (by decide +kernel) (by decide +kernel)]
  decide

/-- It is marked by a write ten minutes later, though it has nothing to acknowledge. -/
theorem idle_subscriber_marked :
    (tableAfter [] {} 0 acknowledged).streams.progress 0 = some acknowledgedProgress ∧
      acknowledgedProgress.acked = (tableAfter [] {} 0 acknowledged).published.revision ∧
      (tableAfter [] {} 0 acknowledged).backlogAfter [.insert ⟨2⟩] 1 = [] ∧
      ((tableAfter [] {} 0 acknowledged).batch [.insert ⟨2⟩] (603 * 10 ^ 9)).streams.progress 0 =
        some ⟨2, 603 * 10 ^ 9, true⟩ := by
  refine ⟨by decide +kernel, by decide +kernel, by decide +kernel, by decide +kernel⟩

end FlowSdn.Tables
