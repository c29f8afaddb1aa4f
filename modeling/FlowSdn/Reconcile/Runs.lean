import FlowSdn.Reconcile.Outcomes
import FlowSdn.Reconcile.Rounds

/-! # Runs

A reconciler of a table that others use, from the moment it is made: rounds, turns of the loop,
cancellations and whatever others do between two operations.
-/

namespace FlowSdn.Reconcile

open OrderedMap Tables Concurrent

section Runs

variable {Row : Type} [Keyed Row] {terms : Terms} {setup : Setup Row}

/-! ## The start -/

theorem Setup.table_chronicle (setup : Setup Row) :
    Chronicle setup.table.2 setup.table.1.table.published ∧
      setup.table.1.table.streams.Buried setup.table.2 := by
  have kept : ∀ (calls : List (Nat × Call Row)) (state : Watched Row × List Mutation),
      Chronicle state.2 state.1.table.published → state.1.table.streams.Buried state.2 →
      let after := calls.foldl
        (fun state timed => (state.1.perform timed, state.2 ++ state.1.mutations timed.2)) state
      Chronicle after.2 after.1.table.published ∧ after.1.table.streams.Buried after.2 := by
    intro calls
    induction calls with
    | nil => exact fun state chronicle buried => ⟨chronicle, buried⟩
    | cons timed calls induction =>
        intro state chronicle buried
        exact induction _ (chronicle.steps (state.1.perform_steps timed.1 timed.2))
          (Watched.perform_buried buried timed.1 timed.2)
  refine kept setup.calls _ (chronicle_empty _) fun revision key held => ?_
  cases held.symm.trans Std.ExtTreeMap.getElem?_empty

structure Traced (terms : Terms) (system : System Row) : Prop where
  sound : Sound terms system
  tried : Tried system
  applied : Applied system

variable {key : Key} {after before : System Row}
  {occasions : List (Occasion Entry (System.Other Row) Choice)} {session : Reconciliation Row}
  {revision thread : Nat}

theorem not_isDone_empty : ¬IsDone ∅ key revision := by
  rintro ⟨status, held, _⟩
  cases held.symm.trans Std.ExtTreeMap.getElem?_empty

theorem not_retried_empty {retry : Retry} : ({} : RetryQueue).entries[key]? ≠ some retry := by
  intro held
  cases held.symm.trans Std.ExtTreeMap.getElem?_empty

theorem Setup.created {system : System Row} (made : setup.system = .ok system) :
    Traced terms system ∧ system.hand = [] := by
  rcases setup.table_chronicle with ⟨chronicle, buried⟩
  rcases Table.watch_sound chronicle setup.now with ⟨opened, unmarked⟩
  unfold Setup.system System.create at made
  cases checked : setup.options.check with
  | error error =>
      rw [checked] at made
      cases made
  | ok value =>
      rw [checked] at made
      cases made
      refine ⟨⟨⟨?_, fun _ => ?_⟩,
        ⟨List.forall_mem_nil _, List.forall_mem_nil _, List.forall_mem_nil _⟩, ?_⟩, rfl⟩
      · refine ⟨chronicle, buried, opened, unmarked, List.forall_mem_nil _, List.forall_mem_nil _,
          List.forall_mem_nil _, ?_, ?_, genuine_without_pass _ _, ?_, Nat.zero_le _,
          Nat.le_refl _⟩
        · exact fun _ _ held => absurd held not_retried_empty
        · exact fun _ _ isDone => absurd isDone not_isDone_empty
        · intro revision
          simp
      · refine ⟨List.nodup_nil, List.forall_mem_nil _, List.forall_mem_nil _, ?_,
          List.forall_mem_nil _, ?_, ?_⟩
        · rintro _ revision (⟨key, isDone⟩ | ⟨key, retry, held, _⟩)
          · exact absurd isDone not_isDone_empty
          · exact absurd held not_retried_empty
        · exact fun _ _ held => absurd held not_retried_empty
        · exact fun _ _ held => absurd held not_retried_empty
      · exact fun _ _ isDone => absurd isDone not_isDone_empty

/-! ## Every run -/

theorem discipline : Discipline (platform terms) System.disturb
    (routine : Entry → Thread (Op Row) Op.Answer _) (Steps terms) (Sound terms) (Rest terms)
    (fun result => ∀ stop, result = .error stop → Sensible terms stop) where
  kept thread before after moved sound := by
    cases thread with
    | zero => exact sound.move moved
    | succ thread => exact sound.others moved
  rests _ rest := rest.1
  undisturbed act system rest :=
    ⟨rest.1.others (others_disturb act system), (others_disturb act system).hand.trans rest.2⟩
  allowed act system _ := others_disturb act system
  starts entry _ rest := routine_obeys rest entry

theorem Traced.step (traced : Traced terms before) (moved : Steps terms thread before after) :
    Traced terms after := by
  cases thread with
  | zero =>
      exact ⟨traced.sound.move moved, traced.tried.move traced.sound.grounded moved,
        traced.applied.move moved⟩
  | succ thread =>
      exact ⟨traced.sound.others moved, traced.tried.others moved,
        traced.applied.others traced.sound.grounded moved⟩

theorem progress_le_of_step (traced : Traced terms before)
    (moved : Steps terms thread before after) :
    before.self.progress.attemptedRevision ≤ after.self.progress.attemptedRevision := by
  cases thread with
  | zero => exact progress_le_of_move traced.sound.grounded moved
  | succ thread =>
      have others : Others before after := moved
      rw [others.self]

theorem Traced.moves (traced : Traced terms before)
    (moves : Relation.ReflTransGen (fun before after => ∃ thread, Steps terms thread before after)
      before after) :
    Traced terms after ∧
      before.self.progress.attemptedRevision ≤ after.self.progress.attemptedRevision := by
  induction moves with
  | refl => exact ⟨traced, Nat.le_refl _⟩
  | tail _ moved induction =>
      rcases moved with ⟨thread, moved⟩
      exact ⟨induction.1.step moved, induction.2.trans (progress_le_of_step induction.1 moved)⟩

structure Ran (terms : Terms) (session : Reconciliation Row) : Prop where
  traced : Traced terms session.shared
  obeys : session.Obeys (platform terms) (Steps terms) (Sound terms) (Rest terms)
    (fun result => ∀ stop, result = .error stop → Sensible terms stop)

theorem Ran.run {after : Reconciliation Row} (ran : Ran terms session)
    (next : session.run (platform terms) System.disturb routine occasions = some after) :
    Ran terms after ∧ session.shared.self.progress.attemptedRevision ≤
      after.shared.self.progress.attemptedRevision := by
  rcases ran.obeys.run discipline next with ⟨obeys, moves⟩
  rcases ran.traced.moves moves with ⟨traced, grown⟩
  exact ⟨⟨traced, obeys⟩, grown⟩

theorem Setup.run_start (ran : setup.run terms occasions = some session) :
    ∃ start : Reconciliation Row, Ran terms start ∧
      start.run (platform terms) System.disturb routine occasions = some session ∧
      ∀ others, setup.run terms others =
        start.run (platform terms) System.disturb routine others := by
  unfold Setup.run at ran ⊢
  cases made : setup.system with
  | error error =>
      rw [made] at ran
      cases ran
  | ok system =>
      rw [made] at ran
      rcases Setup.created made with ⟨traced, empty⟩
      exact ⟨{ shared := system }, ⟨traced, .start discipline ⟨traced.sound, empty⟩⟩, ran,
        fun _ => rfl⟩

theorem Setup.ran (ran : setup.run terms occasions = some session) : Ran terms session := by
  rcases setup.run_start ran with ⟨start, begun, next, _⟩
  exact (begun.run next).1

def oneRow : Setup Item where
  calls := [(0, .batch [.insert ⟨1⟩])]

def acts (choices : List Choice) : List (Occasion Entry (System.Other Item) Choice) :=
  choices.map .act

def rowWritten : List (Occasion Entry (System.Other Item) Choice) :=
  [.start .runRound] ++
    acts [.health (some true), .time 1, .go, .go, .go, .go, .time 1, .go, .flag false] ++
    acts [.go, .go, .go, .health (some true), .go, .go, .answer (some (.ok ())) true, .go] ++
    acts [.time 1, .go, .go, .go, .go, .time 1, .go, .time 1, .go, .go, .go, .go, .go, .go, .go] ++
    acts [.time 1, .time 1, .go, .go, .health (some true)] ++ [.finish]

/-- The published checkpoint never goes back, and what was delivered up to it was asked of the
target or written over. -/
theorem attempted_revision_sound (setup : Setup Row)
    (earlier later : List (Occasion Entry (System.Other Row) Choice))
    (before after : Reconciliation Row) (reached : setup.run {} earlier = some before)
    (ran : setup.run {} (earlier ++ later) = some after) :
    before.shared.self.progress.attemptedRevision ≤
        after.shared.self.progress.attemptedRevision ∧
      ∀ revision ≤ after.shared.self.progress.attemptedRevision,
        ∀ change ∈ after.shared.deliveries, ∀ work, workOf change = some work →
          work.revision ≤ revision →
            Called after.shared.log work.key work.revision ∨
              Superseded after.shared.history work.key work.revision := by
  have traced := (setup.ran ran).traced
  refine ⟨?_, ?_⟩
  · rcases setup.run_start reached with ⟨start, _, first, all⟩
    have whole : before.run (platform {}) System.disturb routine later = some after := by
      rw [all, Session.run_append, first] at ran
      exact ran
    exact ((setup.ran reached).run whole).2
  · intro revision within change delivered work isWork reached
    exact traced.tried.handled delivered isWork
      (reached.trans (within.trans traced.sound.grounded.progress_le))

/-- The checkpoint reaches the row once it is written. -/
theorem attempted_revision_sound_written :
    ∃ after, oneRow.run {} rowWritten = some after ∧
      after.shared.self.progress.attemptedRevision = 1 ∧
      (0 ≤ after.shared.self.progress.attemptedRevision ∧
        ∀ revision ≤ after.shared.self.progress.attemptedRevision,
          ∀ change ∈ after.shared.deliveries, ∀ work, workOf change = some work →
            work.revision ≤ revision →
              Called after.shared.log work.key work.revision ∨
                Superseded after.shared.history work.key work.revision) := by
  have started : (oneRow.run {} []).isSome := by decide +kernel
  have reached : ((oneRow.run {} rowWritten).map
      (·.shared.self.progress.attemptedRevision)) = some 1 := by decide +kernel
  rcases Option.isSome_iff_exists.mp started with ⟨before, began⟩
  rcases Option.map_eq_some_iff.mp reached with ⟨after, ran, progress⟩
  have sound := attempted_revision_sound oneRow [] rowWritten before after began ran
  exact ⟨after, ran, progress, Nat.zero_le _, sound.2⟩

/-- Nothing is lost on the way from the table to the target: a row that the table holds was asked
of the target once the published checkpoint is past it. -/
theorem present_rows_attempted (setup : Setup Row)
    (occasions : List (Occasion Entry (System.Other Row) Choice)) (session : Reconciliation Row)
    (ran : setup.run {} occasions = some session) (key : Key) (row : Row) (revision : Nat)
    (present : session.shared.published.rows[key]? = some (row, revision))
    (reached : revision ≤ session.shared.self.progress.attemptedRevision) :
    Called session.shared.log key revision := by
  have traced := (setup.ran ran).traced
  have grounded := traced.sound.grounded
  have attempted := reached.trans grounded.progress_le
  have delivered := grounded.stream.checkpoint key row revision present
    (attempted.trans grounded.attempted_le)
  have handled := traced.tried.handled delivered rfl attempted
  rw [grounded.chronicle.consistent.keyed key row revision present] at handled
  exact handled.resolve_right (grounded.chronicle.not_superseded present)

theorem present_rows_attempted_written :
    ∃ session, oneRow.run {} rowWritten = some session ∧ Called session.shared.log [1] 1 := by
  have reached : ((oneRow.run {} rowWritten).map fun session =>
      (session.shared.published.rows[([1] : Key)]?,
        session.shared.self.progress.attemptedRevision)) = some (some (⟨1⟩, 1), 1) := by
    decide +kernel
  rcases Option.map_eq_some_iff.mp reached with ⟨session, ran, same⟩
  rw [Prod.mk.injEq] at same
  exact ⟨session, ran, present_rows_attempted oneRow rowWritten session ran [1] ⟨1⟩ 1 same.1
    same.2.ge⟩

omit [Keyed Row] in
theorem isDone_of_status {self : Reconciler Row} {row : Row} {status : Status}
    (reported : self.status key (some (row, revision)) = some status)
    (isDone : status.kind = .done) : IsDone self.statuses key revision := by
  unfold Reconciler.status at reported
  dsimp only at reported
  cases own : self.statuses[key]?.filter fun status =>
      status.id = revision ∧ status.operation = .update with
  | none =>
      rw [own] at reported
      cases reported
      cases isDone
  | some held =>
      rw [own] at reported
      cases reported
      rcases Option.filter_eq_some_iff.mp own with ⟨isHeld, met⟩
      exact ⟨held, isHeld, isDone, (of_decide_eq_true met).1⟩

/-- A row whose status is done is what the target was last given under its key. -/
theorem done_is_applied (setup : Setup Row)
    (occasions : List (Occasion Entry (System.Other Row) Choice)) (session : Reconciliation Row)
    (ran : setup.run {} occasions = some session) (key : Key) (row : Row) (revision : Nat)
    (present : session.shared.published.rows[key]? = some (row, revision)) (status : Status)
    (reported : session.shared.self.status key session.shared.published.rows[key]? = some status)
    (isDone : status.kind = .done) :
    ∃ work, lastOn key session.shared.log = some (.done work) ∧ work.key = key ∧
      work.revision = revision ∧ work.row = some row := by
  have traced := (setup.ran ran).traced
  rw [present] at reported
  rcases traced.applied key revision (isDone_of_status reported isDone) with
    superseded | ⟨work, last, same, genuine⟩
  · exact absurd superseded (traced.sound.grounded.chronicle.not_superseded present)
  · have isKey : work.key = key := congrArg Mutation.key same
    have isRevision : work.revision = revision := congrArg Mutation.revision same
    refine ⟨work, last, isKey, isRevision, ?_⟩
    cases isRow : work.row with
    | none =>
        have deleted : work.row.isNone = false := congrArg Mutation.deleted same
        rw [isRow] at deleted
        cases deleted
    | some given =>
        rw [← isKey, ← isRevision] at present
        rw [genuine.same given isRow row present]

/-- The row is done after the round, and the target has it. -/
theorem done_is_applied_written :
    ∃ session, oneRow.run {} rowWritten = some session ∧
      ∃ work, lastOn [1] session.shared.log = some (.done work) ∧ work.key = [1] ∧
        work.revision = 1 ∧ work.row = some (⟨1⟩ : Item) := by
  have reached : ((oneRow.run {} rowWritten).map fun session =>
      (session.shared.published.rows[([1] : Key)]?,
        session.shared.self.status [1] session.shared.published.rows[([1] : Key)]?)) =
      some (some (⟨1⟩, 1), some { Status.pending 1 .update with
        kind := .done
        updatedAt := some 1 }) := by
    decide +kernel
  rcases Option.map_eq_some_iff.mp reached with ⟨session, ran, same⟩
  rw [Prod.mk.injEq] at same
  exact ⟨session, ran, done_is_applied oneRow rowWritten session ran [1] ⟨1⟩ 1 same.1 _ same.2 rfl⟩

/-- An honest target's answer is never refused in a run in which no row in the hand is delivered
again. -/
theorem honest_batches_accepted (setup : Setup Row)
    (occasions : List (Occasion Entry (System.Other Row) Choice)) (session : Reconciliation Row)
    (ran : setup.run { honest := true, apart := true } occasions = some session) :
    ∀ result ∈ session.returned, result ≠ .error (.failed .invalidBatchResults) := by
  intro result member refused
  exact (setup.ran ran).obeys.returned result member _ refused rfl rfl rfl

/-- No update is duplicated in a run in which no row in the hand is delivered again: the queue has
no revision twice, none that is tried again, and none that is done but for a refresh. -/
theorem works_queued_once (setup : Setup Row)
    (occasions : List (Occasion Entry (System.Other Row) Choice)) (session : Reconciliation Row)
    (ran : setup.run { apart := true } occasions = some session) :
    let self := session.shared.self
    (self.pending.map (·.revision)).Nodup ∧ ∀ work ∈ self.pending,
      (∀ (key : Key) retry, self.retries.entries[key]? = some retry →
        work.revision ≠ retry.revision) ∧
      (work.refresh = false → ∀ key, ¬IsDone self.statuses key work.revision) := by
  have distinct := (setup.ran ran).traced.sound.distinct rfl
  exact ⟨distinct.once.of_append_left, fun work member =>
    ⟨fun key retry held => distinct.apart key retry held work member, distinct.fresh work member⟩⟩

def fourRows : Setup Item where
  calls := [(0, .batch [.insert ⟨1⟩, .insert ⟨2⟩, .insert ⟨3⟩, .insert ⟨4⟩])]

/-- The first work in the queue is asked of the target, and the answer is recorded. -/
def workAnswered (reply : Except String Unit) :
    List (Occasion Entry (System.Other Item) Choice) :=
  acts [.go, .go, .go, .health (some true), .go, .go, .answer (some reply) false, .go] ++
    acts [.time 1, .go, .go, .go]

/-- A round over four rows after the target has refused the first and taken the second. -/
def halfWritten : List (Occasion Entry (System.Other Item) Choice) :=
  rowWritten.take 10 ++ workAnswered (.error "refused") ++ workAnswered (.ok ())

/-- Two works are queued while one revision waits to be tried again and another is done. -/
theorem works_queued_once_halfWritten :
    ∃ session, fourRows.run { apart := true } halfWritten = some session ∧
      let self := session.shared.self
      self.pending.map (fun work => (work.revision, work.refresh)) = [(3, false), (4, false)] ∧
      self.retries.entries[([1] : Key)]?.map (·.revision) = some 1 ∧ IsDone self.statuses [2] 2 ∧
      (self.pending.map (·.revision)).Nodup ∧ ∀ work ∈ self.pending,
        (∀ (key : Key) retry, self.retries.entries[key]? = some retry →
          work.revision ≠ retry.revision) ∧
        (work.refresh = false → ∀ key, ¬IsDone self.statuses key work.revision) := by
  have reached : ((fourRows.run { apart := true } halfWritten).map fun session =>
      (session.shared.self.pending.map (fun work => (work.revision, work.refresh)),
        session.shared.self.retries.entries[([1] : Key)]?.map (·.revision),
        session.shared.self.statuses[([2] : Key)]?)) =
      some ([(3, false), (4, false)], some 1, some { Status.pending 2 .update with
        kind := .done
        updatedAt := some 1 }) := by
    decide +kernel
  rcases Option.map_eq_some_iff.mp reached with ⟨session, ran, same⟩
  rw [Prod.mk.injEq, Prod.mk.injEq] at same
  rcases same with ⟨pending, retries, statuses⟩
  exact ⟨session, ran, pending, retries, ⟨_, statuses, rfl, rfl⟩,
    works_queued_once fourRows halfWritten session ran⟩

def batchWritten : List (Occasion Entry (System.Other Item) Choice) :=
  [.start .runRound] ++
    acts [.health (some true), .time 1, .go, .go, .go, .go, .time 1, .go, .flag true] ++
    acts [.go, .time 1, .go, .time 1, .go, .go, .go, .go, .go] ++
    acts [.go, .health (some true), .go, .go] ++
    acts [.go, .go, .health (some true), .go, .go, .answers (some [⟨[1], 1, .ok ()⟩]) [0], .go] ++
    acts [.time 1, .go, .go, .go, .time 1, .go, .go, .go, .time 1, .time 1, .go, .go] ++
    acts [.health (some true)] ++ [.finish]

theorem honest_batches_accepted_written :
    ∃ session, oneRow.run { honest := true, apart := true } batchWritten = some session ∧
      session.returned.length = 1 ∧
      ∀ result ∈ session.returned, result ≠ .error (.failed .invalidBatchResults) := by
  have reached : ((oneRow.run { honest := true, apart := true } batchWritten).map
      (·.returned.length)) = some 1 := by decide +kernel
  rcases Option.map_eq_some_iff.mp reached with ⟨session, ran, returned⟩
  exact ⟨session, ran, returned, honest_batches_accepted oneRow batchWritten session ran⟩

def tenMinutes : Nat := 600 * 10 ^ 9

/-- The loop takes the row in just as the stream grows too old: the rest of the changes are a
marker and the row again. The target then answers the batch of both with the one result. -/
def takenTwice : List (Occasion Entry (System.Other Item) Choice) :=
  [.start .run] ++
    acts [.go, .go, .go, .time 0, .flag true] ++
    acts [.time tenMinutes, .go, .time (tenMinutes + 1), .go] ++
    [.finish, .start .run] ++
    acts [.go, .go, .go, .time (tenMinutes + 2), .health (some true), .time (tenMinutes + 2)] ++
    acts [.go, .go, .go, .flag true, .go] ++
    acts [.time (tenMinutes + 2), .go, .time (tenMinutes + 2), .go, .go, .go, .go, .go] ++
    acts [.go, .health (some true), .go, .go] ++
    acts [.go, .go, .go, .health (some true), .go, .go] ++
    acts [.answers (some [⟨[1], 1, .ok ()⟩]) [0], .health (some true)] ++ [.finish]

/-- The honest answer is refused, and both works stay in the queue. -/
theorem honest_batch_refused :
    ∃ session, oneRow.run { honest := true } takenTwice = some session ∧
      .error (.failed .invalidBatchResults) ∈ session.returned ∧
      session.shared.self.pending.map (fun work => (work.key, work.revision)) =
        [([1], 1), ([1], 1)] := by
  have reached : ((oneRow.run { honest := true } takenTwice).map fun session =>
      (session.returned, session.shared.self.pending.map fun work => (work.key, work.revision))) =
      some ([.error (.failed .invalidBatchResults), .ok none], [([1], 1), ([1], 1)]) := by
    decide +kernel
  rcases Option.map_eq_some_iff.mp reached with ⟨session, ran, same⟩
  rw [Prod.mk.injEq] at same
  refine ⟨session, ran, ?_, same.2⟩
  rw [same.1]
  exact .head _

end Runs

end FlowSdn.Reconcile
