import FlowSdn.Reconcile.Moves

/-! # No work is queued twice

If no row in the hand is delivered again by a resync, the works in the queue have distinct
revisions, and what is tried again or refreshed is not in the queue.
-/

namespace FlowSdn.Reconcile

open OrderedMap Tables Concurrent

section Distinct

variable {Row : Type} [Keyed Row]

/-- The reconciler has done with a revision: a row is done, or its failure is tried again. -/
def Reconciler.Settled (self : Reconciler Row) (revision : Nat) : Prop :=
  (∃ key, IsDone self.statuses key revision) ∨
    ∃ (key : Key) (retry : Retry), self.retries.entries[key]? = some retry ∧
      retry.revision = revision

structure Distinct (system : System Row) : Prop where
  once : (system.self.pending.map (·.revision) ++ stamps system.hand).Nodup
  handed : ∀ revision ∈ stamps system.hand, system.self.stream.Passed revision
  queued : ∀ work ∈ system.self.pending, system.self.stream.Passed work.revision
  settled : (∀ revision, .resync revision ∉ system.hand) → ∀ revision,
    system.self.Settled revision →
      system.self.stream.Passed revision ∧ revision ∉ stamps system.hand
  fresh : ∀ work ∈ system.self.pending, work.refresh = false → ∀ key,
    ¬IsDone system.self.statuses key work.revision
  apart : ∀ (key : Key) retry, system.self.retries.entries[key]? = some retry →
    ∀ work ∈ system.self.pending, work.revision ≠ retry.revision
  undone : ∀ (key : Key) retry, system.self.retries.entries[key]? = some retry →
    ∀ other, ¬IsDone system.self.statuses other retry.revision

omit [Keyed Row] in
theorem Distinct.others {before after : System Row} (distinct : Distinct before)
    (self : after.self = before.self) (hand : after.hand = before.hand) : Distinct after := by
  refine ⟨?_, ?_, ?_, ?_, ?_, ?_, ?_⟩ <;> (try rw [hand]) <;> rw [self]
  · exact distinct.once
  · exact distinct.handed
  · exact distinct.queued
  · exact distinct.settled
  · exact distinct.fresh
  · exact distinct.apart
  · exact distinct.undone

theorem Grounded.not_present {system : System Row} (grounded : Grounded system) {max now : Nat}
    (free : system.overlaps max now = false) (positive : max ≠ 0)
    (marked : (system.watched.table.attend system.self.stream.id now).1 = true) {revision : Nat}
    (inHand : revision ∈ stamps system.hand) :
    ¬∃ (key : Key) (row : Row), system.published.rows[key]? = some (row, revision) := by
  rintro ⟨key, row, held⟩
  have present := (grounded.chronicle.present key row revision held).1
  rcases mem_stamps.mp inHand with ⟨change, member, stamped⟩
  have genuine := (grounded.hand change member).1
  cases change with
  | resync number => cases stamped
  | delete other number =>
      cases stamped
      cases grounded.chronicle.unique _ genuine _ present rfl
  | insert other number =>
      cases stamped
      have same := grounded.chronicle.unique _ genuine.noted _ present rfl
      have isKey : Keyed.primaryKey other = key := congrArg Mutation.key same
      have overlap : system.overlaps max now = true := by
        simp only [System.overlaps, marked, Bool.and_true, Bool.and_eq_true, bne_iff_ne, ne_eq,
          positive, not_false_eq_true, true_and, List.any_eq_true]
        refine ⟨.insert other revision, member, ?_⟩
        rw [stillThere, isKey, held]
        exact beq_self_eq_true _
      rw [free] at overlap
      cases overlap

section Moves

variable {terms : Terms} {system : System Row} (distinct : Distinct system)

include distinct

omit [Keyed Row] in
theorem Distinct.fewer {self : Reconciler Row} (stream : self.stream = system.self.stream)
    (pending : self.pending.Sublist system.self.pending ∨
      self.pending.Perm system.self.pending)
    (done : ∀ key revision, IsDone self.statuses key revision →
      IsDone system.self.statuses key revision)
    (retries : ∀ (key : Key) retry, self.retries.entries[key]? = some retry →
      system.self.retries.entries[key]? = some retry) :
    Distinct (system.amended fun _ => self) := by
  have subset : ∀ work ∈ self.pending, work ∈ system.self.pending := by
    intro work member
    rcases pending with sublist | perm
    · exact sublist.subset member
    · exact perm.mem_iff.mp member
  have settled : ∀ revision, self.Settled revision → system.self.Settled revision := by
    rintro revision (⟨key, isDone⟩ | ⟨key, retry, held, same⟩)
    · exact .inl ⟨key, done key revision isDone⟩
    · exact .inr ⟨key, retry, retries key retry held, same⟩
  refine ⟨?_, ?_, ?_, ?_, ?_, ?_, ?_⟩
  · rcases pending with sublist | perm
    · exact distinct.once.sublist ((sublist.map _).append (.refl _))
    · exact ((perm.map _).append_right _).nodup_iff.mpr distinct.once
  · exact stream ▸ distinct.handed
  · exact fun work member => stream ▸ distinct.queued work (subset work member)
  · intro unmarked revision isSettled
    exact stream ▸ distinct.settled unmarked revision (settled revision isSettled)
  · exact fun work member again key isDone =>
      distinct.fresh work (subset work member) again key (done key _ isDone)
  · exact fun key retry held work member =>
      distinct.apart key retry (retries key retry held) work (subset work member)
  · exact fun key retry held other isDone =>
      distinct.undone key retry (retries key retry held) other (done other _ isDone)

theorem Distinct.drain (grounded : Grounded system) {max now : Nat}
    (idle : system.self.pending = []) (free : system.overlaps max now = false) :
    Distinct (system.drained max now) := by
  have delivery := Table.drain_delivery grounded.stream grounded.chronicle grounded.buried max now
  have cases := (Table.drain_cases grounded.stream grounded.chronicle grounded.buried max now
    grounded.unmarked).2
  -- what is in the hand is passed by the drain, whether it goes on or starts again
  have kept : ∀ revision ∈ stamps system.hand,
      (system.drained max now).self.stream.Passed revision ∧
        revision ∉ stamps (system.watched.table.drain system.self.stream max now).1 := by
    intro revision inHand
    rcases cases with resumed | ⟨positive, marked, restarted⟩
    · exact resumed.passed revision (distinct.handed revision inHand)
    · have gone := grounded.not_present free positive marked inHand
      refine ⟨⟨?_, fun waits => gone (restarted.present revision (.inr waits))⟩,
        fun again => gone (restarted.present revision (.inl again))⟩
      have within := (distinct.handed revision inHand).1.trans grounded.stream.cursor_le
      exact within.trans_eq restarted.cursor.symm
  have nodup := distinct.once
  rw [idle, List.map_nil, List.nil_append] at nodup
  refine ⟨?_, ?_, ?_, ?_, ?_, ?_, distinct.undone⟩
  · change (system.self.pending.map _ ++ stamps (system.hand ++ _)).Nodup
    rw [idle, List.map_nil, List.nil_append, stamps_append]
    refine List.nodup_append.mpr ⟨nodup, delivery.once, ?_⟩
    rintro revision inHand _ again rfl
    exact (kept revision inHand).2 again
  · intro revision member
    change revision ∈ stamps (system.hand ++ _) at member
    rw [stamps_append] at member
    rcases List.mem_append.mp member with old | new
    · exact (kept revision old).1
    · exact delivery.passed revision new
  · exact fun work member => absurd (idle ▸ member : work ∈ []) List.not_mem_nil
  · intro unmarked revision isSettled
    have before := distinct.settled
      (fun number member => unmarked number (List.mem_append_left _ member)) revision isSettled
    rcases cases with resumed | ⟨_, _, restarted⟩
    · rcases resumed.passed revision before.1 with ⟨passed, fresh⟩
      refine ⟨passed, ?_⟩
      change revision ∉ stamps (system.hand ++ _)
      rw [stamps_append]
      exact fun member => (List.mem_append.mp member).elim before.2 fresh
    · rcases restarted.marked with ⟨number, member⟩
      exact absurd (List.mem_append_right _ member) (unmarked number)
  · exact fun work member => absurd (idle ▸ member : work ∈ []) List.not_mem_nil
  · exact fun _ _ _ work member => absurd (idle ▸ member : work ∈ []) List.not_mem_nil

theorem Distinct.takeIn (idle : system.self.pending = []) : Distinct system.tookIn := by
  have enqueued := Reconciler.enqueued_takeIn system.self system.hand
  have stream : system.tookIn.self.stream = system.self.stream := enqueued.stream
  have pending : system.tookIn.self.pending = Reconciler.changeWorks system.hand := by
    have whole := enqueued.pending
    rwa [idle, List.nil_append] at whole
  have perm := Reconciler.perm_revisions_changeWorks system.hand
  have done : ∀ key revision, IsDone system.tookIn.self.statuses key revision →
      IsDone system.self.statuses key revision ∧ ∀ number, .resync number ∉ system.hand := by
    rintro key revision ⟨status, held, isDone⟩
    change (system.self.takeIn system.hand).statuses[key]? = some status at held
    have unmarked : ∀ number, .resync number ∉ system.hand := by
      intro number member
      rw [(enqueued.cleared ⟨number, member⟩).1] at held
      cases held.symm.trans Std.ExtTreeMap.getElem?_empty
    refine ⟨?_, unmarked⟩
    rcases enqueued.statuses with same | empty
    · exact ⟨status, same ▸ held, isDone⟩
    · rw [empty] at held
      cases held.symm.trans Std.ExtTreeMap.getElem?_empty
  have retries : ∀ (key : Key) retry, system.tookIn.self.retries.entries[key]? = some retry →
      system.self.retries.entries[key]? = some retry ∧ ∀ number, .resync number ∉ system.hand := by
    intro key retry held
    refine ⟨enqueued.retries key retry held, ?_⟩
    intro number member
    cases held.symm.trans ((enqueued.cleared ⟨number, member⟩).2 key)
  have settled : ∀ revision, system.tookIn.self.Settled revision →
      system.self.stream.Passed revision ∧ revision ∉ stamps system.hand := by
    rintro revision (⟨key, isDone⟩ | ⟨key, retry, held, same⟩)
    · exact distinct.settled (done key revision isDone).2 revision
        (.inl ⟨key, (done key revision isDone).1⟩)
    · exact distinct.settled (retries key retry held).2 revision
        (.inr ⟨key, retry, (retries key retry held).1, same⟩)
  have stamped : ∀ work ∈ system.tookIn.self.pending, work.revision ∈ stamps system.hand := by
    intro work member
    rw [pending] at member
    exact perm.mem_iff.mp (List.mem_map_of_mem member)
  refine ⟨?_, List.forall_mem_nil _, ?_, ?_, ?_, ?_, ?_⟩
  · have nodup := distinct.once
    rw [idle, List.map_nil, List.nil_append] at nodup
    rw [pending]
    change (_ ++ []).Nodup
    rw [List.append_nil]
    exact perm.nodup_iff.mpr nodup
  · intro work member
    rw [stream]
    exact distinct.handed work.revision (stamped work member)
  · intro _ revision isSettled
    rw [stream]
    exact ⟨(settled revision isSettled).1, List.not_mem_nil⟩
  · intro work member _ key isDone
    exact (settled work.revision (.inl ⟨key, isDone⟩)).2 (stamped work member)
  · intro key retry held work member same
    exact (settled work.revision (.inr ⟨key, retry, held, same.symm⟩)).2 (stamped work member)
  · intro key retry held other isDone
    exact distinct.undone key retry (retries key retry held).1 other (done other _ isDone).1

omit [Keyed Row] in
theorem Distinct.push {work : Work Row} (empty : system.hand = [])
    (passed : system.self.stream.Passed work.revision)
    (new : ∀ other ∈ system.self.pending, other.revision ≠ work.revision)
    (fresh : work.refresh = false → ∀ key, ¬IsDone system.self.statuses key work.revision)
    (apart : ∀ (key : Key) retry, system.self.retries.entries[key]? = some retry →
      work.revision ≠ retry.revision) : Distinct (system.amended (·.pushWork work)) := by
  have members : ∀ other ∈ (system.self.pushWork work).pending,
      other ∈ system.self.pending ∨ other = work := by
    intro other member
    rcases List.mem_append.mp member with old | last
    · exact .inl old
    · exact .inr (List.mem_singleton.mp last)
  have nodup := distinct.once
  rw [empty] at nodup
  change (_ ++ []).Nodup at nodup
  rw [List.append_nil] at nodup
  refine ⟨?_, distinct.handed, ?_, distinct.settled, ?_, ?_, distinct.undone⟩
  · change ((system.self.pending ++ [work]).map _ ++ stamps system.hand).Nodup
    rw [empty]
    change (_ ++ []).Nodup
    rw [List.append_nil, List.map_append]
    refine List.nodup_append.mpr ⟨nodup, List.nodup_singleton _, ?_⟩
    rintro revision old _ last rfl
    rcases List.mem_map.mp old with ⟨other, member, isRevision⟩
    exact new other member (isRevision.trans (List.mem_singleton.mp last))
  · intro other member
    rcases members other member with old | rfl
    · exact distinct.queued other old
    · exact passed
  · intro other member again
    rcases members other member with old | rfl
    · exact distinct.fresh other old again
    · exact fresh again
  · intro key retry held other member
    rcases members other member with old | rfl
    · exact distinct.apart key retry held other old
    · exact apart key retry held

theorem Distinct.record (grounded : Grounded system) {work : Work Row} {rest : List (Work Row)}
    {result : Except String Unit} {after : Reconciler Row}
    (first : system.self.pending = work :: rest)
    (recorded : Recorded system.self work result after) :
    Distinct (system.amended fun _ => after.popWork) := by
  have inside : work ∈ system.self.pending := by
    rw [first]
    exact .head _
  have pending : after.popWork.pending = rest := by
    rw [Reconciler.pending_popWork, recorded.pending, first]
    rfl
  have queued : ∀ other ∈ after.popWork.pending, other ∈ system.self.pending := by
    intro other member
    rw [pending] at member
    rw [first]
    exact .tail _ member
  have nodup := distinct.once
  rw [first, List.map_cons, List.cons_append] at nodup
  rcases List.nodup_cons.mp nodup with ⟨new, others⟩
  have other : ∀ other ∈ after.popWork.pending, other.revision ≠ work.revision := by
    intro other member same
    rw [pending] at member
    exact new (List.mem_append_left _ (same ▸ List.mem_map_of_mem member))
  have done : ∀ key revision, IsDone after.popWork.statuses key revision →
      key ≠ work.key ∧ IsDone system.self.statuses key revision ∨
        revision = work.revision ∧ result = .ok () := by
    intro key revision isDone
    rw [Reconciler.statuses_popWork] at isDone
    rcases recorded.done key revision isDone with earlier | ⟨_, isRevision, _, ok⟩
    · exact .inl earlier
    · exact .inr ⟨isRevision, ok⟩
  have retries : ∀ (key : Key) retry, after.popWork.retries.entries[key]? = some retry →
      system.self.retries.entries[key]? = some retry ∨
        retry.revision = work.revision ∧ result ≠ .ok () := by
    intro key retry held
    rw [Reconciler.retries_popWork] at held
    rcases recorded.retries key retry held with ⟨_, earlier⟩ | ⟨_, _, same, _, failed⟩
    · exact .inl earlier
    · exact .inr ⟨congrArg Mutation.revision same, failed⟩
  have stream : after.popWork.stream = system.self.stream :=
    after.stream_popWork.trans recorded.stream
  refine ⟨?_, ?_, ?_, ?_, ?_, ?_, ?_⟩
  · change (after.popWork.pending.map _ ++ _).Nodup
    rw [pending]
    exact others
  · exact stream ▸ distinct.handed
  · exact fun other member => stream ▸ distinct.queued other (queued other member)
  · intro unmarked revision isSettled
    have current : system.self.stream.Passed work.revision ∧ work.revision ∉ stamps system.hand :=
      ⟨distinct.queued work inside, fun member => new (List.mem_append_right _ member)⟩
    change after.popWork.stream.Passed revision ∧ _
    rw [stream]
    rcases isSettled with ⟨key, isDone⟩ | ⟨key, retry, held, same⟩
    · rcases done key revision isDone with ⟨_, earlier⟩ | ⟨rfl, _⟩
      · exact distinct.settled unmarked revision (.inl ⟨key, earlier⟩)
      · exact current
    · rcases retries key retry held with earlier | ⟨isRevision, _⟩
      · exact distinct.settled unmarked revision (.inr ⟨key, retry, earlier, same⟩)
      · rw [← same, isRevision]
        exact current
  · intro one member again key isDone
    rcases done key one.revision isDone with ⟨_, earlier⟩ | ⟨same, _⟩
    · exact distinct.fresh one (queued one member) again key earlier
    · exact other one member same
  · intro key retry held one member
    rcases retries key retry held with earlier | ⟨isRevision, _⟩
    · exact distinct.apart key retry earlier one (queued one member)
    · rw [isRevision]
      exact other one member
  · intro key retry held one isDone
    rcases retries key retry held with earlier | ⟨isRevision, failed⟩
    · rcases done one retry.revision isDone with ⟨_, old⟩ | ⟨same, _⟩
      · exact distinct.undone key retry earlier one old
      · exact distinct.apart key retry earlier work inside same.symm
    · rcases done one retry.revision isDone with ⟨different, old⟩ | ⟨_, ok⟩
      · -- the revision is that of the work, which is about another key
        have noted := grounded.done one retry.revision old
        have same := grounded.chronicle.unique _ noted _ (grounded.queue work inside).noted
          isRevision
        exact different (congrArg Mutation.key same)
      · exact failed ok

theorem Distinct.move (grounded : Grounded system) (isApart : terms.apart = true)
    {after : System Row} (moved : Move terms system after) : Distinct after := by
  have unchanged : ∀ {next : Reconciler Row}, next.stream = system.self.stream →
      next.pending = system.self.pending → next.statuses = system.self.statuses →
      next.retries = system.self.retries → Distinct (system.amended fun _ => next) := by
    intro next stream pending statuses retries
    exact distinct.fewer stream (.inr (pending ▸ .refl _)) (fun _ _ done => statuses ▸ done)
      fun _ _ held => retries ▸ held
  cases moved with
  | look => exact distinct
  | drain max now idle free => exact distinct.drain grounded idle (free isApart)
  | enqueue idle =>
      have published : Distinct
          (system.tookIn.amended fun _ => system.tookIn.self.publishProgress) :=
        (distinct.takeIn idle).fewer rfl (.inr (.refl _)) (fun _ _ done => done)
          fun _ _ held => held
      exact published
  | ack revision now => exact distinct.others rfl rfl
  | request pruneRequested => exact distinct.others rfl rfl
  | publish _ => exact unchanged rfl rfl rfl rfl
  | refresh next genuine => exact unchanged rfl rfl rfl rfl
  | prune next resyncRequired => exact unchanged rfl rfl rfl rfl
  | retry key retry work found mutation again genuine empty =>
      have isRevision : work.revision = retry.revision := congrArg Mutation.revision mutation
      have taken : Distinct (system.amended (·.takeRetry key)) :=
        distinct.fewer rfl (.inr (.refl _)) (fun _ _ done => done)
          fun _ _ held => (RetryQueue.getElem?_of_remove held).2
      have unmarked : ∀ revision, .resync revision ∉ system.hand := by
        rw [empty]
        exact fun _ => List.not_mem_nil
      refine taken.push empty ?_ ?_ ?_ ?_
      · rw [isRevision]
        exact (distinct.settled unmarked _ (.inr ⟨key, retry, found, rfl⟩)).1
      · rw [isRevision]
        exact distinct.apart key retry found
      · rw [isRevision]
        exact fun _ => distinct.undone key retry found
      · intro other second held same
        rcases RetryQueue.getElem?_of_remove held with ⟨different, kept⟩
        have first := grounded.retries key retry found
        have last := grounded.retries other second kept
        have equal := grounded.chronicle.unique _ first.2.1 _ last.2.1 (isRevision.symm.trans same)
        have keys : retry.key = second.key := congrArg Mutation.key equal
        exact different (last.1.symm.trans (keys.symm.trans first.1))
  | abandon key =>
      exact distinct.fewer rfl (.inr (.refl _)) (fun _ _ done => (isDone_erase done).2)
        fun _ _ held => (RetryQueue.getElem?_of_remove held).2
  | revisit work genuine again alone done empty =>
      have unmarked : ∀ revision, .resync revision ∉ system.hand := by
        rw [empty]
        exact fun _ => List.not_mem_nil
      refine distinct.push empty (distinct.settled unmarked _ (.inl ⟨_, done⟩)).1 ?_ ?_ ?_
      · intro other member same
        exact distinct.fresh other member (alone other member) work.key (same ▸ done)
      · intro notAgain
        rw [again] at notAgain
        cases notAgain
      · intro key retry held same
        exact distinct.undone key retry held work.key (same ▸ done)
  | discard work rest first settled =>
      refine distinct.fewer (system.self.dropStatus work.key).stream_popWork (.inl ?_) ?_ ?_
      · rw [Reconciler.pending_popWork]
        exact List.tail_sublist _
      · intro key revision done
        rw [Reconciler.statuses_popWork] at done
        exact (isDone_erase done).2
      · intro key retry held
        rwa [Reconciler.retries_popWork] at held
  | announce works =>
      exact distinct.fewer rfl (.inr (.refl _)) (fun _ _ done => (isDone_attempt done).1)
        fun _ _ held => held
  | attempt works took _ _ _ => exact distinct.others rfl rfl
  | record work rest result now round after first settled succeeded recorded =>
      exact distinct.record grounded first (recorded_recordResult recorded)
  | prune_target desired absent => exact distinct.others rfl rfl
  | sort =>
      exact distinct.fewer rfl (.inr (List.perm_insertionSort _ _)) (fun _ _ done => done)
        fun _ _ held => held

end Moves

end Distinct

end FlowSdn.Reconcile
