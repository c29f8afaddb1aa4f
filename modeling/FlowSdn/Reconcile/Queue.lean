import FlowSdn.Reconcile.State
import FlowSdn.Tables.Delivery

/-! # The queue of work

What the reconciler's own functions leave as it is, and how its queue, its retries and its counts
change. A checkpoint never reaches a first attempt that is queued.
-/

namespace FlowSdn.Reconcile

open OrderedMap Tables

/-! ## Counts -/

/-- The counts are those of the first attempts in the queue. -/
def Counted (counts : BTreeMap Nat Nat) (pending : List (Work Row)) : Prop :=
  ∀ revision : Nat, (counts[revision]?).getD 0 =
    pending.countP fun work => work.firstAttempt && work.revision == revision

theorem getD_countUp (counts : BTreeMap Nat Nat) (revision other : Nat) :
    ((countUp counts revision)[other]?).getD 0 =
      (counts[other]?).getD 0 + if revision = other then 1 else 0 := by
  unfold countUp
  by_cases same : revision = other
  · subst same
    rw [Std.ExtTreeMap.getElem?_insert_self, if_pos rfl]
    rfl
  · rw [getElem?_insert_of_ne same, if_neg same]
    rfl

theorem getD_countDown (counts : BTreeMap Nat Nat) (revision other : Nat) :
    ((countDown counts revision)[other]?).getD 0 =
      (counts[other]?).getD 0 - if revision = other then 1 else 0 := by
  unfold countDown
  by_cases same : revision = other
  · subst same
    rw [if_pos rfl]
    cases found : counts[revision]? with
    | none => simp [found]
    | some count =>
        dsimp only
        split
        · rename_i last
          rw [Std.ExtTreeMap.getElem?_erase_self]
          exact last.symm
        · rw [Std.ExtTreeMap.getElem?_insert_self]
          rfl
  · rw [if_neg same]
    cases found : counts[revision]? with
    | none => rfl
    | some count =>
        dsimp only
        split
        · rw [getElem?_erase_of_ne same]
          rfl
        · rw [getElem?_insert_of_ne same]
          rfl

section Pending

variable {Row : Type} {counts : BTreeMap Nat Nat} {pending : List (Work Row)} {work : Work Row}

theorem Counted.push (counted : Counted counts pending) :
    Counted (if work.firstAttempt then countUp counts work.revision else counts)
      (pending ++ [work]) := by
  intro revision
  rw [List.countP_append, List.countP_singleton, ← counted revision]
  cases first : work.firstAttempt with
  | false => simp
  | true => simp [getD_countUp, beq_iff_eq]

theorem Counted.pop (counted : Counted counts (work :: pending)) :
    Counted (if work.firstAttempt then countDown counts work.revision else counts) pending := by
  intro revision
  have whole := counted revision
  rw [List.countP_cons] at whole
  cases first : work.firstAttempt with
  | false => simpa [first] using whole
  | true =>
      rw [first] at whole
      rw [if_pos rfl, getD_countDown, whole]
      by_cases same : work.revision = revision
      · simp [same]
      · simp [same]

theorem Counted.perm {other : List (Work Row)} (counted : Counted counts pending)
    (perm : other.Perm pending) : Counted counts other := by
  intro revision
  rw [perm.countP_eq]
  exact counted revision

theorem Counted.mem (counted : Counted counts pending) (member : work ∈ pending)
    (first : work.firstAttempt = true) : work.revision ∈ counts := by
  have some : 0 < pending.countP fun other =>
      other.firstAttempt && other.revision == work.revision :=
    List.countP_pos_iff.mpr ⟨work, member, by simp [first]⟩
  rw [← counted work.revision] at some
  rw [← Std.ExtTreeMap.isSome_getElem?_iff_mem]
  cases found : counts[work.revision]? with
  | none =>
      rw [found] at some
      cases some
  | some count => rfl

end Pending

namespace RetryQueue

variable {queue : RetryQueue} {key : Key} {retry : Retry}

theorem entries_remove (key : Key) : (queue.remove key).entries = queue.entries.erase key := by
  unfold remove
  cases found : queue.entries[key]? with
  | some old => rfl
  | none =>
      apply Std.ExtTreeMap.ext_getElem?
      intro other
      by_cases same : key = other
      · rw [← same, Std.ExtTreeMap.getElem?_erase_self]
        exact found
      · rw [getElem?_erase_of_ne same]

theorem entries_insert (retry : Retry) :
    (queue.insert retry).entries = (queue.entries.erase retry.key).insert retry.key retry := by
  unfold insert
  dsimp only
  rw [entries_remove]

theorem getElem?_of_remove {other : Key} (held : (queue.remove key).entries[other]? = some retry) :
    other ≠ key ∧ queue.entries[other]? = some retry := by
  rw [entries_remove, getElem?_erase_eq_some_iff] at held
  exact ⟨held.1.symm, held.2⟩

theorem getElem?_of_insert {other : Retry}
    (held : (queue.insert retry).entries[key]? = some other) :
    key = retry.key ∧ other = retry ∨ key ≠ retry.key ∧ queue.entries[key]? = some other := by
  rw [entries_insert, getElem?_insert_eq_some_iff, getElem?_erase_eq_some_iff] at held
  exact held.imp (fun new => ⟨new.1.symm, new.2.symm⟩) fun old => ⟨old.1.symm, old.2.2⟩

theorem due_eq_some {now : Nat} (isDue : queue.due now = some (key, retry)) :
    queue.entries[key]? = some retry := by
  rcases Option.bind_eq_some_iff.mp isDue with ⟨first, _, found⟩
  rcases Option.map_eq_some_iff.mp found with ⟨entry, held, same⟩
  cases same
  exact held

end RetryQueue

namespace Reconciler

variable {Row : Type} (self : Reconciler Row)

@[simp] theorem stream_popWork : self.popWork.stream = self.stream := by
  unfold popWork
  split <;> rfl

@[simp] theorem statuses_popWork : self.popWork.statuses = self.statuses := by
  unfold popWork
  split <;> rfl

@[simp] theorem retries_popWork : self.popWork.retries = self.retries := by
  unfold popWork
  split <;> rfl

@[simp] theorem refresh_popWork : self.popWork.refresh = self.refresh := by
  unfold popWork
  split <;> rfl

@[simp] theorem attemptedRevision_popWork :
    self.popWork.attemptedRevision = self.attemptedRevision := by
  unfold popWork
  split <;> rfl

@[simp] theorem progress_popWork : self.popWork.progress = self.progress := by
  unfold popWork
  split <;> rfl

@[simp] theorem pending_popWork : self.popWork.pending = self.pending.tail := by
  unfold popWork
  split <;> rename_i isPending
  · rw [isPending]
    rfl
  · rw [isPending]
    rfl

variable {self}

theorem counted_popWork (counted : Counted self.pendingFirstAttempts self.pending) :
    Counted self.popWork.pendingFirstAttempts self.popWork.pending := by
  unfold popWork
  split
  · exact counted
  · rename_i work rest isPending
    rw [isPending] at counted
    exact counted.pop

theorem counted_pushWork (counted : Counted self.pendingFirstAttempts self.pending)
    (work : Work Row) :
    Counted (self.pushWork work).pendingFirstAttempts (self.pushWork work).pending :=
  counted.push

/-- The checkpoint is delivered, and no first attempt in the queue is reached by it that was not
reached before. -/
theorem attemptedRevision_publishProgress_le
    (delivered : self.attemptedRevision ≤ self.stream.delivered) :
    self.publishProgress.attemptedRevision ≤ self.stream.delivered := by
  have checkpointed : self.checkpoint ≤ self.stream.delivered := by
    unfold checkpoint
    split
    · exact Nat.min_le_right _ _
    · exact Nat.le_refl _
  exact Nat.max_le.mpr ⟨delivered, checkpointed⟩

theorem not_reached_of_publishProgress (counted : Counted self.pendingFirstAttempts self.pending)
    {work : Work Row} (member : work ∈ self.pending) (first : work.firstAttempt = true)
    (reached : work.revision ≤ self.publishProgress.attemptedRevision) :
    work.revision ≤ self.attemptedRevision := by
  rcases le_max_iff.mp reached with before | now
  · exact before
  · have inside := counted.mem member first
    unfold checkpoint at now
    rw [Std.ExtTreeMap.head?_keys] at now
    cases least : self.pendingFirstAttempts.minKey? with
    | none =>
        rw [Std.ExtTreeMap.minKey?_eq_none_iff] at least
        rw [least] at inside
        exact absurd inside Std.ExtTreeMap.not_mem_empty
    | some revision =>
        rw [least] at now
        have below := Nat.isLE_compare.mp
          (Std.ExtTreeMap.minKey?_le_of_mem inside (Option.get_of_eq_some _ least))
        dsimp only at now
        omega

/-! ## Changes taken in -/

variable [Keyed Row] {changes : List (Change Row)}

/-- What taking changes in does to the rest of the state before they are queued. -/
structure Prepared (before after : Reconciler Row) : Prop where
  stream : after.stream = before.stream
  pending : after.pending = before.pending
  pendingFirstAttempts : after.pendingFirstAttempts = before.pendingFirstAttempts
  attemptedRevision : after.attemptedRevision = before.attemptedRevision
  progress : after.progress = before.progress
  statuses : after.statuses = before.statuses ∨ after.statuses = ∅
  retries : ∀ (key : Key) retry, after.retries.entries[key]? = some retry →
    before.retries.entries[key]? = some retry
  pass : after.refresh.pass = before.refresh.pass ∨ after.refresh.pass = none

omit [Keyed Row] in
theorem Prepared.refl (self : Reconciler Row) : Prepared self self :=
  ⟨rfl, rfl, rfl, rfl, rfl, .inl rfl, fun _ _ held => held, .inl rfl⟩

omit [Keyed Row] in
theorem Prepared.trans {first second third : Reconciler Row} (left : Prepared first second)
    (right : Prepared second third) : Prepared first third where
  stream := right.stream.trans left.stream
  pending := right.pending.trans left.pending
  pendingFirstAttempts := right.pendingFirstAttempts.trans left.pendingFirstAttempts
  attemptedRevision := right.attemptedRevision.trans left.attemptedRevision
  progress := right.progress.trans left.progress
  statuses := by
    rcases right.statuses with same | empty
    · rw [same]
      exact left.statuses
    · exact .inr empty
  retries key retry held := left.retries key retry (right.retries key retry held)
  pass := by
    rcases right.pass with same | empty
    · rw [same]
      exact left.pass
    · exact .inr empty

theorem prepared_prepare (change : Change Row) : Prepared self (self.prepare change) := by
  unfold prepare
  split
  · exact ⟨rfl, rfl, rfl, rfl, rfl, .inl rfl,
      fun _ _ held => (RetryQueue.getElem?_of_remove held).2, .inl rfl⟩
  · refine ⟨rfl, rfl, rfl, rfl, rfl, .inr rfl, ?_, .inr rfl⟩
    intro key retry held
    cases held.symm.trans Std.ExtTreeMap.getElem?_empty

theorem prepared_foldl (self : Reconciler Row) (changes : List (Change Row)) :
    Prepared self (changes.foldl prepare self) := by
  induction changes generalizing self with
  | nil => exact .refl self
  | cons change changes induction => exact (prepared_prepare change).trans (induction _)

omit [Keyed Row] in
theorem foldl_pushWork_fields (self : Reconciler Row) (works : List (Work Row)) :
    (works.foldl pushWork self).stream = self.stream ∧
      (works.foldl pushWork self).statuses = self.statuses ∧
      (works.foldl pushWork self).retries = self.retries ∧
      (works.foldl pushWork self).refresh = self.refresh ∧
      (works.foldl pushWork self).attemptedRevision = self.attemptedRevision ∧
      (works.foldl pushWork self).progress = self.progress ∧
      (works.foldl pushWork self).pending = self.pending ++ works := by
  induction works generalizing self with
  | nil => simp
  | cons work works induction =>
      rcases induction (self.pushWork work) with ⟨h1, h2, h3, h4, h5, h6, h7⟩
      refine ⟨h1, h2, h3, h4, h5, h6, h7.trans ?_⟩
      exact List.append_assoc _ _ _

omit [Keyed Row] in
theorem counted_foldl_pushWork (counted : Counted self.pendingFirstAttempts self.pending)
    (works : List (Work Row)) :
    Counted (works.foldl pushWork self).pendingFirstAttempts
      (works.foldl pushWork self).pending := by
  induction works generalizing self with
  | nil => exact counted
  | cons work works induction => exact induction (counted_pushWork counted work)

/-- After a marker nothing is left to try again, and nothing is done. -/
def Cleared (self : Reconciler Row) : Prop :=
  self.statuses = ∅ ∧ ∀ key : Key, self.retries.entries[key]? = none

theorem Cleared.prepare {self : Reconciler Row} (cleared : self.Cleared) (change : Change Row) :
    (self.prepare change).Cleared := by
  unfold Reconciler.prepare
  split
  · refine ⟨cleared.1, fun key => ?_⟩
    rw [RetryQueue.entries_remove, Std.ExtTreeMap.getElem?_erase, cleared.2 key, ite_self]
  · exact ⟨rfl, fun key => Std.ExtTreeMap.getElem?_empty⟩

theorem cleared_foldl (self : Reconciler Row)
    (marked : self.Cleared ∨ ∃ revision, .resync revision ∈ changes) :
    (changes.foldl prepare self).Cleared := by
  induction changes generalizing self with
  | nil =>
      rcases marked with cleared | ⟨revision, member⟩
      · exact cleared
      · cases member
  | cons change changes induction =>
      apply induction
      rcases marked with cleared | ⟨revision, member⟩
      · exact .inl (cleared.prepare change)
      · rcases List.mem_cons.mp member with rfl | later
        · exact .inl ⟨rfl, fun key => Std.ExtTreeMap.getElem?_empty⟩
        · exact .inr ⟨revision, later⟩

def changeWorks (changes : List (Change Row)) : List (Work Row) :=
  (changes.filterMap workOf).insertionSort fun left right => left.row.isSome → right.row.isSome

theorem mem_changeWorks {work : Work Row} :
    work ∈ changeWorks changes ↔ ∃ change ∈ changes, workOf change = some work := by
  rw [changeWorks, (List.perm_insertionSort _ _).mem_iff, List.mem_filterMap]

theorem perm_revisions_changeWorks (changes : List (Change Row)) :
    ((changeWorks changes).map (·.revision)).Perm (stamps changes) := by
  have sorted : (changeWorks changes).Perm (changes.filterMap workOf) :=
    List.perm_insertionSort _ _
  have same : (changes.filterMap workOf).map (·.revision) = stamps changes := by
    rw [List.map_filterMap, stamps]
    apply List.filterMap_congr
    intro change _
    cases change <;> rfl
  rw [← same]
  exact sorted.map _

/-- The changes are queued; nothing else changes but what they take back. -/
structure Enqueued (before : Reconciler Row) (changes : List (Change Row))
    (after : Reconciler Row) : Prop where
  stream : after.stream = before.stream
  pending : after.pending = before.pending ++ changeWorks changes
  counted : Counted before.pendingFirstAttempts before.pending →
    Counted after.pendingFirstAttempts after.pending
  attemptedRevision : after.attemptedRevision = before.attemptedRevision
  progress : after.progress = before.progress
  statuses : after.statuses = before.statuses ∨ after.statuses = ∅
  retries : ∀ (key : Key) retry, after.retries.entries[key]? = some retry →
    before.retries.entries[key]? = some retry
  pass : after.refresh.pass = before.refresh.pass ∨ after.refresh.pass = none
  cleared : (∃ revision, .resync revision ∈ changes) → after.Cleared

/-- Taking changes in, before the progress is published. -/
def takeIn (self : Reconciler Row) (changes : List (Change Row)) : Reconciler Row :=
  (changeWorks changes).foldl pushWork (changes.foldl prepare self)

theorem enqueueChanges_eq (changes : List (Change Row)) :
    self.enqueueChanges changes = (self.takeIn changes).publishProgress := rfl

theorem enqueued_takeIn (self : Reconciler Row) (changes : List (Change Row)) :
    Enqueued self changes (self.takeIn changes) := by
  have prepared := prepared_foldl self changes
  rcases foldl_pushWork_fields (changes.foldl prepare self) (changeWorks changes) with
    ⟨stream, statuses, retries, refresh, attempted, progress, pending⟩
  refine ⟨stream.trans prepared.stream, ?_, ?_, attempted.trans prepared.attemptedRevision,
    progress.trans prepared.progress, ?_, ?_, ?_, ?_⟩
  · exact pending.trans (by rw [prepared.pending])
  · intro counted
    apply counted_foldl_pushWork
    rw [prepared.pendingFirstAttempts, prepared.pending]
    exact counted
  · exact prepared.statuses.imp (statuses.trans ·) (statuses.trans ·)
  · intro key retry held
    exact prepared.retries key retry (by rwa [takeIn, retries] at held)
  · have same : (self.takeIn changes).refresh = (changes.foldl prepare self).refresh := refresh
    rw [same]
    exact prepared.pass
  · intro marked
    have cleared := cleared_foldl self (.inr marked)
    exact ⟨statuses.trans cleared.1,
      fun key => (congrArg (·.entries[key]?) retries).trans (cleared.2 key)⟩

end Reconciler

end FlowSdn.Reconcile
