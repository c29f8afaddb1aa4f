import FlowSdn.Reconcile.Refresh

/-! # Works

A work is taken from the queue only once the target was asked for it or the table says something
else for good. What is tried again or refreshed joins the queue, and everything else stays.
-/

namespace FlowSdn.Reconcile

open OrderedMap Tables Concurrent

section Works

variable {Row : Type} [Keyed Row] {terms : Terms} {system : System Row} {view : View Row}
  {fact : Fact Row} {α : Type} {done : α → System Row → Prop} {retry : Retry}

theorem Obeys.publish {next : Unit → Task Row α} (lasting : Lasting fact)
    (here : At terms view fact system) (empty : view.hand = [])
    (continues : ∀ later, At terms { view with self := view.self.publishProgress } fact later →
      Obeys terms done (next ()) later) :
    Obeys terms done (ask (.amend (·.publishProgress)) >>= next) system :=
  Obeys.amend lasting here (fun _ there => .publish (there.hand_eq.trans empty)) continues

/-! ## What joins the queue -/

/-- A row is refreshed if nothing in the queue is a refresh. -/
theorem refreshFound_obeys (rest : Rest terms system)
    (alone : ∀ work ∈ system.self.pending, work.refresh = false) :
    Rests terms (refreshFound : Task Row Found) system := by
  refine Obeys.look trivial Lasting.true rest.here fun now later there => ?_
  refine Obeys.bind (nextRefreshWork_obeys Lasting.true there rest.2)
    fun result further reached => ?_
  rcases reached with ⟨isDone, refresh, arrived⟩
  cases result with
  | none => exact Obeys.rest (arrived.rest rest.2)
  | some work =>
      refine Obeys.amend (lasting_chosen Lasting.true _) arrived ?_
        fun last ended => Obeys.rest (ended.rest rest.2)
      intro last ended
      have candidate := ended.fact.2 work rfl
      refine .revisit work candidate.genuine candidate.refresh ?_ ?_ (ended.hand_eq.trans rest.2)
      · rw [ended.self_eq]
        exact alone
      · rw [ended.self_eq]
        exact isDone work rfl

/-- The row of a retry is the one that the table has, which the failed mutation wrote unless it
was written over. -/
theorem genuine_retry (grounded : Grounded system) (noted : retry.mutation ∈ system.history)
    (row : Option Row)
    (isRow : row = if retry.operation = .update then
      system.published.rows[retry.key]?.map (·.1) else none)
    (found : ¬(retry.operation = .update ∧ row.isNone)) :
    (retry.work row).mutation = retry.mutation ∧
      (retry.work row).Genuine system.history system.published := by
  have same : (retry.work row).mutation = retry.mutation := by
    unfold Work.mutation Retry.work Retry.mutation
    congr 1
    cases isOperation : retry.operation with
    | update =>
        cases row with
        | none => exact absurd ⟨isOperation, rfl⟩ found
        | some value => rfl
    | delete =>
        rw [isOperation] at isRow
        rw [isRow]
        rfl
  have held : ∀ value, row = some value →
      ∃ revision, system.published.rows[retry.key]? = some (value, revision) := by
    intro value isValue
    rw [isValue] at isRow
    split at isRow
    · rcases Option.map_eq_some_iff.mp isRow.symm with ⟨pair, held, first⟩
      exact ⟨pair.2, held.trans (by rw [← first])⟩
    · cases isRow
  refine ⟨same, ?_, ?_, ?_⟩
  · rw [same]
    exact noted
  · intro value isValue
    rcases held value isValue with ⟨revision, held⟩
    exact grounded.chronicle.consistent.keyed _ _ _ held
  · intro value isValue other also
    rcases held value isValue with ⟨revision, held⟩
    exact congrArg Prod.fst (Option.some.inj (also.symm.trans held))

theorem retryWork_obeys {key : Key} (rest : Rest terms system)
    (found : system.self.retries.entries[key]? = some retry) :
    Rests terms (retryWork key retry : Task Row Found) system := by
  rcases rest.1.grounded.retries key retry found with ⟨isKey, noted, failed⟩
  have lasts : Lasting fun (history : List Mutation) (_ : Version Row) =>
      retry.mutation ∈ history :=
    fun _ _ _ _ _ _ member => List.mem_append_left _ member
  refine Obeys.get lasts (rest.here.weaken fun _ => noted) fun later there => ?_
  dsimp only
  generalize isRow : (if retry.operation = .update then
    later.published.rows[retry.key]?.map (·.1) else none) = row
  split
  · refine Obeys.amend lasts there ?_ fun last ended => Obeys.rest (ended.rest rest.2)
    intro last _
    rw [isKey]
    exact .abandon key
  · rename_i isFound
    rcases genuine_retry there.sound.grounded there.fact row isRow.symm isFound with ⟨same, genuine⟩
    refine Obeys.amend (lasting_genuine _) (there.weaken fun _ => genuine) ?_
      fun last ended => Obeys.rest (ended.rest rest.2)
    intro last ended
    refine .retry key retry _ ?_ same ?_ ended.fact (ended.hand_eq.trans rest.2)
    · rw [ended.self_eq]
      exact found
    · have positive : (retry.failures == 0) = false := beq_eq_false_iff_ne.mpr (by omega)
      simp only [Work.firstAttempt, Retry.work, positive, Bool.false_and]

theorem findWork_obeys (rest : Rest terms system) (idle : system.self.pending = []) :
    Rests terms (findWork : Task Row Found) system := by
  refine Obeys.look trivial Lasting.true rest.here fun now later there => ?_
  refine Obeys.self Lasting.true there fun further arrived => ?_
  have settled := arrived.rest rest.2
  have self_eq : further.self = system.self := arrived.self_eq
  split
  · rename_i key retry isDue
    refine retryWork_obeys settled ?_
    rw [self_eq]
    exact RetryQueue.due_eq_some isDue
  · refine refreshFound_obeys settled ?_
    rw [self_eq, idle]
    exact List.forall_mem_nil _

/-! ## What leaves the queue -/

/-- The reconciler is between two works: the queue and the log are known, the hand is empty. -/
def Between (terms : Terms) (log : List (Event Row)) (pending : List (Work Row)) (fact : Fact Row)
    (system : System Row) : Prop :=
  ∃ self : Reconciler Row, self.pending = pending ∧ At terms ⟨self, log, []⟩ fact system

variable {log : List (Event Row)} {pending : List (Work Row)} {work : Work Row} {now : Nat}
  {result : Except String Unit} {round : Round}

theorem Between.rest (between : Between terms log pending fact system) : Rest terms system := by
  rcases between with ⟨self, _, here⟩
  exact here.rest rfl

/-- What a result rests on: the target was asked or the work was written over, and what the
target says it has written is what it was last given. -/
structure Answered (log : List (Event Row)) (work : Work Row) (result : Except String Unit)
    (history : List Mutation) (version : Version Row) : Prop where
  settled : Superseded history work.key work.revision ∨ Called log work.key work.revision
  succeeded : result = .ok () → work.row.isSome →
    ∃ event, lastOn work.key log = some (.done event) ∧ event.mutation = work.mutation ∧
      event.Genuine history version

omit [Keyed Row] in
theorem recordResult_error {self : Reconciler Row} {error : ReconcileError}
    (failed : self.recordResult work result now round = .error error) :
    error = .retryDeadlineOverflow := by
  cases result with
  | ok value => cases failed
  | error message =>
      unfold Reconciler.recordResult Reconciler.recordError at failed
      dsimp only at failed
      cases deadline : checkedAdd now
          (self.options.backoff (min (work.failures + 1) (2 ^ 32 - 1))) with
      | none =>
          rw [deadline] at failed
          cases failed
          rfl
      | some time =>
          rw [deadline] at failed
          cases failed

theorem answered_call {reply : Option (Except String Unit)} {took : Bool}
    (isReply : reply = some result) {history : List Mutation}
    {version : Version Row} (genuine : work.Genuine history version) :
    Answered (system.attempted [work] (if tookEffect reply took then [work] else [])).log
      work result history version := by
  refine ⟨.inr ⟨work, ?_, rfl, rfl⟩, fun isOk _ => ⟨work, ?_, rfl, genuine⟩⟩
  · exact List.mem_append_left _ (List.mem_append_right _ (.head _))
  · rw [isReply, isOk]
    exact List.find?_cons_of_pos (beq_self_eq_true work.key)

section

variable (lasting : Lasting fact)

include lasting

theorem stable_between :
    Stable (Steps terms) 0 (Between terms log pending fact) := by
  rintro before after foreign ⟨self, isPending, here⟩
  exact ⟨self, isPending, stable_at lasting before after foreign here⟩

theorem Obeys.between {value : α} (between : Between terms log pending fact system) :
    Obeys terms (fun _ => Between terms log pending fact) (pure value : Task Row α) system :=
  Obeys.ended (stable_between lasting) between

theorem completeRefresh_obeys (between : Between terms log pending fact system) :
    Obeys terms (fun _ => Between terms log pending fact) (completeRefresh work now) system := by
  rcases between with ⟨self, isPending, here⟩
  unfold completeRefresh
  split
  · refine (tryAmend_obeys lasting here rfl fun later there =>
      refreshes_completeRefreshWork there.refresh_genuine now).weaken fun _ later reached => ?_
    rcases reached with ⟨refresh, there⟩
    exact ⟨{ self with refresh }, isPending, there⟩
  · exact Obeys.between lasting ⟨self, isPending, here⟩

theorem Obeys.call {next : Option (Except String Unit) → Task Row α}
    (here : At terms view fact system)
    (genuine : ∀ history version, fact history version → work.Genuine history version)
    (announced : ∀ revision, ¬IsDone view.self.statuses work.key revision)
    (continues : ∀ reply log later, (∀ result, reply = some result → ∀ history version,
        work.Genuine history version → Answered log work result history version) →
      At terms { view with log } fact later → Obeys terms done (next reply) later) :
    Obeys terms done (ask (.call work) >>= next) system := by
  refine Obeys.perform lasting here fun later choice reply left there ran => ?_
  cases choice with
  | answer given took =>
      cases ran
      refine ⟨.attempt _ _ ?_ ?_ ?_, fun sound => continues reply
        (later.attempted [work] (if tookEffect reply took then [work] else [])).log _ ?_
        ⟨sound, ?_, there.fact⟩⟩
      · intro other member
        split at member
        · exact member
        · exact absurd member List.not_mem_nil
      · intro other member
        rw [List.mem_singleton.mp member]
        exact genuine _ _ there.fact
      · intro other member
        rw [List.mem_singleton.mp member, there.self_eq]
        exact announced
      · intro result isReply history version isGenuine
        exact answered_call isReply isGenuine
      · rw [← there.view]
        rfl
  | _ => cases ran

/-! ## One work after another -/

variable (between : Between terms log (work :: pending) fact system)

include between

theorem discardWork_obeys
    (settled : ∀ history version, fact history version →
      Superseded history work.key work.revision ∨ Called log work.key work.revision) :
    Obeys terms (fun _ => Between terms log pending fact) (discardWork work) system := by
  rcases between with ⟨self, isPending, here⟩
  refine Obeys.amend lasting here ?_ fun later there => ?_
  · intro later there
    refine .discard work pending ?_ ?_
    · rw [there.self_eq]
      exact isPending
    · rw [there.log_eq]
      exact settled _ _ there.fact
  · refine Obeys.publish lasting there rfl fun further arrived => ?_
    refine Obeys.look trivial lasting arrived fun now last ended => ?_
    refine completeRefresh_obeys lasting ⟨_, ?_, ended⟩
    change ((self.dropStatus work.key).popWork).pending = pending
    rw [Reconciler.pending_popWork]
    exact congrArg List.tail isPending

theorem recordWork_obeys
    (answered : ∀ history version, fact history version →
      Answered log work result history version) :
    Obeys terms (fun _ => Between terms log pending fact) (recordWork work result now round)
      system := by
  rcases between with ⟨self, isPending, here⟩
  refine Obeys.self lasting here fun later there => ?_
  cases recorded : self.recordResult work result now round with
  | error error =>
      refine Obeys.stopped (sensible_failed ?_) (there.rest rfl)
      rw [recordResult_error recorded]
      exact fun same => by cases same
  | ok after =>
      refine Obeys.amend lasting there ?_ fun further arrived => ?_
      · intro further arrived
        refine .record work pending result now round after ?_ ?_ ?_ ?_
        · rw [arrived.self_eq]
          exact isPending
        · rw [arrived.log_eq]
          exact (answered _ _ arrived.fact).settled
        · intro isOk isUpdate
          rcases Option.isSome_iff_exists.mp isUpdate with ⟨row, isRow⟩
          rw [arrived.log_eq]
          exact ⟨row, isRow, (answered _ _ arrived.fact).succeeded isOk isUpdate⟩
        · rw [arrived.self_eq]
          exact recorded
      · refine Obeys.publish lasting arrived rfl fun last ended => ?_
        refine Obeys.between lasting ⟨_, ?_, ended⟩
        change after.1.popWork.pending = pending
        rw [Reconciler.pending_popWork, (recorded_recordResult recorded).pending]
        exact congrArg List.tail isPending

theorem processWork_obeys
    (genuine : ∀ history version, fact history version → work.Genuine history version) :
    Rests terms (processWork work round) system := by
  rcases between with ⟨self, isPending, here⟩
  refine Obeys.bind (current_obeys lasting here (fun _ there => genuine _ _ there.fact)
    fun _ _ _ => trivial) fun isCurrent later reached => ?_
  have lasts : ∀ isCurrent, Lasting fun history version => fact history version ∧
      (isCurrent = false → Superseded history work.key work.revision) :=
    fun _ => lasting.and ((lasting_superseded work.key work.revision).imp _)
  cases isCurrent with
  | false =>
      refine Obeys.bind (discardWork_obeys (lasts false) ⟨self, isPending, reached.2⟩
        fun _ _ holds => .inl (holds.2 rfl)) fun _ further arrived => ?_
      exact Obeys.rest arrived.rest
  | true =>
      have there := reached.2.weaken And.left
      refine Obeys.bind (publishHealthChanges_obeys lasting there rfl) fun _ later there => ?_
      refine Obeys.amend lasting there (fun _ _ => .announce [work]) fun later there => ?_
      refine Obeys.publish lasting there rfl fun later there => ?_
      refine Obeys.call lasting there genuine ?_ fun reply log later answered there => ?_
      · exact fun revision isDone => (isDone_attempt isDone).2 work (.head _) rfl
      · refine orCancelled_obeys (there.rest rfl) fun result isResult => ?_
        refine Obeys.bind (current_obeys lasting there (fun _ there => genuine _ _ there.fact)
          fun _ _ _ => trivial) fun isCurrent later reached => ?_
        have next : Between terms log (work :: pending) fact later :=
          ⟨(self.attempt [work]).publishProgress, isPending, reached.2.weaken And.left⟩
        have isAnswered : ∀ history version, fact history version →
            Answered log work result history version :=
          fun history version holds =>
            answered result isResult history version (genuine history version holds)
        cases isCurrent with
        | false =>
            refine Obeys.bind (discardWork_obeys lasting next fun history version holds =>
              (isAnswered history version holds).settled) fun _ further arrived => ?_
            exact Obeys.rest arrived.rest
        | true =>
            rcases next with ⟨after, isAfter, there⟩
            refine Obeys.look trivial lasting there fun now later there => ?_
            refine Obeys.bind (recordWork_obeys lasting ⟨after, isAfter, there⟩ isAnswered)
              fun round later there => ?_
            refine Obeys.bind (completeRefresh_obeys lasting there) fun _ later there => ?_
            exact Obeys.rest there.rest

end

theorem Rest.between (rest : Rest terms system) :
    Between terms system.log system.self.pending (fun _ _ => True) system :=
  ⟨system.self, rfl, rest.1, congrArg (View.mk system.self system.log) rest.2, trivial⟩

theorem processFirst_obeys (rest : Rest terms system) :
    Rests terms (processFirst round) system := by
  rcases rest.between with ⟨self, isPending, here⟩
  refine Obeys.self Lasting.true here fun later there => ?_
  cases queue : self.pending with
  | nil => exact Obeys.rest (there.rest rfl)
  | cons work pending =>
      have genuine : work.Genuine later.history later.published := by
        refine there.sound.grounded.queue work ?_
        rw [there.self_eq, queue]
        exact .head _
      exact processWork_obeys (lasting_genuine work) ⟨self, queue, there.weaken fun _ => genuine⟩
        fun _ _ holds => holds

/-- Every work of a round is handled, whatever the size of the round. -/
theorem runScalar_obeys (left : Nat) (round : Round) (rest : Rest terms system) :
    Rests terms (runScalar left round : Task Row Round) system := by
  induction left generalizing round system with
  | zero => exact Obeys.rest rest
  | succ left induction =>
      refine Obeys.self Lasting.true rest.here fun later there => ?_
      have rested := there.rest rest.2
      refine Obeys.either (fun isEmpty => findWork_obeys rested ?_) (fun _ => Obeys.rest rested)
        fun result later rested => ?_
      · rw [there.self_eq]
        exact List.isEmpty_iff.mp isEmpty
      cases result with
      | pushed =>
          refine Obeys.bind (processFirst_obeys rested) fun next later rested => ?_
          exact induction next rested
      | stale => exact induction _ rested
      | nothing => exact Obeys.rest rested

end Works

end FlowSdn.Reconcile
