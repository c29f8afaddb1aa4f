import FlowSdn.Reconcile.Batches

/-! # Rounds

A round of the reconciler and a turn of its loop keep to the moves, whatever others do to the
table meanwhile and wherever the round is cancelled, and leave the reconciler at rest.
-/

namespace FlowSdn.Reconcile

open OrderedMap Tables Concurrent

section Rounds

variable {Row : Type} [Keyed Row] {terms : Terms} {system : System Row} {view : View Row}
  {fact : Fact Row} {α : Type} {done : α → System Row → Prop}

/-! ## Operations -/

section

variable (lasting : Lasting fact) (here : At terms view fact system)

include lasting here

theorem Obeys.drain {max : Nat} {next : List (Change Row) → Task Row α}
    (idle : view.self.pending = [])
    (continues : ∀ changes later (stream : ChangeStream Row),
      At terms { view with self := { view.self with stream }, hand := view.hand ++ changes } fact
        later → Obeys terms done (next changes) later) :
    Obeys terms done (ask (.drain max) >>= next) system := by
  refine Obeys.perform lasting here fun later choice changes left there ran => ?_
  cases choice with
  | time now =>
      unfold effect at ran
      dsimp only at ran
      split at ran
      · cases ran
      · rename_i free
        cases ran
        refine ⟨.drain max now ?_ ?_, fun sound => continues _ _
          (later.watched.table.drain later.self.stream max now).2.1 ⟨sound, ?_, ?_⟩⟩
        · rw [there.self_eq]
          exact idle
        · intro isApart
          rwa [isApart, Bool.true_and, Bool.not_eq_true] at free
        · rw [← there.view]
          rfl
        · have same : (later.drained max now).published = later.published :=
            Table.published_drain max now
          rw [same]
          exact there.fact
  | _ => cases ran

theorem Obeys.enqueue {changes : List (Change Row)} {next : Unit → Task Row α}
    (idle : view.self.pending = []) (inHand : view.hand = changes)
    (continues : ∀ later, Rest terms later → Obeys terms done (next ()) later) :
    Obeys terms done (ask (.enqueue changes) >>= next) system := by
  refine Obeys.perform lasting here fun later choice answer left there ran => ?_
  cases choice with
  | go =>
      cases ran
      have isHand : later.hand = changes := there.hand_eq.trans inHand
      subst isHand
      refine ⟨.enqueue ?_, fun sound => continues _ ⟨sound, rfl⟩⟩
      rw [there.self_eq]
      exact idle
  | _ => cases ran

theorem Obeys.prune {desired : Version Row} {next : Option (Except String Unit) → Task Row α}
    (empty : view.hand = [])
    (absent : ∀ history version, fact history version → ∀ (key : Key) revision,
      desired.rows[key]? = none → IsDone view.self.statuses key revision →
        Superseded history key revision)
    (continues : ∀ reply later, Rest terms later → Obeys terms done (next reply) later) :
    Obeys terms done (ask (.prune desired) >>= next) system := by
  refine Obeys.perform lasting here fun later choice reply left there ran => ?_
  have isEmpty : later.hand = [] := there.hand_eq.trans empty
  cases choice with
  | answer given took =>
      cases ran
      split
      · refine ⟨.prune_target desired ?_, fun sound => continues reply _ ⟨sound, isEmpty⟩⟩
        rw [there.self_eq]
        exact absent _ _ there.fact
      · exact ⟨.look, fun sound => continues reply _ ⟨sound, isEmpty⟩⟩
  | _ => cases ran

theorem Obeys.takeRequest {next : Unit → Task Row α}
    (continues : ∀ later, At terms view fact later → Obeys terms done (next ()) later) :
    Obeys terms done (ask .takeRequest >>= next) system := by
  refine Obeys.perform lasting here fun later choice answer left there ran => ?_
  cases choice with
  | go =>
      cases ran
      exact ⟨.request false, fun sound => continues _ ⟨sound, there.view, there.fact⟩⟩
  | _ => cases ran

end

theorem Obeys.caught {task : Task Row β} {next : Except Stop β → Task Row α}
    {between : β → System Row → Prop} (obeys : Obeys terms between task system)
    (continues : ∀ value later, between value later → Obeys terms done (next (.ok value)) later)
    (fails : ∀ stop later, Sensible terms stop → Rest terms later →
      Obeys terms done (next (.error stop)) later) :
    Obeys terms done (ExceptT.lift task.run >>= next) system := by
  have lifted : Obeys terms (fun result => Ends terms between result)
      (ExceptT.lift task.run : Task Row (Except Stop β)) system :=
    Safe.bind obeys fun _ _ persists => persists
  refine Obeys.bind lifted fun result later ended => ?_
  cases result with
  | ok value => exact continues value later ended
  | error stop => exact fails stop later ended.1 ended.2

/-- What a snapshot has no row for and is done was written over. -/
theorem superseded_of_absent (grounded : Grounded system) {key : Key} {revision : Nat}
    (absent : system.published.rows[key]? = none)
    (isDone : IsDone system.self.statuses key revision) :
    Superseded system.history key revision := by
  refine grounded.chronicle.superseded (grounded.done key revision isDone) ?_
  unfold Version.Current
  rw [absent]
  exact Bool.false_ne_true

theorem lasting_absent (desired : Version Row) (statuses : BTreeMap Key Status) :
    Lasting fun history (_ : Version Row) => ∀ (key : Key) revision, desired.rows[key]? = none →
      IsDone statuses key revision → Superseded history key revision :=
  fun _ _ _ _ _ _ holds key revision absent isDone => (holds key revision absent isDone).append _

/-! ## Rounds -/

variable (rest : Rest terms system)

include rest

theorem loadChanges_obeys (idle : system.self.pending = []) :
    Rests terms (loadChanges : Task Row Unit) system := by
  refine Obeys.self Lasting.true rest.here fun later there => ?_
  refine Obeys.drain Lasting.true there idle fun changes later stream there => ?_
  change Obeys terms _ (ask _ >>= pure) later
  refine Obeys.enqueue Lasting.true there idle ?_ fun last rested => Obeys.rest rested
  change system.hand ++ changes = changes
  rw [rest.2, List.nil_append]

theorem takeChange_obeys (idle : system.self.pending = []) :
    Rests terms (takeChange : Task Row Unit) system := by
  refine Obeys.look trivial Lasting.true rest.here fun polls later there => ?_
  have empty : system.view.hand = [] := rest.2
  cases polls with
  | false => exact Obeys.rest (there.rest empty)
  | true =>
      refine Obeys.drain Lasting.true there idle fun first later stream there => ?_
      rw [empty, List.nil_append] at there
      split
      · rename_i isEmpty
        exact Obeys.rest (there.rest (List.isEmpty_iff.mp isEmpty))
      · refine Obeys.self Lasting.true there fun later there => ?_
        refine Obeys.drain Lasting.true there idle fun remaining later stream there => ?_
        change Obeys terms _ (ask _ >>= pure) later
        exact Obeys.enqueue Lasting.true there idle rfl fun last rested => Obeys.rest rested

theorem runPrune_obeys : Rests terms (runPrune : Task Row (Option PruneStatus)) system := by
  have empty : system.view.hand = [] := rest.2
  refine Obeys.look trivial Lasting.true rest.here fun now later there => ?_
  refine Obeys.look trivial Lasting.true there fun initialized later there => ?_
  cases initialized with
  | false => exact Obeys.rest (there.rest empty)
  | true =>
      refine Obeys.self Lasting.true there fun later there => ?_
      refine Obeys.look trivial Lasting.true there fun requested later there => ?_
      split
      · exact Obeys.rest (there.rest empty)
      · refine Obeys.amend Lasting.true there (fun later _ =>
            .prune { later.self.prune with inFlight := true } later.self.resyncRequired)
          fun later there => ?_
        refine Obeys.takeRequest Lasting.true there fun later there => ?_
        refine Obeys.snapshot Lasting.true there fun opened there => ?_
        have absent : ∀ (key : Key) revision, opened.published.rows[key]? = none →
            IsDone system.self.statuses key revision → Superseded opened.history key revision := by
          intro key revision absent isDone
          refine superseded_of_absent there.sound.grounded absent ?_
          rw [there.self_eq]
          exact isDone
        have lasts := lasting_absent opened.published system.self.statuses
        refine Obeys.publish lasts (there.weaken fun _ => absent) empty fun later there => ?_
        refine Obeys.prune lasts there empty (fun _ _ holds => holds) fun reply later rested => ?_
        refine orCancelled_obeys rested fun result _ => ?_
        refine Obeys.look trivial Lasting.true rested.here fun now later there => ?_
        refine Obeys.self Lasting.true there fun later there => ?_
        refine checked_obeys (there.rest rested.2) (fun same => by cases same) fun nextDue _ => ?_
        refine Obeys.amend Lasting.true there (fun later _ => .prune _ _) fun later there => ?_
        refine Obeys.publish Lasting.true there rested.2 fun last ended => ?_
        exact Obeys.rest (ended.rest rested.2)

theorem acknowledge_obeys : Rests terms (acknowledge : Task Row Unit) system := by
  refine Obeys.self Lasting.true rest.here fun later there => ?_
  split
  · refine Obeys.publish Lasting.true there rest.2 fun later there => ?_
    refine Obeys.self Lasting.true there fun later there => ?_
    change Obeys terms _ (ask _ >>= pure) later
    refine Obeys.perform Lasting.true there fun later choice answer left there ran => ?_
    cases choice with
    | time now =>
        cases ran
        exact ⟨.ack _ now, fun sound => Obeys.rest ⟨sound, there.hand_eq.trans rest.2⟩⟩
    | _ => cases ran
  · exact Obeys.rest (there.rest rest.2)

theorem runCoreRound_obeys : Rests terms (runCoreRound : Task Row Round) system := by
  refine Obeys.look trivial Lasting.true rest.here fun now later there => ?_
  refine Obeys.bind (tryAmend_obeys Lasting.true there rest.2 fun later there =>
    refreshes_armRefresh there.refresh_genuine now) fun _ later reached => ?_
  rcases reached with ⟨refresh, there⟩
  refine Obeys.self Lasting.true there fun later there => ?_
  have rested := there.rest rest.2
  have skipped : Rests terms (pure () : Task Row Unit) later :=
    Obeys.rest rested
  refine Obeys.either (fun isEmpty => loadChanges_obeys rested ?_) (fun _ => skipped)
    fun _ later rested => ?_
  · rw [there.self_eq]
    exact List.isEmpty_iff.mp isEmpty
  refine Obeys.look trivial Lasting.true rested.here fun batches later there => ?_
  refine Obeys.either (fun _ => runBatchRound_obeys {} (there.rest rested.2))
    (fun _ => runScalar_obeys _ {} (there.rest rested.2)) fun round later rested => ?_
  refine Obeys.bind (acknowledge_obeys rested) fun _ later rested => ?_
  refine Obeys.bind (runPrune_obeys rested) fun prune later rested => ?_
  refine Obeys.self Lasting.true rested.here fun later there => ?_
  exact Obeys.rest (there.rest rested.2)

theorem healthChanges_obeys :
    Rests terms (publishHealthChanges : Task Row Unit) system :=
  (publishHealthChanges_obeys Lasting.true rest.here rest.2).weaken
    fun _ _ there => there.rest rest.2

theorem runRoundWithClock_obeys : Rests terms (runRoundWithClock : Task Row Round) system := by
  refine Obeys.bind (healthChanges_obeys rest) fun _ later rested => ?_
  refine Obeys.caught (runCoreRound_obeys rested) ?_ ?_
  · intro round later rested
    refine Obeys.bind (healthChanges_obeys rested) fun _ last ended => ?_
    exact Obeys.rest ended
  · intro stop later sensible rested
    cases stop with
    | cancelled => exact Obeys.stopped sensible rested
    | failed error =>
        refine Obeys.bind (healthChanges_obeys rested) fun _ last ended => ?_
        exact Obeys.stopped sensible ended

theorem driveRound_obeys : Rests terms (driveRound : Task Row Round) system := by
  refine Obeys.bind (runRoundWithClock_obeys rest) fun round later rested => ?_
  refine Obeys.look trivial Lasting.true rested.here fun now later there => ?_
  refine Obeys.self Lasting.true there fun later there => ?_
  refine checked_obeys (there.rest rested.2) (fun same => by cases same) fun _ _ => ?_
  exact Obeys.rest (there.rest rested.2)

theorem driveOnce_obeys : Rests terms (driveOnce : Task Row (Option Round)) system := by
  refine Obeys.look trivial Lasting.true rest.here fun initialized later there => ?_
  refine Obeys.look trivial Lasting.true there fun requested later there => ?_
  refine Obeys.self Lasting.true there fun later there => ?_
  refine Obeys.look trivial Lasting.true there fun now later there => ?_
  have rested := there.rest rest.2
  split
  · refine Obeys.bind (driveRound_obeys rested) fun round later rested => ?_
    exact Obeys.rest rested
  · rename_i nothing
    refine Obeys.bind (takeChange_obeys rested ?_) fun _ later rested => ?_
    · rw [Bool.or_eq_true, not_or] at nothing
      rw [there.self_eq]
      have idle := nothing.1
      unfold Reconciler.hasPendingWork at idle
      rw [Bool.or_assoc, Bool.or_eq_true, not_or, Bool.not_eq_true, Bool.not_eq_false'] at idle
      exact List.isEmpty_iff.mp idle.1
    · exact Obeys.rest rested

/-- However a reconciler is run, it keeps to the moves. -/
theorem routine_obeys (entry : Entry) :
    Safe (platform terms) (Steps terms) 0
      (fun result later => (∀ stop, result = .error stop → Sensible terms stop) ∧ Rest terms later)
      (routine entry : Thread (Op Row) Op.Answer _) system := by
  have obeys : ∃ task : Task Row (Option Round), routine entry = task.run ∧
      Rests terms task system := by
    cases entry with
    | runRound =>
        refine ⟨_, rfl, Obeys.bind (runRoundWithClock_obeys rest) fun round later rested => ?_⟩
        exact Obeys.rest rested
    | run => exact ⟨driveOnce, rfl, driveOnce_obeys rest⟩
  rcases obeys with ⟨task, isTask, obeys⟩
  rw [isTask]
  refine Safe.weaken obeys fun result later ended => ?_
  cases result with
  | ok value =>
      refine ⟨fun other same => ?_, ended⟩
      cases same
  | error stop =>
      refine ⟨fun other same => ?_, ended.2⟩
      cases same
      exact ended.1

end Rounds

end FlowSdn.Reconcile
