import FlowSdn.Reconcile.Works

/-! # Batches

The works of a batch are checked against the table before the target is asked and again before
an answer counts. An update that was current is the newest of its key in the queue, so the
target's last event under the key is about it.
-/

namespace FlowSdn.Reconcile

open OrderedMap Tables Concurrent

section Batches

variable {Row : Type} [Keyed Row] {terms : Terms} {system : System Row} {view : View Row}
  {fact : Fact Row} {log : List (Event Row)} {pending : List (Work Row)} {work : Work Row}

theorem fillFound_obeys (rest : Rest terms system) :
    Rests terms (fillFound : Task Row Found) system := by
  refine Obeys.look trivial Lasting.true rest.here fun now later there => ?_
  refine Obeys.self Lasting.true there fun further arrived => ?_
  have settled := arrived.rest rest.2
  have self_eq : further.self = system.self := arrived.self_eq
  split
  · rename_i key retry isDue
    refine retryWork_obeys settled ?_
    rw [self_eq]
    exact RetryQueue.due_eq_some isDue
  · split
    · exact Obeys.rest settled
    · rename_i alone
      refine refreshFound_obeys settled fun work member => ?_
      rw [self_eq] at member
      rw [Bool.not_eq_true, List.any_eq_false] at alone
      exact Bool.not_eq_true _ ▸ alone work member

theorem fillBatch_obeys (room : Nat) (round : Round) (rest : Rest terms system) :
    Rests terms (fillBatch room round : Task Row Round) system := by
  induction room generalizing round system with
  | zero => exact Obeys.rest rest
  | succ room induction =>
      refine Obeys.bind (fillFound_obeys rest) fun found later rested => ?_
      cases found with
      | pushed => exact induction round rested
      | stale => exact induction _ rested
      | nothing => exact Obeys.rest rested

/-! ## The works that are current -/

/-- A choice of works, in which an update is the newest work of its key in the queue. -/
structure Filtered (queue works active : List (Work Row)) : Prop where
  sublist : active.Sublist works
  newest : ∀ work ∈ active, work.row.isSome → ∀ other ∈ queue, other.key = work.key →
    other.revision ≤ work.revision

theorem lasting_outdated (works active : List (Work Row)) :
    Lasting fun history (_ : Version Row) => ∀ work ∈ works,
      work ∈ active ∨ Superseded history work.key work.revision :=
  fun _ _ _ _ _ _ holds work member => (holds work member).imp_right (·.append _)

variable {version : Version Row} {works active took : List (Work Row)} {results : List BatchResult}
  {other : Work Row} {history : List Mutation} {result : Option (Except String Unit)}
  {round : Round}

omit [Keyed Row] in
theorem held_of_current (isCurrent : version.Current work.mutation)
    (isUpdate : work.row.isSome) : ∃ row, version.rows[work.key]? = some (row, work.revision) := by
  unfold Version.Current at isCurrent
  cases held : version.rows[work.mutation.key]? with
  | none =>
      rw [held] at isCurrent
      have isNone : work.row.isNone = true := isCurrent
      rw [Option.isNone_iff_eq_none.mp isNone] at isUpdate
      cases isUpdate
  | some pair =>
      rcases pair with ⟨row, revision⟩
      rw [held] at isCurrent
      exact ⟨row, held.trans (congrArg (fun number => some (row, number)) isCurrent.2)⟩

theorem newest_of_current (grounded : Grounded system)
    (isCurrent : system.published.Current work.mutation) (isUpdate : work.row.isSome)
    (queued : other ∈ system.self.pending) (isKey : other.key = work.key) :
    other.revision ≤ work.revision := by
  rcases held_of_current isCurrent isUpdate with ⟨row, held⟩
  exact (grounded.chronicle.present _ row _ held).2 other.mutation
    (grounded.queue other queued).noted isKey

theorem filterCurrent_obeys (lasting : Lasting fact)
    (here : At terms view fact system) (queued : ∀ work ∈ works, work ∈ view.self.pending) :
    Obeys terms (fun active later => Filtered view.self.pending works active ∧
        At terms view (fun history version => fact history version ∧ ∀ work ∈ works,
          work ∈ active ∨ Superseded history work.key work.revision) later)
      (filterCurrent works) system := by
  induction works generalizing fact system with
  | nil =>
      refine Obeys.ended ((stable_at (lasting.and (lasting_outdated _ _))).and _)
        ⟨⟨.refl _, ?_⟩, ?_⟩
      · exact List.forall_mem_nil _
      · exact here.weaken fun holds => ⟨holds, List.forall_mem_nil _⟩
  | cons work works induction =>
      have inQueue : ∀ later, At terms view fact later → work ∈ later.self.pending := by
        intro later there
        rw [there.self_eq]
        exact queued work (.head _)
      refine Obeys.bind (current_obeys lasting here
        (fun later there => there.sound.grounded.queue work (inQueue later there)) (?_ :
          ∀ later, At terms view fact later → later.published.Current work.mutation →
            work.row.isSome → ∀ other ∈ view.self.pending, other.key = work.key →
              other.revision ≤ work.revision)) fun isCurrent later reached => ?_
      · intro later there isCurrent isUpdate other member isKey
        rw [← there.self_eq] at member
        exact newest_of_current there.sound.grounded isCurrent isUpdate member isKey
      rcases reached with ⟨newest, there⟩
      have lasts := lasting.and ((lasting_superseded work.key work.revision).imp
        (isCurrent = false))
      refine Obeys.bind (induction lasts there fun other member => queued other (.tail _ member))
        fun active further reached => ?_
      rcases reached with ⟨filtered, arrived⟩
      refine Obeys.ended ((stable_at (lasting.and (lasting_outdated _ _))).and _) ⟨?_, ?_⟩
      · cases isCurrent with
        | true =>
            refine ⟨filtered.sublist.cons_cons work, fun other member => ?_⟩
            rcases List.mem_cons.mp member with rfl | member
            · exact newest rfl
            · exact filtered.newest other member
        | false => exact ⟨filtered.sublist.cons work, filtered.newest⟩
      · refine arrived.weaken fun holds => ⟨holds.1.1, fun other member => ?_⟩
        cases isCurrent with
        | true =>
            rcases List.mem_cons.mp member with rfl | member
            · exact .inl (.head _)
            · exact (holds.2 other member).imp_left (.tail _)
        | false =>
            rcases List.mem_cons.mp member with rfl | member
            · exact .inr (holds.1.2 rfl)
            · exact holds.2 other member

/-! ## The target's answer -/

def BatchResult.id (result : BatchResult) : Stamped := ⟨result.revision, result.key⟩

omit [Keyed Row] in
theorem isFor_iff {result : BatchResult} : result.isFor work = true ↔ result.id = work.id := by
  unfold BatchResult.isFor BatchResult.id Work.id
  rw [Bool.and_eq_true, beq_iff_eq, beq_iff_eq, Stamped.mk.injEq, and_comm]

theorem indexResults_mem {indexed final : BTreeMap Stamped _}
    (isFinal : indexResults results indexed = some final) {id : Stamped}
    {result : Except String Unit} (held : final[id]? = some result) :
    indexed[id]? = some result ∨ ∃ other ∈ results, other.id = id ∧ other.result = result := by
  induction results generalizing indexed with
  | nil =>
      cases isFinal
      exact .inl held
  | cons first results induction =>
      unfold indexResults at isFinal
      split at isFinal
      · cases isFinal
      · rcases induction isFinal with earlier | ⟨other, member, isOther⟩
        · rcases getElem?_insert_eq_some_iff.mp earlier with isFirst | ⟨_, isEarlier⟩
          · exact .inr ⟨first, .head _, isFirst⟩
          · exact .inl isEarlier
        · exact .inr ⟨other, .tail _ member, isOther⟩

theorem indexResults_some (indexed : BTreeMap Stamped _)
    (nodup : (results.map (·.id)).Nodup) (fresh : ∀ result ∈ results, indexed[result.id]? = none) :
    ∃ final, indexResults results indexed = some final ∧
      (∀ result ∈ results, (final[result.id]?).isSome) ∧
      ∀ id : Stamped, (indexed[id]?).isSome → (final[id]?).isSome := by
  induction results generalizing indexed with
  | nil => exact ⟨indexed, rfl, List.forall_mem_nil _, fun _ held => held⟩
  | cons first results induction =>
      rw [List.map_cons, List.nodup_cons] at nodup
      have isFresh : (indexed[(⟨first.revision, first.key⟩ : Stamped)]?).isSome = false := by
        rw [Option.isSome_eq_false_iff, Option.isNone_iff_eq_none]
        exact fresh first (.head _)
      have different : ∀ result ∈ results, first.id ≠ result.id := by
        intro result member same
        exact nodup.1 (List.mem_map.mpr ⟨result, member, same.symm⟩)
      have later : ∀ result ∈ results,
          (indexed.insert first.id first.result)[result.id]? = none := by
        intro result member
        rw [getElem?_insert_of_ne (different result member)]
        exact fresh result (.tail _ member)
      rcases induction _ nodup.2 later with ⟨final, isFinal, present, kept⟩
      have insert_kept : ∀ id : Stamped, (indexed[id]?).isSome →
          ((indexed.insert first.id first.result)[id]?).isSome := by
        intro id held
        by_cases same : first.id = id
        · rw [same, Std.ExtTreeMap.getElem?_insert_self]
          rfl
        · rw [getElem?_insert_of_ne same]
          exact held
      refine ⟨final, ?_, ?_, fun id held => kept id (insert_kept id held)⟩
      · unfold indexResults
        rw [isFresh]
        exact isFinal
      · intro result member
        rcases List.mem_cons.mp member with rfl | member
        · refine kept _ ?_
          rw [Std.ExtTreeMap.getElem?_insert_self]
          rfl
        · exact present result member

omit [Keyed Row] in
/-- One result for each: the results are for what was asked, each once. -/
theorem answersEach_iff :
    answersEach active (some results) = true ↔ (results.map (·.id)).Nodup ∧
      ∀ id, id ∈ results.map (·.id) ↔ id ∈ active.map Work.id := by
  unfold answersEach
  rw [Bool.and_eq_true, Bool.and_eq_true, decide_eq_true_eq, List.all_eq_true, List.all_eq_true]
  have distinct : (results.map fun result => (result.key, result.revision)).Nodup ↔
      (results.map (·.id)).Nodup := by
    have injective : Function.Injective fun id : Stamped => (id.key, id.number) := by
      rintro ⟨number, key⟩ ⟨other, also⟩ same
      cases same
      rfl
    rw [← List.nodup_map_iff injective, List.map_map]
    rfl
  rw [distinct, and_assoc]
  refine and_congr_right fun _ => ⟨?_, ?_⟩
  · rintro ⟨answered, asked⟩ id
    constructor
    · intro member
      rcases List.mem_map.mp member with ⟨result, isResult, rfl⟩
      rcases List.any_eq_true.mp (asked result isResult) with ⟨work, isWork, isFor⟩
      exact List.mem_map.mpr ⟨work, isWork, (isFor_iff.mp isFor).symm⟩
    · intro member
      rcases List.mem_map.mp member with ⟨work, isWork, rfl⟩
      rcases List.any_eq_true.mp (answered work isWork) with ⟨result, isResult, isFor⟩
      exact List.mem_map.mpr ⟨result, isResult, isFor_iff.mp isFor⟩
  · intro same
    constructor
    · intro work isWork
      rcases List.mem_map.mp ((same work.id).mpr (List.mem_map_of_mem isWork)) with
        ⟨result, isResult, isFor⟩
      exact List.any_eq_true.mpr ⟨result, isResult, isFor_iff.mpr isFor⟩
    · intro result isResult
      rcases List.mem_map.mp ((same result.id).mp (List.mem_map_of_mem isResult)) with
        ⟨work, isWork, isFor⟩
      exact List.any_eq_true.mpr ⟨work, isWork, isFor_iff.mpr isFor.symm⟩

omit [Keyed Row] in
theorem validate_isSome
    (nodup : (active.map Work.id).Nodup) (each : answersEach active (some results) = true) :
    (validate active results).isSome := by
  rcases answersEach_iff.mp each with ⟨ids, same⟩
  have lengths : results.length = active.length := by
    simpa using ((List.perm_ext_iff_of_nodup ids nodup).mpr same).length_eq
  rcases indexResults_some ∅ ids fun _ _ => Std.ExtTreeMap.getElem?_empty with
    ⟨final, isFinal, present, _⟩
  have complete : (active.any fun work => (final[work.id]?).isNone) = false := by
    refine List.any_eq_false.mpr fun work member isNone => ?_
    rcases List.mem_map.mp ((same work.id).mpr (List.mem_map_of_mem member)) with
      ⟨result, isResult, isFor⟩
    have held := present result isResult
    rw [isFor, Option.isNone_iff_eq_none.mp isNone] at held
    cases held
  unfold validate
  rw [if_neg (not_not_intro lengths), isFinal, Option.bind_some, complete]
  rfl

omit [Keyed Row] in
theorem validate_mem {indexed : BTreeMap Stamped _}
    (valid : validate active results = some indexed) {id : Stamped} {result : Except String Unit}
    (held : indexed[id]? = some result) :
    ∃ other ∈ results, other.id = id ∧ other.result = result := by
  unfold validate at valid
  split at valid
  · cases valid
  · rcases Option.bind_eq_some_iff.mp valid with ⟨final, isFinal, checked⟩
    split at checked
    · cases checked
    · cases checked
      rcases indexResults_mem isFinal held with earlier | found
      · cases earlier.symm.trans Std.ExtTreeMap.getElem?_empty
      · exact found

/-- The log after the target was asked for some works, of which some took effect. -/
def logAfter (works took : List (Work Row)) (log : List (Event Row)) : List (Event Row) :=
  (took.map .done).reverse ++ (works.map .called).reverse ++ log

theorem Obeys.callBatch {α : Type} {done : α → System Row → Prop}
    {next : Option (List BatchResult) → Task Row α} (lasting : Lasting fact)
    (here : At terms view fact system)
    (genuine : ∀ history version, fact history version →
      ∀ work ∈ works, work.Genuine history version)
    (announced : ∀ work ∈ works, ∀ revision, ¬IsDone view.self.statuses work.key revision)
    (continues : ∀ reply took later, (∀ work ∈ took, work ∈ works) → agrees reply took = true →
      (terms.honest = true → answersEach works reply = true) →
      At terms { view with log := logAfter works took view.log } fact later →
        Obeys terms done (next reply) later) :
    Obeys terms done (ask (.callBatch works) >>= next) system := by
  refine Obeys.perform lasting here fun later choice reply left there ran => ?_
  cases choice with
  | answers given order =>
      unfold effect at ran
      dsimp only at ran
      split at ran
      · rename_i met
        rw [Bool.and_eq_true, Bool.or_eq_true] at met
        cases ran
        have subset : ∀ work ∈ order.filterMap (works[·]?), work ∈ works := by
          intro work member
          rcases List.mem_filterMap.mp member with ⟨index, _, held⟩
          exact List.mem_of_getElem? held
        refine ⟨.attempt works _ subset (genuine _ _ there.fact) ?_, fun sound =>
          continues reply _ _ subset met.1 ?_ ⟨sound, ?_, there.fact⟩⟩
        · rw [there.self_eq]
          exact announced
        · intro isHonest
          rcases met.2 with isDishonest | answered
          · rw [isHonest] at isDishonest
            cases isDishonest
          · exact answered
        · rw [← there.view]
          rfl
      · cases ran
  | _ => cases ran

structure BatchAnswer (terms : Terms) (fact : Fact Row) (active : List (Work Row))
    (results : List BatchResult) (log : List (Event Row)) : Prop where
  called : ∀ work ∈ active, Called log work.key work.revision
  answered : ∀ work ∈ active, ∀ result ∈ results, result.id = work.id →
    ∀ history version, fact history version → Answered log work result.result history version
  honest : terms.honest = true → answersEach active (some results) = true

omit [Keyed Row] in
/-- If a work under a key took effect, the last event under the key is about such a work. -/
theorem lastOn_logAfter {key : Key} {work : Work Row}
    (member : work ∈ took) (isKey : work.key = key) :
    ∃ event ∈ took, event.key = key ∧
      lastOn key (logAfter works took log) = some (.done event) := by
  have touched : ((took.map Event.done).reverse.find? (Event.touches key)).isSome := by
    refine List.find?_isSome.mpr ⟨.done work, ?_, beq_iff_eq.mpr isKey⟩
    exact List.mem_reverse.mpr (List.mem_map.mpr ⟨work, member, rfl⟩)
  rcases Option.isSome_iff_exists.mp touched with ⟨event, found⟩
  rcases List.mem_map.mp (List.mem_reverse.mp (List.mem_of_find?_eq_some found)) with
    ⟨other, isOther, rfl⟩
  have touches : Event.touches key (.done other) = true := List.find?_some found
  refine ⟨other, isOther, beq_iff_eq.mp touches, ?_⟩
  unfold lastOn logAfter
  rw [List.append_assoc, List.find?_append, found, Option.some_or]

omit [Keyed Row] in
theorem called_logAfter (member : work ∈ works) :
    Called (logAfter works took log) work.key work.revision := by
  refine ⟨work, List.mem_append_left _ (List.mem_append_right _ ?_), rfl, rfl⟩
  exact List.mem_reverse.mpr (List.mem_map.mpr ⟨work, member, rfl⟩)

/-- The target's last event under the key of an update is about it: nothing else under the key
was asked for. -/
theorem answered_batch {result : BatchResult}
    (alike : work.row.isSome → ∀ other ∈ active, other.key = work.key →
      other.mutation = work.mutation) (genuine : ∀ other ∈ active, other.Genuine history version)
    (subset : ∀ other ∈ took, other ∈ active) (agree : agrees (some results) took = true)
    (asked : work ∈ active) (member : result ∈ results) (isFor : result.id = work.id) :
    Answered (logAfter active took log) work result.result history version := by
  refine ⟨.inr (called_logAfter asked), fun isOk isUpdate => ?_⟩
  have agreed := beq_iff_eq.mp (List.all_eq_true.mp agree result member)
  rw [isOk] at agreed
  rcases List.any_eq_true.mp agreed.symm with ⟨done, isDone, forDone⟩
  have isKey : done.key = work.key :=
    congrArg Stamped.key ((isFor_iff.mp forDone).symm.trans isFor)
  rcases lastOn_logAfter isDone isKey with ⟨event, took_event, keyed, last⟩
  have inside := subset event took_event
  exact ⟨event, last, alike isUpdate event inside keyed, genuine event inside⟩

theorem askBatch_obeys (lasting : Lasting fact)
    (here : At terms view fact system) (empty : view.hand = [])
    (alike : ∀ work ∈ active, work.row.isSome → ∀ other ∈ active, other.key = work.key →
      other.mutation = work.mutation)
    (genuine : ∀ history version, fact history version →
      ∀ work ∈ active, work.Genuine history version)
    (announced : ∀ work ∈ active, ∀ revision, ¬IsDone view.self.statuses work.key revision) :
    Obeys terms (fun results later => ∃ log, BatchAnswer terms fact active results log ∧
        At terms { view with log } fact later) (askBatch active) system := by
  have stable : ∀ results, Stable (Steps terms) 0 fun later => ∃ log,
      BatchAnswer terms fact active results log ∧ At terms { view with log } fact later := by
    rintro results before after foreign ⟨log, answer, there⟩
    exact ⟨log, answer, stable_at lasting before after foreign there⟩
  unfold askBatch
  split
  · rename_i isEmpty
    cases List.isEmpty_iff.mp isEmpty
    refine Obeys.ended (stable _) ⟨view.log, ⟨?_, ?_, fun _ => rfl⟩, here⟩
    · exact List.forall_mem_nil _
    · exact List.forall_mem_nil _
  · refine Obeys.callBatch lasting here genuine announced ?_
    intro reply took later subset agree honest there
    cases reply with
    | none => exact Obeys.stopped sensible_cancelled (there.rest empty)
    | some results =>
        refine Obeys.ended (stable _) ⟨_, ⟨?_, ?_, honest⟩, there⟩
        · exact fun work member => called_logAfter member
        · exact fun work asked result member isFor history version holds =>
            answered_batch (alike work asked) (genuine history version holds) subset agree asked
              member isFor

/-! ## Settling -/

/-- What is known of a work whose batch was answered: it was asked for and its result can be
relied on, or it was written over. -/
def Settling (fact : Fact Row) (log : List (Event Row)) (work : Work Row)
    (result : Option (Except String Unit)) : Prop :=
  (Called log work.key work.revision ∧ ∀ value, result = some value →
    ∀ history version, fact history version → Answered log work value history version) ∨
  ∀ history version, fact history version → Superseded history work.key work.revision

theorem Settling.settled (settling : Settling fact log work result) (holds : fact history version) :
    Superseded history work.key work.revision ∨ Called log work.key work.revision := by
  rcases settling with ⟨called, _⟩ | superseded
  · exact .inr called
  · exact .inl (superseded history version holds)

theorem settleWork_obeys (lasting : Lasting fact)
    (between : Between terms log (work :: pending) fact system)
    (settling : Settling fact log work result)
    (genuine : ∀ history version, fact history version → work.Genuine history version) :
    Obeys terms (fun _ => Between terms log pending fact) (settleWork work result round)
      system := by
  have discards : ∀ later round, Between terms log (work :: pending) fact later →
      Obeys terms (fun _ => Between terms log pending fact)
        (do discardWork work; return round : Task Row Round) later := by
    intro later round there
    refine Obeys.bind (discardWork_obeys lasting there fun _ _ holds => settling.settled holds)
      fun _ further arrived => ?_
    exact Obeys.between lasting arrived
  cases result with
  | none => exact discards system _ between
  | some value =>
      rcases between with ⟨self, isPending, here⟩
      -- an update that was written over is not current any more
      refine Obeys.bind (current_obeys lasting here (fun _ there => genuine _ _ there.fact) (?_ :
        ∀ later, At terms ⟨self, log, []⟩ fact later → later.published.Current work.mutation →
          (∀ history version, fact history version →
            Superseded history work.key work.revision) → work.row.isSome = false))
        fun isCurrent later reached => ?_
      · intro later there isCurrent superseded
        by_contra isUpdate
        rw [Bool.not_eq_false] at isUpdate
        rcases held_of_current isCurrent isUpdate with ⟨row, held⟩
        exact there.sound.grounded.chronicle.not_superseded held (superseded _ _ there.fact)
      rcases reached with ⟨learned, there⟩
      have next := there.weaken And.left
      cases isCurrent with
      | false => exact discards later _ ⟨self, isPending, next⟩
      | true =>
          have answered : ∀ history version, fact history version →
              Answered log work value history version := by
            intro history version holds
            rcases settling with ⟨_, answered⟩ | superseded
            · exact answered value rfl history version holds
            · refine ⟨.inl (superseded history version holds), fun _ isUpdate => ?_⟩
              rw [learned rfl superseded] at isUpdate
              cases isUpdate
          refine Obeys.look trivial lasting next fun now later there => ?_
          refine Obeys.bind (recordWork_obeys lasting ⟨self, isPending, there⟩ answered)
            fun round later recorded => ?_
          rcases recorded with ⟨after, isAfter, there⟩
          refine Obeys.look trivial lasting there fun now later there => ?_
          refine Obeys.bind (completeRefresh_obeys lasting ⟨after, isAfter, there⟩)
            fun _ later arrived => ?_
          exact Obeys.between lasting arrived

theorem settleGroup_obeys {indexed : BTreeMap Stamped (Except String Unit)}
    (lasting : Lasting fact) (between : Between terms log (works ++ pending) fact system)
    (settling : ∀ work ∈ works, Settling fact log work indexed[work.id]?)
    (genuine : ∀ work ∈ works, ∀ history version, fact history version →
      work.Genuine history version) :
    Obeys terms (fun _ => Between terms log pending fact) (settleGroup works indexed round)
      system := by
  induction works generalizing indexed round system with
  | nil => exact Obeys.between lasting between
  | cons work works induction =>
      refine Obeys.bind (settleWork_obeys lasting between (settling work (.head _))
        (genuine work (.head _))) fun round later between => ?_
      refine induction between (fun other member => ?_) fun other member =>
        genuine other (.tail _ member)
      -- the results of the works that are left are what they were, less the one that counted
      rcases settling other (.tail _ member) with ⟨called, answered⟩ | superseded
      · exact .inl ⟨called, fun value held =>
          answered value (getElem?_erase_eq_some_iff.mp held).2⟩
      · exact .inr superseded

/-! ## Groups -/

theorem lasting_works (works : List (Work Row)) :
    Lasting fun history version => ∀ work ∈ works, work.Genuine history version :=
  fun _ _ _ _ chronicle steps holds work member => (holds work member).steps chronicle steps

omit [Keyed Row] in
/-- The updates that are current, or the deletions, are one for each key. -/
theorem alike_of_filtered {queue group : List (Work Row)} {deleting : Bool}
    (filtered : Filtered queue group active) (queued : ∀ work ∈ group, work ∈ queue)
    (kind : ∀ work ∈ group, (work.row.isNone == deleting) = true) (asked : work ∈ active)
    (also : other ∈ active) (isUpdate : work.row.isSome) (isKey : other.key = work.key) :
    other.mutation = work.mutation := by
  have inGroup := filtered.sublist.subset asked
  have alsoInGroup := filtered.sublist.subset also
  have same : other.row.isNone = work.row.isNone :=
    (beq_iff_eq.mp (kind other alsoInGroup)).trans (beq_iff_eq.mp (kind work inGroup)).symm
  have alsoUpdate : other.row.isSome := by
    rw [← Option.not_isNone, same, Option.not_isNone]
    exact isUpdate
  have revision : other.revision = work.revision :=
    Nat.le_antisymm (filtered.newest work asked isUpdate other (queued other alsoInGroup) isKey)
      (filtered.newest other also alsoUpdate work (queued work inGroup) isKey.symm)
  unfold Work.mutation
  rw [isKey, revision, same]

/-- If no work is queued twice, a batch that an honest target answers is valid. -/
theorem sensible_batch
    (here : At terms view fact system) (sublist : active.Sublist view.self.pending)
    (answer : BatchAnswer terms fact active results log)
    (invalid : validate active results = none) : Sensible terms (.failed .invalidBatchResults) := by
  intro honest apart _
  have once := (here.sound.distinct apart).once
  rw [here.self_eq] at once
  have nodup : (active.map Work.id).Nodup := by
    refine List.Nodup.of_map Stamped.number ?_
    rw [List.map_map]
    exact (sublist.map _).nodup once.of_append_left
  have valid := validate_isSome nodup (answer.honest honest)
  rw [invalid] at valid
  cases valid

theorem runGroup_obeys (deleting : Bool) (round : Round) (rest : Rest terms system) :
    Rests terms (runGroup deleting round : Task Row Round) system := by
  rcases rest.between with ⟨self, _, here⟩
  refine Obeys.self Lasting.true here fun later there => ?_
  dsimp only
  generalize isGroup : (self.pending.take (self.options.roundSize - round.processed)).takeWhile
    (fun work => work.row.isNone == deleting) = group
  have isPrefix : group <+: self.pending := by
    rw [← isGroup]
    exact (List.takeWhile_prefix _).trans (List.take_prefix _ _)
  have kind : ∀ work ∈ group, (work.row.isNone == deleting) = true := by
    rw [← isGroup]
    intro work member
    have met := List.mem_takeWhile_imp member
    exact met
  have queued : ∀ work ∈ group, work ∈ self.pending := fun _ member => isPrefix.subset member
  have known : At terms ⟨self, system.log, []⟩
      (fun history version => ∀ work ∈ group, work.Genuine history version) later := by
    refine there.weaken fun _ work member => there.sound.grounded.queue work ?_
    rw [there.self_eq]
    exact queued work member
  refine Obeys.bind (filterCurrent_obeys (lasting_works group) known queued)
    fun active later reached => ?_
  rcases reached with ⟨filtered, there⟩
  have lasts := (lasting_works group).and (lasting_outdated group active)
  refine Obeys.bind (publishHealthChanges_obeys lasts there rfl) fun _ later there => ?_
  refine Obeys.amend lasts there (fun _ _ => .announce active) fun later there => ?_
  refine Obeys.publish lasts there rfl fun later there => ?_
  refine Obeys.bind (askBatch_obeys lasts there rfl ?_ ?_ ?_) fun results later reached => ?_
  · exact fun work asked isUpdate other also isKey =>
      alike_of_filtered filtered queued kind asked also isUpdate isKey
  · exact fun history version holds work member =>
      holds.1 work (filtered.sublist.subset member)
  · exact fun work member revision isDone => (isDone_attempt isDone).2 work member rfl
  · rcases reached with ⟨log, answer, there⟩
    cases valid : validate active results with
    | none =>
        refine Obeys.stopped (sensible_batch there ?_ answer valid) (there.rest rfl)
        exact filtered.sublist.trans isPrefix.sublist
    | some indexed =>
        rcases isPrefix with ⟨others, isPending⟩
        have between : Between terms log (group ++ others) _ later :=
          ⟨(self.attempt active).publishProgress, isPending.symm, there⟩
        refine (settleGroup_obeys lasts between ?_ ?_).weaken fun _ later ended => ended.rest
        · intro work member
          by_cases asked : work ∈ active
          · refine .inl ⟨answer.called work asked, fun value held => ?_⟩
            rcases validate_mem valid held with ⟨result, isResult, isFor, rfl⟩
            exact answer.answered work asked result isResult isFor
          · exact .inr fun history version holds => (holds.2 work member).resolve_left asked
        · exact fun work member history version holds => holds.1 work member

theorem runBatchRound_obeys (round : Round) (rest : Rest terms system) :
    Rests terms (runBatchRound round : Task Row Round) system := by
  refine Obeys.self Lasting.true rest.here fun later there => ?_
  refine Obeys.bind (fillBatch_obeys _ round (there.rest rest.2)) fun round later rested => ?_
  refine Obeys.amend Lasting.true rested.here (fun _ _ => .sort) fun sorted there => ?_
  refine Obeys.bind (runGroup_obeys true round (there.rest rested.2)) fun round last ended => ?_
  exact runGroup_obeys false round ended

end Batches

end FlowSdn.Reconcile
