import FlowSdn.Reconcile.Rules

/-! # Refresh

Choosing a row to write again looks at the table and changes nothing but the pass that the rows
are chosen from. A row that is chosen was published, and its status is done.
-/

namespace FlowSdn.Reconcile

open OrderedMap Tables Concurrent

section Refresh

variable {Row : Type}

def View.refreshed (view : View Row) (refresh : RefreshState Row) : View Row :=
  { view with self := { view.self with refresh } }

/-- A function of the reconciler's state changes the pass and nothing else, and fails only for
want of time. -/
def Refreshes (self : Reconciler Row) (outcome : Except ReconcileError (Reconciler Row))
    (genuine : RefreshState Row → Prop) : Prop :=
  match outcome with
  | .ok after => ∃ refresh, after = { self with refresh } ∧ genuine refresh
  | .error error => error = .refreshDeadlineOverflow

variable [Keyed Row] {history : List Mutation} {version : Version Row} {self : Reconciler Row}

theorem genuine_without_pass (nextDue notBefore : Option Nat) :
    ({ nextDue, notBefore, pass := none } : RefreshState Row).Genuine history version :=
  fun _ isPass => (Option.some_ne_none _ isPass.symm).elim

theorem RefreshState.Genuine.amend {refresh : RefreshState Row}
    (genuine : refresh.Genuine history version) {change : Pass Row → Pass Row}
    (kept : ∀ pass : Pass Row, pass.Genuine history version → (change pass).Genuine history version)
    (nextDue notBefore : Option Nat) :
    ({ nextDue, notBefore, pass := refresh.pass.map change } : RefreshState Row).Genuine
      history version := by
  intro pass isPass
  rcases Option.map_eq_some_iff.mp isPass with ⟨old, isOld, rfl⟩
  exact kept old (genuine old isOld)

theorem refreshes_finishRefreshPass (now : Nat) :
    Refreshes self (self.finishRefreshPass now) (RefreshState.Genuine history version) := by
  unfold Reconciler.finishRefreshPass
  cases next : checkedAdd now self.options.refreshInterval with
  | none => exact rfl
  | some time => exact ⟨_, rfl, genuine_without_pass _ _⟩

section

variable (genuine : self.refresh.Genuine history version)

include genuine

theorem refreshes_armRefresh (now : Nat) :
    Refreshes self (self.armRefresh now) (RefreshState.Genuine history version) := by
  unfold Reconciler.armRefresh
  split
  · exact ⟨self.refresh, rfl, genuine⟩
  · exact refreshes_finishRefreshPass now

theorem refreshes_completeRefreshWork (now : Nat) :
    Refreshes self (self.completeRefreshWork now) (RefreshState.Genuine history version) := by
  unfold Reconciler.completeRefreshWork
  split
  · exact refreshes_finishRefreshPass now
  · exact ⟨self.refresh, rfl, genuine⟩

theorem refreshes_rememberRecent (work : Work Row) :
    Refreshes self (self.rememberRecent work) (RefreshState.Genuine history version) := by
  have same : Refreshes self (.ok self) (RefreshState.Genuine history version) :=
    ⟨self.refresh, rfl, genuine⟩
  unfold Reconciler.rememberRecent
  split
  · split
    · split
      · rename_i updated _
        cases next : checkedAdd updated self.options.refreshInterval with
        | none => exact rfl
        | some time =>
            refine ⟨_, rfl, genuine.amend ?_ _ _⟩
            intro pass isGenuine
            split
            · exact ⟨isGenuine.rows, isGenuine.candidates⟩
            · exact isGenuine
      · exact same
    · exact same
  · exact same

end

/-! ## Tasks -/

variable {terms : Terms} {system : System Row} {view : View Row} {fact : Fact Row}

/-- The reconciler is where it was but for the pass. -/
def Refreshed (terms : Terms) (view : View Row) (fact : Fact Row) (system : System Row) : Prop :=
  ∃ refresh, At terms (view.refreshed refresh) fact system

theorem At.refreshed (here : At terms view fact system) : Refreshed terms view fact system :=
  ⟨view.self.refresh, here⟩

theorem stable_refreshed (lasting : Lasting fact) :
    Stable (Steps terms) 0 (Refreshed terms view fact) := by
  rintro before after foreign ⟨refresh, here⟩
  exact ⟨refresh, stable_at lasting before after foreign here⟩

theorem Obeys.refreshed {value : α} (lasting : Lasting fact)
    (here : Refreshed terms view fact system) :
    Obeys terms (fun _ => Refreshed terms view fact) (pure value : Task Row α) system :=
  Obeys.ended (stable_refreshed lasting) here

theorem Obeys.amendRefresh {change : Reconciler Row → Reconciler Row} {next : Unit → Task Row α}
    {done : α → System Row → Prop} (refresh : RefreshState Row) (lasting : Lasting fact)
    (here : At terms view fact system) (changed : change view.self = { view.self with refresh })
    (genuine : ∀ later, At terms view fact later → refresh.Genuine later.history later.published)
    (continues : ∀ later, At terms (view.refreshed refresh) fact later →
      Obeys terms done (next ()) later) :
    Obeys terms done (ask (.amend change) >>= next) system := by
  refine Obeys.amend lasting here ?_ ?_
  · intro later there
    have same : later.amended change = later.amended fun self => { self with refresh } := by
      unfold System.amended
      rw [there.self_eq, changed]
    rw [same]
    exact .refresh refresh (genuine later there)
  · intro later there
    rw [changed] at there
    exact continues later there

theorem tryAmend_obeys {change : Reconciler Row → Except ReconcileError (Reconciler Row)}
    (lasting : Lasting fact) (here : At terms view fact system) (empty : view.hand = [])
    (refreshes : ∀ later, At terms view fact later →
      Refreshes view.self (change view.self) (RefreshState.Genuine later.history later.published)) :
    Obeys terms (fun _ => Refreshed terms view fact) (tryAmend change) system := by
  refine Obeys.self lasting here fun later there => ?_
  cases outcome : change view.self with
  | error error =>
      have failed := refreshes later there
      rw [outcome] at failed
      refine Obeys.stopped (sensible_failed ?_) (there.rest empty)
      intro same
      rw [same] at failed
      cases failed
  | ok after =>
      have first := refreshes later there
      rw [outcome] at first
      rcases first with ⟨refresh, isAfter, _⟩
      change Obeys terms _ (ask _ >>= pure) later
      refine Obeys.amendRefresh refresh lasting there isAfter ?_ fun further arrived => ?_
      · intro further arrived
        have again := refreshes further arrived
        rw [outcome] at again
        rcases again with ⟨other, isOther, genuine⟩
        have equal : refresh = other :=
          congrArg Reconciler.refresh (isAfter.symm.trans isOther)
        rw [equal]
        exact genuine
      · exact Obeys.refreshed lasting ⟨refresh, arrived⟩

theorem At.refresh_genuine (here : At terms view fact system) :
    view.self.refresh.Genuine system.history system.published := by
  rw [← here.self_eq]
  exact here.sound.grounded.refresh

variable {work : Work Row} {started now : Nat}

section

variable (lasting : Lasting fact) (here : At terms view fact system)

include lasting here

theorem current_looks : Obeys terms (fun _ => At terms view fact) (current work) system := by
  refine Obeys.get lasting here fun later there => ?_
  exact Obeys.here lasting there

theorem refreshEligible_obeys :
    Obeys terms (fun eligible later =>
        (eligible = true → IsDone view.self.statuses work.key work.revision) ∧
          At terms view fact later) (refreshEligible work started) system := by
  refine Obeys.bind (current_looks lasting here) fun isCurrent later there => ?_
  refine Obeys.self lasting there fun further arrived => ?_
  refine Obeys.ended ((stable_at lasting).and _) ⟨fun eligible => ?_, arrived⟩
  rw [Bool.and_eq_true] at eligible
  have due := eligible.2
  unfold Reconciler.refreshDue at due
  rcases Option.any_eq_true .. |>.mp due with ⟨status, held, met⟩
  rw [Bool.and_eq_true, Bool.and_eq_true] at met
  exact ⟨status, held, beq_iff_eq.mp met.1.2, beq_iff_eq.mp met.1.1⟩

theorem rememberRecent_obeys (empty : view.hand = []) :
    Obeys terms (fun _ => Refreshed terms view fact) (rememberRecent work) system := by
  refine Obeys.bind (current_looks lasting here) fun isCurrent later there => ?_
  cases isCurrent with
  | true =>
      exact tryAmend_obeys lasting there empty fun further arrived =>
        refreshes_rememberRecent arrived.refresh_genuine work
  | false => exact Obeys.refreshed lasting there.refreshed

end

/-! ## Passes -/

structure Candidate (history : List Mutation) (version : Version Row) (work : Work Row) : Prop where
  genuine : work.Genuine history version
  isSome : work.row.isSome
  first : work.failures = 0
  refresh : work.refresh = true

theorem lasting_candidates (works : List (Work Row)) :
    Lasting fun history version => ∀ work ∈ works, Candidate history version work := by
  intro history version mutations after chronicle steps holds work member
  have candidate := holds work member
  exact ⟨candidate.genuine.steps chronicle steps, candidate.isSome, candidate.first,
    candidate.refresh⟩

theorem lasting_rows (rows : List (Row × Nat)) :
    Lasting fun history version => ∀ pair ∈ rows, Tables.Genuine history version pair.1 pair.2 := by
  intro history version mutations after chronicle steps holds pair member
  exact (holds pair member).steps chronicle steps

theorem candidate_refreshWork {row : Row} {revision : Nat}
    (genuine : Tables.Genuine history version row revision) :
    Candidate history version (refreshWork row revision) := by
  refine ⟨⟨genuine.noted, ?_, ?_⟩, rfl, rfl, rfl⟩
  · intro other isRow
    cases isRow
    rfl
  · intro other isRow third held
    cases isRow
    exact genuine.same third held

omit [Keyed Row] in
theorem mem_byRevision {snapshot : Version Row} {fromRevision : Nat} {pair : Row × Nat}
    (member : pair ∈ byRevision snapshot fromRevision) :
    ∃ key : Key, snapshot.rows[key]? = some pair := by
  rcases List.mem_filterMap.mp member with ⟨entry, _, held⟩
  exact ⟨entry.2, held⟩

def Chosen (terms : Terms) (view : View Row) (fact : Fact Row) (result : Option (Work Row))
    (system : System Row) : Prop :=
  (∀ work, result = some work → IsDone view.self.statuses work.key work.revision) ∧
    Refreshed terms view (fun history version => fact history version ∧
      ∀ work, result = some work → Candidate history version work) system

variable (lasting : Lasting fact)

include lasting

theorem lasting_chosen (result : Option (Work Row)) :
    Lasting fun history version => fact history version ∧
      ∀ work, result = some work → Candidate history version work := by
  refine lasting.and ?_
  intro history version mutations after chronicle steps holds work isWork
  have candidate := holds work isWork
  exact ⟨candidate.genuine.steps chronicle steps, candidate.isSome, candidate.first,
    candidate.refresh⟩

theorem chosen_none (here : Refreshed terms view fact system) :
    Obeys terms (Chosen terms view fact) (pure none : Task Row (Option (Work Row))) system := by
  rcases here with ⟨refresh, here⟩
  refine Obeys.ended ((stable_refreshed (lasting_chosen lasting none)).and _) ⟨?_, refresh, ?_⟩
  · exact fun _ isSome => (Option.some_ne_none _ isSome.symm).elim
  · exact here.weaken fun holds =>
      ⟨holds, fun _ isSome => (Option.some_ne_none _ isSome.symm).elim⟩

theorem scanRows_obeys {rows : List (Row × Nat)}
    (empty : view.hand = []) (candidates : List (Work Row)) (fromRevision : Nat)
    (found : ∀ history version, fact history version →
      (∀ pair ∈ rows, Tables.Genuine history version pair.1 pair.2) ∧
        ∀ work ∈ candidates, Candidate history version work)
    (here : Refreshed terms view fact system) :
    Obeys terms (fun result later =>
        (∀ history version, fact history version →
          ∀ work ∈ result.1, Candidate history version work) ∧ Refreshed terms view fact later)
      (scanRows started rows candidates fromRevision) system := by
  induction rows generalizing candidates fromRevision system with
  | nil =>
      exact Obeys.ended ((stable_refreshed lasting).and _)
        ⟨fun history version holds => (found history version holds).2, here⟩
  | cons pair rows induction =>
      rcases pair with ⟨row, revision⟩
      rcases here with ⟨refresh, here⟩
      have whole : ∀ history version, fact history version →
          ∀ work ∈ candidates ++ [refreshWork row revision], Candidate history version work := by
        intro history version holds work member
        rcases List.mem_append.mp member with old | new
        · exact (found history version holds).2 work old
        · rw [List.mem_singleton.mp new]
          exact candidate_refreshWork ((found history version holds).1 _ (.head _))
      -- the row becomes a candidate or not; in either case the scan goes on or ends here
      have goes : ∀ next later, (∀ history version, fact history version →
            ∀ work ∈ next, Candidate history version work) →
          Refreshed terms view fact later →
          Obeys terms (fun result later =>
              (∀ history version, fact history version →
                ∀ work ∈ result.1, Candidate history version work) ∧
                  Refreshed terms view fact later)
            (if revision + 1 < 2 ^ 64 then scanRows started rows next (revision + 1)
              else pure (next, fromRevision, true)) later := by
        intro next later kept there
        split
        · refine induction next (revision + 1) ?_ there
          intro history version holds
          exact ⟨fun other member => (found history version holds).1 other (.tail _ member),
            kept history version holds⟩
        · exact Obeys.ended ((stable_refreshed lasting).and _) ⟨kept, there⟩
      refine Obeys.bind (refreshEligible_obeys lasting here) fun eligible later there => ?_
      cases eligible with
      | true => exact goes _ later whole ⟨refresh, there.2⟩
      | false =>
          refine Obeys.bind (rememberRecent_obeys lasting there.2 empty) fun _ further arrived => ?_
          rcases arrived with ⟨next, arrived⟩
          exact goes _ further (fun history version holds => (found history version holds).2)
            ⟨next, arrived⟩

theorem skipCandidates_obeys (candidates : List (Work Row)) (empty : view.hand = [])
    (here : Refreshed terms view fact system) :
    Obeys terms (fun result later =>
        (∀ work, result = some work →
          work ∈ candidates ∧ IsDone view.self.statuses work.key work.revision) ∧
        Refreshed terms view fact later) (skipCandidates started now candidates) system := by
  have nothing : ∀ works : List (Work Row), ∀ work, (none : Option (Work Row)) = some work →
      work ∈ works ∧ IsDone view.self.statuses work.key work.revision :=
    fun _ _ isSome => (Option.some_ne_none _ isSome.symm).elim
  induction candidates generalizing system with
  | nil =>
      rcases here with ⟨refresh, here⟩
      refine Obeys.self lasting here fun later there => ?_
      split
      · refine Obeys.bind (tryAmend_obeys lasting there empty fun further arrived =>
          refreshes_finishRefreshPass now) fun _ further arrived => ?_
        rcases arrived with ⟨next, arrived⟩
        exact Obeys.ended ((stable_refreshed lasting).and _) ⟨nothing _, next, arrived⟩
      · refine Obeys.amendRefresh _ lasting there rfl ?_ fun further arrived => ?_
        · exact fun further arrived => arrived.refresh_genuine
        · exact Obeys.ended ((stable_refreshed lasting).and _) ⟨nothing _, _, arrived⟩
  | cons work rest induction =>
      rcases here with ⟨refresh, here⟩
      refine Obeys.bind (refreshEligible_obeys lasting here) fun eligible later there => ?_
      cases eligible with
      | true =>
          refine Obeys.ended ((stable_refreshed lasting).and _) ⟨?_, refresh, there.2⟩
          intro other isOther
          cases isOther
          exact ⟨.head _, there.1 rfl⟩
      | false =>
          refine Obeys.bind (rememberRecent_obeys lasting there.2 empty) fun _ further arrived => ?_
          rcases arrived with ⟨next, arrived⟩
          refine Obeys.amendRefresh _ lasting arrived rfl ?_ fun last ended => ?_
          · intro last ended
            refine RefreshState.Genuine.amend ended.refresh_genuine ?_ _ _
            exact fun old isGenuine => ⟨isGenuine.rows, fun other member =>
              isGenuine.candidates other (List.mem_of_mem_tail member)⟩
          · refine (induction ⟨_, ended⟩).weaken fun result last reached => ⟨?_, reached.2⟩
            intro other isOther
            exact ⟨.tail _ (reached.1 other isOther).1, (reached.1 other isOther).2⟩

variable (here : At terms view fact system)

include here

theorem openPass_obeys :
    Obeys terms (fun _ => Refreshed terms view fact) (openPass now) system := by
  refine Obeys.self lasting here fun later there => ?_
  split
  · refine Obeys.snapshot lasting there fun opened arrived => ?_
    have lasts : Lasting fun history version => ∀ (key : Key) row revision,
        opened.published.rows[key]? = some (row, revision) →
          Tables.Genuine history version row revision := by
      intro history version mutations after chronicle steps holds key row revision held
      exact (holds key row revision held).steps chronicle steps
    have known : At terms view (fun history version => fact history version ∧
        ∀ (key : Key) row revision, opened.published.rows[key]? = some (row, revision) →
          Tables.Genuine history version row revision) opened :=
      arrived.weaken fun holds => ⟨holds, fun key row revision held =>
        arrived.sound.grounded.chronicle.genuine held⟩
    change Obeys terms _ (ask _ >>= pure) opened
    refine Obeys.amendRefresh _ (lasting.and lasts) known rfl ?_ fun further reached => ?_
    · intro further reached pass isPass
      cases isPass
      exact ⟨reached.fact.2, List.forall_mem_nil _⟩
    · exact Obeys.refreshed lasting ⟨_, reached.weaken And.left⟩
  · exact Obeys.refreshed lasting there.refreshed

variable (empty : view.hand = [])

include empty

theorem scanPass_obeys :
    Obeys terms (fun _ => Refreshed terms view fact) (scanPass : Task Row Unit) system := by
  refine Obeys.self lasting here fun later there => ?_
  cases isPass : view.self.refresh.pass with
  | none => exact Obeys.refreshed lasting there.refreshed
  | some pass =>
      dsimp only
      split
      · have known : At terms view (fun history version => fact history version ∧
            ∀ pair ∈ (byRevision pass.snapshot pass.fromRevision).take view.self.options.roundSize,
              Tables.Genuine history version pair.1 pair.2) later := by
          refine there.weaken fun holds => ⟨holds, fun pair member => ?_⟩
          rcases mem_byRevision (List.mem_of_mem_take member) with ⟨key, held⟩
          exact (there.refresh_genuine pass isPass).rows key pair.1 pair.2 held
        have lasts := lasting.and (lasting_rows
          ((byRevision pass.snapshot pass.fromRevision).take view.self.options.roundSize))
        refine Obeys.bind (scanRows_obeys lasts empty [] pass.fromRevision ?_ known.refreshed)
          fun result further reached => ?_
        · exact fun history version holds =>
            ⟨holds.2, List.forall_mem_nil _⟩
        · rcases reached with ⟨candidates, refresh, arrived⟩
          change Obeys terms _ (ask _ >>= pure) further
          refine Obeys.amendRefresh _ lasts arrived rfl ?_ fun last ended => ?_
          · intro last ended
            refine RefreshState.Genuine.amend ended.refresh_genuine ?_ _ _
            refine fun old isGenuine => ⟨isGenuine.rows, fun work member => ?_⟩
            have candidate := candidates _ _ ended.fact work member
            exact ⟨candidate.genuine, candidate.isSome, candidate.first, candidate.refresh⟩
          · exact Obeys.refreshed lasting ⟨_, ended.weaken And.left⟩
      · exact Obeys.refreshed lasting there.refreshed

theorem dispatchRefresh_obeys :
    Obeys terms (fun result later =>
        (∀ other, result = some other → other = work) ∧ Refreshed terms view fact later)
      (dispatchRefresh now work) system := by
  refine Obeys.self lasting here fun later there => ?_
  split
  · refine Obeys.amendRefresh _ lasting there rfl ?_ fun further arrived => ?_
    · exact fun further arrived => arrived.refresh_genuine
    · refine Obeys.ended ((stable_refreshed lasting).and _) ⟨?_, _, arrived⟩
      exact fun _ isSome => (Option.some_ne_none _ isSome.symm).elim
  · refine checked_obeys (there.rest empty) (fun same => by cases same) fun time _ => ?_
    refine Obeys.amendRefresh _ lasting there rfl ?_ fun further arrived => ?_
    · intro further arrived
      refine RefreshState.Genuine.amend arrived.refresh_genuine ?_ _ _
      exact fun old isGenuine => ⟨isGenuine.rows, fun other member =>
        isGenuine.candidates other (List.mem_of_mem_tail member)⟩
    · refine Obeys.ended ((stable_refreshed lasting).and _) ⟨?_, _, arrived⟩
      exact fun _ isSome => (Option.some.inj isSome).symm

theorem chooseRefresh_obeys (now : Nat) :
    Obeys terms (Chosen terms view fact) (chooseRefresh now) system := by
  refine Obeys.bind (openPass_obeys lasting here) fun _ opened ⟨_, isOpened⟩ => ?_
  refine Obeys.bind (scanPass_obeys lasting isOpened empty) fun _ scanned ⟨refresh, isScanned⟩ => ?_
  refine Obeys.self lasting isScanned fun later there => ?_
  split
  · exact chosen_none lasting ⟨refresh, there⟩
  · rename_i pass isPass
    have known : At terms (view.refreshed refresh) (fun history version => fact history version ∧
        ∀ work ∈ pass.candidates, Candidate history version work) later := by
      refine there.weaken fun holds => ⟨holds, fun work member => ?_⟩
      rcases (there.refresh_genuine pass isPass).candidates work member with
        ⟨genuine, isSome, first, isRefresh⟩
      exact ⟨genuine, isSome, first, isRefresh⟩
    have lasts := lasting.and (lasting_candidates pass.candidates)
    refine Obeys.bind (skipCandidates_obeys lasts pass.candidates empty ⟨refresh, known⟩)
      fun result further reached => ?_
    rcases reached with ⟨eligible, next, arrived⟩
    cases result with
    | none => exact chosen_none lasting ⟨next, arrived.weaken And.left⟩
    | some work =>
        rcases eligible work rfl with ⟨member, isDone⟩
        refine (dispatchRefresh_obeys lasts arrived empty).weaken fun result last ended => ?_
        rcases ended with ⟨same, final, ended⟩
        refine ⟨?_, final, ended.weaken fun holds => ⟨holds.1, ?_⟩⟩
        · intro other isOther
          rw [same other isOther]
          exact isDone
        · intro other isOther
          rw [same other isOther]
          exact holds.2 work member

theorem nextRefreshWork_obeys :
    Obeys terms (Chosen terms view fact) (nextRefreshWork now) system := by
  refine Obeys.self lasting here fun later there => ?_
  split
  · exact chosen_none lasting there.refreshed
  · refine Obeys.bind (tryAmend_obeys lasting there empty fun further arrived =>
      refreshes_armRefresh arrived.refresh_genuine now) fun _ further ⟨refresh, arrived⟩ => ?_
    refine Obeys.self lasting arrived fun last ended => ?_
    split
    · exact chosen_none lasting ⟨refresh, ended⟩
    · have chosen := chooseRefresh_obeys lasting ended empty now
      exact chosen

end Refresh

end FlowSdn.Reconcile
