import FlowSdn.Reconcile.Distinct

/-! # Rules for rounds

The rules by which the operations of a round are followed one by one. Between two operations
only the table changes, and a fact about it that is used later is one that lasts: no write can
end it.
-/

namespace FlowSdn.Reconcile

open OrderedMap Tables Concurrent

section Rules

variable {Row : Type} [Keyed Row]

def Steps (terms : Terms) : Nat → System Row → System Row → Prop
  | 0 => Move terms
  | _ + 1 => Others

structure Sound (terms : Terms) (system : System Row) : Prop where
  grounded : Grounded system
  distinct : terms.apart = true → Distinct system

variable {terms : Terms} {system : System Row}

variable {after : System Row} {op : Op Row}

theorem Sound.move (sound : Sound terms system)
    (moved : Move terms system after) : Sound terms after :=
  ⟨sound.grounded.move moved,
    fun isApart => (sound.distinct isApart).move sound.grounded isApart moved⟩

theorem Sound.others (sound : Sound terms system)
    (others : Others system after) : Sound terms after :=
  ⟨sound.grounded.others others,
    fun isApart => (sound.distinct isApart).others others.self others.hand⟩

/-- The reconciler has no changes in its hand. -/
def Rest (terms : Terms) (system : System Row) : Prop :=
  Sound terms system ∧ system.hand = []

/-- What only the reconciler changes. -/
structure View (Row : Type) where
  self : Reconciler Row
  log : List (Event Row)
  hand : List (Change Row)

def System.view (system : System Row) : View Row := ⟨system.self, system.log, system.hand⟩

abbrev Fact (Row : Type) := List Mutation → Version Row → Prop

/-- A fact about what was published that no write ends. -/
def Lasting (fact : Fact Row) : Prop :=
  ∀ history version mutations after, Chronicle history version →
    version.Steps mutations after → fact history version → fact (history ++ mutations) after

/-- What is known between two operations. -/
structure At (terms : Terms) (view : View Row) (fact : Fact Row) (system : System Row) : Prop where
  sound : Sound terms system
  view : system.view = view
  fact : fact system.history system.published

theorem Lasting.true : Lasting fun (_ : List Mutation) (_ : Version Row) => True :=
  fun _ _ _ _ _ _ _ => trivial

theorem Lasting.and {left right : Fact Row} (first : Lasting left) (second : Lasting right) :
    Lasting fun history version => left history version ∧ right history version :=
  fun history version mutations after chronicle steps both =>
    ⟨first history version mutations after chronicle steps both.1,
      second history version mutations after chronicle steps both.2⟩

variable {fact : Fact Row} {view : View Row}

theorem Lasting.imp (lasting : Lasting fact) (condition : Prop) :
    Lasting fun history version => condition → fact history version :=
  fun history version mutations after chronicle steps holds met =>
    lasting history version mutations after chronicle steps (holds met)

theorem lasting_superseded (key : Key) (revision : Nat) :
    Lasting fun history (_ : Version Row) => Superseded history key revision :=
  fun _ _ _ _ _ _ superseded => superseded.append _

theorem lasting_genuine (work : Work Row) :
    Lasting fun history version => work.Genuine history version :=
  fun _ _ _ _ chronicle steps genuine => genuine.steps chronicle steps

theorem At.others (lasting : Lasting fact)
    (here : At terms view fact system) (others : Others system after) :
    At terms view fact after := by
  refine ⟨here.sound.others others, ?_, ?_⟩
  · rw [← here.view, System.view, System.view, others.self, others.log, others.hand]
  · rcases others.writes with ⟨mutations, history, steps⟩
    rw [history]
    exact lasting _ _ mutations _ here.sound.grounded.chronicle steps here.fact

theorem stable_at (lasting : Lasting fact) : Stable (Steps terms) 0 (At terms view fact) := by
  rintro before after ⟨other, different, moved⟩ here
  cases other with
  | zero => exact absurd rfl different
  | succ other => exact here.others lasting moved

theorem stable_rest : Stable (Steps terms) 0 (Rest terms : System Row → Prop) := by
  rintro before after ⟨other, different, moved⟩ rest
  cases other with
  | zero => exact absurd rfl different
  | succ other => exact ⟨rest.1.others moved, moved.hand.trans rest.2⟩

theorem Rest.here (rest : Rest terms system) :
    At terms system.view (fun _ _ => True) system :=
  ⟨rest.1, rfl, trivial⟩

section

variable (here : At terms view fact system)

include here

theorem At.rest
    (empty : view.hand = []) : Rest terms system :=
  ⟨here.sound, (congrArg View.hand here.view).trans empty⟩

theorem At.self_eq :
    system.self = view.self :=
  congrArg View.self here.view

theorem At.log_eq :
    system.log = view.log :=
  congrArg View.log here.view

theorem At.hand_eq :
    system.hand = view.hand :=
  congrArg View.hand here.view

theorem At.weaken {weaker : Fact Row}
    (implies : fact system.history system.published → weaker system.history system.published) :
    At terms view weaker system :=
  ⟨here.sound, here.view, implies here.fact⟩

end

/-! ## Tasks -/

/-- An honest target is never told that its answer to a batch is wrong. -/
def Sensible (terms : Terms) (stop : Stop) : Prop :=
  terms.honest = true → terms.apart = true → stop ≠ .failed .invalidBatchResults

/-- A task that ends early leaves the reconciler at rest. -/
def Ends (terms : Terms) (done : α → System Row → Prop) : Except Stop α → System Row → Prop
  | .ok value, system => done value system
  | .error stop, system => Sensible terms stop ∧ Rest terms system

/-- A task makes only moves, and what it returns with holds. -/
abbrev Obeys (terms : Terms) (done : α → System Row → Prop) (task : Task Row α)
    (system : System Row) : Prop :=
  Safe (platform terms) (Steps terms) 0 (Ends terms done) task.run system

/-- Whatever the task returns, the reconciler is at rest afterwards. -/
abbrev Rests (terms : Terms) (task : Task Row α) (system : System Row) : Prop :=
  Obeys terms (fun _ => Rest terms) task system

variable {view : View Row} {fact : Fact Row} {α β : Type} {done : α → System Row → Prop}
  {error : ReconcileError}

theorem Obeys.bind {task : Task Row β} {next : β → Task Row α} {between : β → System Row → Prop}
    (obeys : Obeys terms between task system)
    (continues : ∀ value later, between value later → Obeys terms done (next value) later) :
    Obeys terms done (task >>= next) system := by
  refine Safe.bind obeys fun result later persists => ?_
  cases result with
  | ok value => exact continues value later persists.now
  | error stop => exact persists

theorem Obeys.weaken {task : Task Row α} {stronger : α → System Row → Prop}
    (obeys : Obeys terms stronger task system)
    (implies : ∀ value later, stronger value later → done value later) :
    Obeys terms done task system := by
  refine Safe.weaken obeys fun result later ended => ?_
  cases result with
  | ok value => exact implies value later ended
  | error stop => exact ended

theorem Obeys.ended {value : α} (stable : Stable (Steps terms) 0 (done value))
    (holds : done value system) : Obeys terms done (pure value : Task Row α) system :=
  stable.persists holds

theorem Obeys.stopped {stop : Stop} (sensible : Sensible terms stop) (rest : Rest terms system) :
    Obeys terms done (throw stop : Task Row α) system := by
  refine Stable.persists ?_ ⟨sensible, rest⟩
  exact stable_rest.and _

theorem sensible_cancelled : Sensible terms .cancelled :=
  fun _ _ same => by cases same

section

variable (lasting : Lasting fact) (here : At terms view fact system)

include lasting here

theorem Obeys.perform {next : op.Answer → Task Row α}
    (acts : ∀ later choice answer left, At terms view fact later →
      effect terms op choice later = some (answer, left) →
        Move terms later left ∧ (Sound terms left → Obeys terms done (next answer) left)) :
    Obeys terms done (ask op >>= next) system := by
  intro later foreign choice answer left ran
  have there := (stable_at lasting).persists here later foreign
  rcases acts later choice answer left there ran with ⟨moved, continues⟩
  exact ⟨moved, continues (there.sound.move moved)⟩

theorem Obeys.self {next : Reconciler Row → Task Row α}
    (continues : ∀ later, At terms view fact later → Obeys terms done (next view.self) later) :
    Obeys terms done (ask .self >>= next) system := by
  refine Obeys.perform lasting here fun later choice answer left there ran => ?_
  cases choice with
  | go =>
      cases ran
      refine ⟨.look, fun _ => ?_⟩
      rw [there.self_eq]
      exact continues later there
  | _ => cases ran

theorem Obeys.amend {change : Reconciler Row → Reconciler Row} {next : Unit → Task Row α}
    (moves : ∀ later, At terms view fact later → Move terms later (later.amended change))
    (continues : ∀ later, At terms { view with self := change view.self } fact later →
      Obeys terms done (next ()) later) :
    Obeys terms done (ask (.amend change) >>= next) system := by
  refine Obeys.perform lasting here fun later choice answer left there ran => ?_
  cases choice with
  | go =>
      cases ran
      refine ⟨moves later there, fun sound => continues _ ⟨sound, ?_, there.fact⟩⟩
      rw [← there.view]
      rfl
  | _ => cases ran

theorem Obeys.snapshot {next : Version Row → Task Row α}
    (continues : ∀ later, At terms view fact later →
      Obeys terms done (next later.published) later) :
    Obeys terms done (ask .snapshot >>= next) system := by
  refine Obeys.perform lasting here fun later choice answer left there ran => ?_
  cases choice with
  | go =>
      cases ran
      exact ⟨.look, fun _ => continues _ there⟩
  | _ => cases ran

theorem Obeys.get {key : Key} {next : Option (Row × Nat) → Task Row α}
    (continues : ∀ later, At terms view fact later →
      Obeys terms done (next later.published.rows[key]?) later) :
    Obeys terms done (ask (.get key) >>= next) system := by
  refine Obeys.perform lasting here fun later choice answer left there ran => ?_
  cases choice with
  | go =>
      cases ran
      exact ⟨.look, fun _ => continues _ there⟩
  | _ => cases ran

end

/-- Operations that tell something that nothing depends on. -/
def Op.Looks : Op Row → Prop
  | .initialized | .requested | .clock | .supportsBatches | .polls | .health => True
  | _ => False

theorem effect_of_looks (looks : op.Looks) {choice : Choice} {answer : op.Answer}
    {left : System Row} (ran : effect terms op choice system = some (answer, left)) :
    left = system := by
  cases op <;> cases choice <;> first
    | exact absurd looks id
    | cases ran
  all_goals rfl

theorem Obeys.look {next : op.Answer → Task Row α} (looks : op.Looks)
    (lasting : Lasting fact) (here : At terms view fact system)
    (continues : ∀ answer later, At terms view fact later → Obeys terms done (next answer) later) :
    Obeys terms done (ask op >>= next) system := by
  refine Obeys.perform lasting here fun later choice answer left there ran => ?_
  rw [effect_of_looks looks ran]
  exact ⟨.look, fun _ => continues answer later there⟩

/-! ## Common tasks -/

theorem Obeys.here {value : α} (lasting : Lasting fact) (here : At terms view fact system) :
    Obeys terms (fun _ => At terms view fact) (pure value : Task Row α) system :=
  Obeys.ended (stable_at lasting) here

theorem Obeys.rest {value : α} (rest : Rest terms system) :
    Rests terms (pure value : Task Row α) system :=
  Obeys.ended stable_rest rest

theorem sensible_failed (other : error ≠ .invalidBatchResults) :
    Sensible terms (.failed error) :=
  fun _ _ same => other (Stop.failed.inj same)

theorem checked_obeys {value : Option β} {next : β → Task Row α} (rest : Rest terms system)
    (other : error ≠ .invalidBatchResults)
    (continues : ∀ result, value = some result → Obeys terms done (next result) system) :
    Obeys terms done (orFailed (checked error value) >>= next) system := by
  cases value with
  | none => exact Obeys.stopped (sensible_failed other) rest
  | some result => exact continues result rfl

theorem orCancelled_obeys {reply : Option β} {next : β → Task Row α} (rest : Rest terms system)
    (continues : ∀ result, reply = some result → Obeys terms done (next result) system) :
    Obeys terms done (orCancelled reply >>= next) system := by
  cases reply with
  | none => exact Obeys.stopped sensible_cancelled rest
  | some result => exact continues result rfl

theorem Obeys.either {condition : Prop} {_ : Decidable condition} {first second : Task Row β}
    {next : β → Task Row α} {between : β → System Row → Prop}
    (met : condition → Obeys terms between first system)
    (unmet : ¬condition → Obeys terms between second system)
    (continues : ∀ result later, between result later → Obeys terms done (next result) later) :
    Obeys terms done (if condition then first >>= next else second >>= next) system := by
  split
  · rename_i isMet
    exact Obeys.bind (met isMet) continues
  · rename_i isUnmet
    exact Obeys.bind (unmet isUnmet) continues

theorem publishHealthChanges_obeys (lasting : Lasting fact) (here : At terms view fact system)
    (empty : view.hand = []) :
    Obeys terms (fun _ => At terms view fact) (publishHealthChanges : Task Row Unit) system := by
  refine Obeys.look trivial lasting here fun answer later there => ?_
  cases answer with
  | none => exact Obeys.stopped sensible_cancelled (there.rest empty)
  | some made =>
      cases made with
      | true => exact Obeys.here lasting there
      | false =>
          exact Obeys.stopped (sensible_failed fun same => by cases same) (there.rest empty)

omit [Keyed Row] in
theorem current_iff (version : Version Row) (work : Work Row) :
    work.current version.rows[work.key]? = true ↔ version.Current work.mutation := by
  unfold Version.Current Work.mutation Work.current
  dsimp only
  cases version.rows[work.key]? with
  | none => exact Iff.rfl
  | some pair =>
      rcases pair with ⟨row, revision⟩
      dsimp only
      cases work.row <;> simp

/-- What a look at the table tells of a work: it is current, or written over for good. -/
theorem current_obeys {work : Work Row} {learned : Prop} (lasting : Lasting fact)
    (here : At terms view fact system)
    (genuine : ∀ later, At terms view fact later → work.Genuine later.history later.published)
    (learn : ∀ later, At terms view fact later → later.published.Current work.mutation → learned) :
    Obeys terms (fun isCurrent later => (isCurrent = true → learned) ∧
      At terms view (fun history version => fact history version ∧
        (isCurrent = false → Superseded history work.key work.revision)) later)
      (current work) system := by
  have lasts : ∀ isCurrent, Lasting fun history version => fact history version ∧
      (isCurrent = false → Superseded history work.key work.revision) :=
    fun _ => lasting.and ((lasting_superseded work.key work.revision).imp _)
  refine Obeys.get lasting here fun later there => ?_
  refine Obeys.ended ((stable_at (lasts _)).and _) ⟨?_, ?_⟩
  · intro isCurrent
    exact learn later there ((current_iff later.published work).mp isCurrent)
  · refine there.weaken fun holds => ⟨holds, fun outdated => ?_⟩
    refine there.sound.grounded.chronicle.superseded (genuine later there).noted ?_
    intro isCurrent
    rw [(current_iff later.published work).mpr isCurrent] at outdated
    cases outdated

end Rules

end FlowSdn.Reconcile
