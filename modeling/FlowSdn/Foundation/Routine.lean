import FlowSdn.Foundation.Threads

/-! # One routine at a time

A state that one owner works on and others may change. The owner runs one routine at a time, and
others act between two of its operations. A discipline says which moves the owner makes, what the
others do and in which states the owner rests; it then holds of every run.
-/

namespace FlowSdn.Concurrent

/-- A shared state, what is left of the owner's routine and what earlier ones returned with,
the newest first. -/
structure Session (Op : Type u) (Answer : Op → Type v) (σ : Type w) (α : Type z) where
  shared : σ
  running : Option (Thread Op Answer α) := none
  returned : List α := []

/-- Something happens: others act, or the owner starts a routine, performs its next operation
or takes what it returned with. -/
inductive Occasion (ι : Type y) (ω : Type x) (χ : Type u)
  | other (act : ω)
  | start (kind : ι)
  | act (choice : χ)
  | finish

namespace Session

variable {ι : Type y} {Op : Type u} {Answer : Op → Type v} {σ : Type w} {χ : Type x} {α : Type z}
  {ω : Type y'} (platform : Platform Op Answer σ χ) (others : ω → σ → σ)
  (routine : ι → Thread Op Answer α)

def step (session : Session Op Answer σ α) :
    Occasion ι ω χ → Option (Session Op Answer σ α)
  | .other act => some { session with shared := others act session.shared }
  | .start kind =>
      match session.running with
      | none => some { session with running := some (routine kind) }
      | some _ => none
  | .act choice =>
      match session.running with
      | some (.call op next) =>
          (platform.effect 0 op choice session.shared).map fun done =>
            { session with shared := done.2, running := some (next done.1) }
      | _ => none
  | .finish =>
      match session.running with
      | some (.done value) =>
          some { session with running := none, returned := value :: session.returned }
      | _ => none

def run (session : Session Op Answer σ α) (occasions : List (Occasion ι ω χ)) :
    Option (Session Op Answer σ α) :=
  occasions.foldlM (step platform others routine) session

variable {platform others routine}

theorem run_append (session : Session Op Answer σ α) (first second : List (Occasion ι ω χ)) :
    session.run platform others routine (first ++ second) =
      (session.run platform others routine first).bind
        fun middle => middle.run platform others routine second :=
  List.foldlM_append

end Session

section Disciplines

variable {ι : Type y} {Op : Type u} {Answer : Op → Type v} {σ : Type w} {χ : Type x} {α : Type z}
  {ω : Type y'}

/-- What an owner and others do to a state: the owner's moves and what others do keep an
invariant, and a routine started at rest makes moves and ends at rest. -/
structure Discipline (platform : Platform Op Answer σ χ) (others : ω → σ → σ)
    (routine : ι → Thread Op Answer α) (move : Nat → σ → σ → Prop) (invariant rest : σ → Prop)
    (post : α → Prop) : Prop where
  kept : ∀ thread before after, move thread before after → invariant before → invariant after
  rests : ∀ state, rest state → invariant state
  undisturbed : ∀ act state, rest state → rest (others act state)
  allowed : ∀ act state, invariant state → move 1 state (others act state)
  starts : ∀ kind state, rest state →
    Safe platform move 0 (fun value state => post value ∧ rest state) (routine kind) state

variable {platform : Platform Op Answer σ χ} {others : ω → σ → σ} {routine : ι → Thread Op Answer α}
  {move : Nat → σ → σ → Prop} {invariant rest : σ → Prop} {post : α → Prop}

/-- A session that keeps to the discipline. -/
structure Session.Obeys (platform : Platform Op Answer σ χ) (move : Nat → σ → σ → Prop)
    (invariant rest : σ → Prop) (post : α → Prop) (session : Session Op Answer σ α) : Prop where
  invariant : invariant session.shared
  resting : session.running = none → rest session.shared
  running : ∀ thread, session.running = some thread →
    Safe platform move 0 (fun value state => post value ∧ rest state) thread session.shared
  returned : ∀ value ∈ session.returned, post value

section

variable (discipline : Discipline platform others routine move invariant rest post)

include discipline

theorem Session.Obeys.start {shared : σ} (resting : rest shared) :
    Session.Obeys platform move invariant rest post ({ shared } : Session Op Answer σ α) where
  invariant := discipline.rests shared resting
  resting _ := resting
  running _ isRunning := (Option.some_ne_none _ isRunning.symm).elim
  returned _ member := absurd member List.not_mem_nil

theorem Session.Obeys.step {session after : Session Op Answer σ α} {occasion : Occasion ι ω χ}
    (obeys : session.Obeys platform move invariant rest post)
    (stepped : session.step platform others routine occasion = some after) :
    after.Obeys platform move invariant rest post ∧
      (after.shared = session.shared ∨ ∃ thread, move thread session.shared after.shared) := by
  cases occasion with
  | other act =>
      cases stepped
      have moved := discipline.allowed act session.shared obeys.invariant
      refine ⟨⟨discipline.kept 1 _ _ moved obeys.invariant, ?_, ?_, obeys.returned⟩,
        .inr ⟨1, moved⟩⟩
      · exact fun idle => discipline.undisturbed act _ (obeys.resting idle)
      · exact fun thread isRunning =>
          (obeys.running thread isRunning).interfered ⟨1, Nat.one_ne_zero, moved⟩
  | start kind =>
      cases idle : session.running with
      | some thread => simp [Session.step, idle] at stepped
      | none =>
          simp only [Session.step, idle, Option.some.injEq] at stepped
          subst stepped
          refine ⟨⟨obeys.invariant, ?_, ?_, obeys.returned⟩, .inl rfl⟩
          · exact fun none => (Option.some_ne_none _ none).elim
          · intro thread isRunning
            cases isRunning
            exact discipline.starts kind session.shared (obeys.resting idle)
  | act choice =>
      cases current : session.running with
      | none => simp [Session.step, current] at stepped
      | some thread =>
          cases thread with
          | done value => simp [Session.step, current] at stepped
          | call op next =>
              simp only [Session.step, current] at stepped
              rcases Option.map_eq_some_iff.mp stepped with ⟨⟨answer, left⟩, ran, rfl⟩
              rcases (obeys.running _ current).now choice answer left ran with ⟨moved, further⟩
              refine ⟨⟨discipline.kept 0 _ _ moved obeys.invariant, ?_, ?_, obeys.returned⟩,
                .inr ⟨0, moved⟩⟩
              · exact fun none => (Option.some_ne_none _ none).elim
              · intro thread isRunning
                cases isRunning
                exact further
  | finish =>
      cases current : session.running with
      | none => simp [Session.step, current] at stepped
      | some thread =>
          cases thread with
          | call op next => simp [Session.step, current] at stepped
          | done value =>
              simp only [Session.step, current, Option.some.injEq] at stepped
              subst stepped
              have ended : post value ∧ rest session.shared := (obeys.running _ current).now
              refine ⟨⟨obeys.invariant, fun _ => ended.2, ?_, ?_⟩, .inl rfl⟩
              · exact fun _ isRunning => (Option.some_ne_none _ isRunning.symm).elim
              · intro other member
                rcases List.mem_cons.mp member with rfl | member
                · exact ended.1
                · exact obeys.returned other member

theorem Session.Obeys.run {session after : Session Op Answer σ α}
    {occasions : List (Occasion ι ω χ)} (obeys : session.Obeys platform move invariant rest post)
    (ran : session.run platform others routine occasions = some after) :
    after.Obeys platform move invariant rest post ∧
      Relation.ReflTransGen (fun before after => ∃ thread, move thread before after)
        session.shared after.shared := by
  induction occasions generalizing session with
  | nil =>
      cases ran
      exact ⟨obeys, .refl⟩
  | cons occasion occasions induction =>
      rcases Option.bind_eq_some_iff.mp ran with ⟨middle, stepped, rest⟩
      rcases obeys.step discipline stepped with ⟨kept, moved⟩
      rcases induction kept rest with ⟨ended, moves⟩
      refine ⟨ended, ?_⟩
      rcases moved with same | moved
      · rw [← same]
        exact moves
      · exact .head moved moves

end

end Disciplines

end FlowSdn.Concurrent
