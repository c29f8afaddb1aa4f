import Mathlib.Tactic

/-! # Programs that may fail or be stopped

A program over a state returns a value, fails with an error its caller can handle, or
is stopped, which nothing handles. What it changed before stays changed.
-/

namespace FlowSdn

/-- Why a program has not returned. -/
inductive Halt (ε : Type u)
  | error (error : ε)
  | stopped
  deriving DecidableEq

def Fallible (σ : Type u) (ε α : Type v) := σ → Except (Halt ε) α × σ

namespace Fallible

variable {σ : Type u} {ε α β : Type v}

instance : Monad (Fallible σ ε) where
  pure value := fun state => (.ok value, state)
  bind program next := fun state =>
    match program state with
    | (.error halt, left) => (.error halt, left)
    | (.ok value, left) => next value left

def fail (error : ε) : Fallible σ ε α := fun state => (.error (.error error), state)

def ofExcept : Except ε α → Fallible σ ε α
  | .ok value => pure value
  | .error error => fail error

def view (read : σ → α) : Fallible σ ε α := fun state => (.ok (read state), state)

def modify (change : σ → σ) : Fallible σ ε PUnit := fun state => (.ok ⟨⟩, change state)

/-- The program's value or its error; a stop still stops. -/
def attempt (program : Fallible σ ε α) : Fallible σ ε (Except ε α) := fun state =>
  match program state with
  | (.ok value, left) => (.ok (.ok value), left)
  | (.error (.error error), left) => (.ok (.error error), left)
  | (.error .stopped, left) => (.error .stopped, left)

/-- The program, with a clean-up before its error goes on. -/
def onError (cleanup : Fallible σ ε PUnit) (program : Fallible σ ε α) : Fallible σ ε α := do
  match ← attempt program with
  | .ok value => pure value
  | .error error => do
      cleanup
      fail error

/-- A program over one part of a state, next to another part it cannot see. -/
def within (program : Fallible σ ε α) : Fallible (σ × ρ) ε α := fun state =>
  ((program state.1).1, ((program state.1).2, state.2))

/-! ## Running -/

@[simp] theorem ofExcept_ok (value : α) (state : σ) :
    (ofExcept (.ok value) : Fallible σ ε α) state = (.ok value, state) := rfl

theorem bind_run (program : Fallible σ ε α) (next : α → Fallible σ ε β) (state : σ) :
    (program >>= next) state =
      match program state with
      | (.error halt, left) => (.error halt, left)
      | (.ok value, left) => next value left := rfl

variable {left state : σ} {next : α → Fallible σ ε β} {program : Fallible σ ε α}

theorem bind_of_ok {value : α}
    (ran : program state = (.ok value, left)) : (program >>= next) state = next value left := by
  rw [bind_run, ran]

theorem bind_of_error {halt : Halt ε} (ran : program state = (.error halt, left)) :
    (program >>= next) state = (.error halt, left) := by
  rw [bind_run, ran]

theorem bind_fst_eq_ok {value : β} (ran : ((program >>= next) state).1 = .ok value) :
    ∃ found left, program state = (.ok found, left) ∧ (next found left).1 = .ok value := by
  rw [bind_run] at ran
  cases first : program state with
  | mk result left =>
      rw [first] at ran
      cases result with
      | error halt => cases ran
      | ok found => exact ⟨found, left, rfl, ran⟩

theorem within_run {result : Except (Halt ε) α} {other : ρ} (ran : program state = (result, left)) :
    (within program : Fallible (σ × ρ) ε α) (state, other) = (result, (left, other)) := by
  rw [within, ran]

theorem onError_of_ok {cleanup : Fallible σ ε PUnit}
    {value : α} (ran : program state = (.ok value, left)) :
    onError cleanup program state = (.ok value, left) := by
  have attempted : attempt program state = (.ok (.ok value), left) := by
    rw [attempt, ran]
  exact bind_of_ok attempted

/-- A clean-up that always returns does not change how the program ends. -/
theorem onError_fst {cleanup : Fallible σ ε PUnit} (cleans : ∀ state, (cleanup state).1 = .ok ⟨⟩)
    (program : Fallible σ ε α) (state : σ) :
    (onError cleanup program state).1 = (program state).1 := by
  cases ran : program state with
  | mk result left =>
      cases result with
      | ok value => rw [onError_of_ok ran]
      | error halt =>
          cases halt with
          | stopped =>
              have attempted : attempt program state = (.error .stopped, left) := by
                rw [attempt, ran]
              rw [onError, bind_of_error attempted]
          | error error =>
              have attempted : attempt program state = (.ok (.error error), left) := by
                rw [attempt, ran]
              have cleaned : cleanup left = (.ok ⟨⟩, (cleanup left).2) := by
                rw [← cleans left]
              have ended : (cleanup >>= fun _ => (fail error : Fallible σ ε α)) left =
                  (.error (.error error), (cleanup left).2) := bind_of_ok cleaned
              rw [onError, bind_of_ok attempted]
              change ((cleanup >>= fun _ => (fail error : Fallible σ ε α)) left).1 = _
              rw [ended]

/-! ## Triples -/

/-- From a state with the precondition the program leaves its result and its state with
the postcondition. -/
def Triple (before : σ → Prop) (program : Fallible σ ε α)
    (after : Except (Halt ε) α → σ → Prop) : Prop :=
  ∀ state, before state → after (program state).1 (program state).2

section Triple

variable {before : σ → Prop} {program : Fallible σ ε α} {after : Except (Halt ε) β → σ → Prop}

/-- The steps in turn; where the first does not return, the postcondition holds already. -/
theorem Triple.bind {next : α → Fallible σ ε β} {between : Except (Halt ε) α → σ → Prop}
    (first : Triple before program between)
    (halts : ∀ halt state, between (.error halt) state → after (.error halt) state)
    (rest : ∀ value, Triple (between (.ok value)) (next value) after) :
    Triple before (program >>= next) after := by
  intro state holds
  have reached := first state holds
  rw [bind_run]
  cases ran : program state with
  | mk result left =>
      rw [ran] at reached
      cases result with
      | error halt => exact halts halt left reached
      | ok value => exact rest value left reached

theorem Triple.strengthen {program : Fallible σ ε β} {weaker : σ → Prop}
    (holds : Triple weaker program after) (stronger : ∀ state, before state → weaker state) :
    Triple before program after :=
  fun state start => holds state (stronger state start)

theorem Triple.bind_ofExcept {value : Except ε α} {next : α → Fallible σ ε β}
    (fails : ∀ error, value = .error error → ∀ state, before state →
      after (.error (.error error)) state)
    (rest : ∀ found, value = .ok found → Triple before (next found) after) :
    Triple before (ofExcept value >>= next) after := by
  cases value with
  | error error => exact fails error rfl
  | ok found => exact rest found rfl

theorem Triple.attempt {between : Except (Halt ε) α → σ → Prop}
    {after : Except (Halt ε) (Except ε α) → σ → Prop} (holds : Triple before program between)
    (stops : ∀ state, between (.error .stopped) state → after (.error .stopped) state)
    (fails : ∀ error state, between (.error (.error error)) state →
      after (.ok (.error error)) state)
    (returns : ∀ value state, between (.ok value) state → after (.ok (.ok value)) state) :
    Triple before (attempt program) after := by
  intro state start
  have reached := holds state start
  unfold Fallible.attempt
  cases ran : program state with
  | mk result left =>
      rw [ran] at reached
      cases result with
      | ok value => exact returns value left reached
      | error halt =>
          cases halt with
          | error error => exact fails error left reached
          | stopped => exact stops left reached

end Triple

/-- Whatever the result, the property still holds after the program. -/
def Keeps (holds : σ → Prop) (program : Fallible σ ε α) : Prop :=
  Triple holds program fun _ => holds

namespace Keeps

variable {holds : σ → Prop} {program : Fallible σ ε α}

theorem pure (value : α) : Keeps holds (pure value : Fallible σ ε α) := fun _ start => start

theorem fail (error : ε) : Keeps holds (fail error : Fallible σ ε α) := fun _ start => start

theorem ofExcept (value : Except ε α) : Keeps holds (ofExcept value : Fallible σ ε α) := by
  cases value <;> exact fun _ start => start

theorem bind {next : α → Fallible σ ε β} (first : Keeps holds program)
    (rest : ∀ value, Keeps holds (next value)) : Keeps holds (program >>= next) :=
  Triple.bind first (fun _ _ kept => kept) rest

theorem attempt (kept : Keeps holds program) : Keeps holds (attempt program) :=
  Triple.attempt kept (fun _ kept => kept) (fun _ _ kept => kept) fun _ _ kept => kept

theorem onError {cleanup : Fallible σ ε PUnit} (cleaned : Keeps holds cleanup)
    (kept : Keeps holds program) : Keeps holds (onError cleanup program) := by
  refine .bind kept.attempt fun result => ?_
  cases result with
  | ok value => exact .pure value
  | error error => exact .bind cleaned fun _ => .fail error

end Keeps

/-! ## What a program does to the parts of its state -/

/-- From any state with this second part and a precondition on the first, the program
leaves its result and both parts with the postcondition. -/
def From (before : σ → Prop) (part : ρ) (program : Fallible (σ × ρ) ε α)
    (after : Except (Halt ε) α → σ → ρ → Prop) : Prop :=
  ∀ state, before state →
    after (program (state, part)).1 (program (state, part)).2.1 (program (state, part)).2.2

namespace From

variable {before : σ → Prop} {part : ρ} {program : Fallible (σ × ρ) ε α}
variable {next : α → Fallible (σ × ρ) ε β} {after : Except (Halt ε) β → σ → ρ → Prop}

theorem pure {value : β} (holds : ∀ state, before state → after (.ok value) state part) :
    From before part (pure value : Fallible (σ × ρ) ε β) after :=
  holds

theorem fail {error : ε}
    (holds : ∀ state, before state → after (.error (.error error)) state part) :
    From before part (fail error : Fallible (σ × ρ) ε β) after :=
  holds

theorem weaken {program : Fallible (σ × ρ) ε β} {stronger : Except (Halt ε) β → σ → ρ → Prop}
    (holds : From before part program stronger)
    (weaker : ∀ result state left, stronger result state left → after result state left) :
    From before part program after :=
  fun state start => weaker _ _ _ (holds state start)

theorem given {program : Fallible (σ × ρ) ε β} {fact : Prop} {weaker : σ → Prop}
    (known : ∀ state, before state → fact ∧ weaker state)
    (rest : fact → From weaker part program after) : From before part program after :=
  fun state start => rest (known state start).1 state (known state start).2

theorem bind {between : Except (Halt ε) α → σ → ρ → Prop} (first : From before part program between)
    (halts : ∀ halt state left, between (.error halt) state left → after (.error halt) state left)
    (rest : ∀ value left, From (between (.ok value) · left) left (next value) after) :
    From before part (program >>= next) after := by
  intro state start
  have reached := first state start
  rw [bind_run]
  cases ran : program (state, part) with
  | mk result left =>
      rw [ran] at reached
      cases result with
      | error halt => exact halts halt left.1 left.2 reached
      | ok value => exact rest value left.2 left.1 reached

theorem modify {change : ρ → ρ} {after : Except (Halt ε) PUnit → σ → ρ → Prop}
    (holds : ∀ state, before state → after (.ok ⟨⟩) state (change part)) :
    From before part
      (modify fun state => (state.1, change state.2) : Fallible (σ × ρ) ε PUnit) after :=
  holds

theorem bind_view {read : ρ → α} (rest : From before part (next (read part)) after) :
    From before part (view (fun state => read state.2) >>= next) after :=
  rest

theorem bind_modify {change : ρ → ρ} {next : PUnit → Fallible (σ × ρ) ε β}
    (rest : From before (change part) (next ⟨⟩) after) :
    From before part (Fallible.modify (fun state => (state.1, change state.2)) >>= next) after :=
  rest

theorem bind_ofExcept {value : Except ε α}
    (fails : ∀ error, value = .error error → ∀ state, before state →
      after (.error (.error error)) state part)
    (rest : ∀ found, value = .ok found → From before part (next found) after) :
    From before part (ofExcept value >>= next) after := by
  cases value with
  | error error => exact fails error rfl
  | ok found => exact rest found rfl

theorem bind_within {program : Fallible σ ε α} {between : Except (Halt ε) α → σ → Prop}
    (first : Triple before program between)
    (halts : ∀ halt state, between (.error halt) state → after (.error halt) state part)
    (rest : ∀ value, From (between (.ok value)) part (next value) after) :
    From before part (within program >>= next) after := by
  intro state start
  have reached := first state start
  rw [bind_run, Fallible.within]
  simp only
  cases ran : (program state).1 with
  | error halt =>
      rw [ran] at reached
      exact halts halt _ reached
  | ok value =>
      rw [ran] at reached
      exact rest value _ reached

theorem bind_attempt_within {program : Fallible σ ε α} {next : Except ε α → Fallible (σ × ρ) ε β}
    {between : Except (Halt ε) α → σ → Prop} (first : Triple before program between)
    (stops : ∀ state, between (.error .stopped) state → after (.error .stopped) state part)
    (fails : ∀ error, From (between (.error (.error error))) part (next (.error error)) after)
    (returns : ∀ value, From (between (.ok value)) part (next (.ok value)) after) :
    From before part (attempt (within program) >>= next) after := by
  intro state start
  have reached := first state start
  rw [bind_run, attempt, Fallible.within]
  simp only
  cases ran : (program state).1 with
  | ok value =>
      rw [ran] at reached
      exact returns value _ reached
  | error halt =>
      rw [ran] at reached
      cases halt with
      | error error => exact fails error _ reached
      | stopped => exact stops _ reached

theorem bind_attempt {next : Except ε α → Fallible (σ × ρ) ε β}
    {between : Except (Halt ε) α → σ → ρ → Prop} (first : From before part program between)
    (stops : ∀ state left, between (.error .stopped) state left →
      after (.error .stopped) state left) (fails : ∀ error left,
      From (between (.error (.error error)) · left) left (next (.error error)) after)
    (returns : ∀ value left, From (between (.ok value) · left) left (next (.ok value)) after) :
    From before part (attempt program >>= next) after := by
  intro state start
  have reached := first state start
  rw [bind_run, attempt]
  cases ran : program (state, part) with
  | mk result left =>
      rw [ran] at reached
      cases result with
      | ok value => exact returns value left.2 left.1 reached
      | error halt =>
          cases halt with
          | error error => exact fails error left.2 left.1 reached
          | stopped => exact stops left.1 left.2 reached

end From

end Fallible

end FlowSdn
