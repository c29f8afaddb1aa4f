import Mathlib.Logic.Relation
import Mathlib.Tactic

/-! # Processes over a shared state

A process is a program of operations, and between two of them other processes may act. It is safe
if each of its operations keeps to a relation between states, whatever the others do between them;
the rules below derive this from what holds before and after each operation.
-/

namespace FlowSdn.Concurrent

/-- What is left of a process: its value, or an operation and how it goes on. -/
inductive Thread (Op : Type u) (Answer : Op → Type v) (α : Type w)
  | done (value : α)
  | call (op : Op) (next : Answer op → Thread Op Answer α)

namespace Thread

variable {Op : Type u} {Answer : Op → Type v}

def bind : Thread Op Answer α → (α → Thread Op Answer β) → Thread Op Answer β
  | done value, after => after value
  | call op next, after => call op fun answer => (next answer).bind after

instance : Monad (Thread Op Answer) where
  pure := done
  bind := bind

def perform (op : Op) : Thread Op Answer (Answer op) := call op done

end Thread

/-- What an operation does, given what is left to chance, and what the end of a process
gives back. -/
structure Platform (Op : Type u) (Answer : Op → Type v) (σ : Type w) (χ : Type x) where
  effect : Nat → (op : Op) → χ → σ → Option (Answer op × σ)
  leave : Nat → σ → σ

section Rules

variable {Op : Type u} {Answer : Op → Type v} {σ : Type w} {χ : Type x} {α β ε : Type z}
variable {platform : Platform Op Answer σ χ} {move : Nat → σ → σ → Prop} {thread : Nat}

/-- A move of another process. -/
def Foreign (move : Nat → σ → σ → Prop) (thread : Nat) (before after : σ) : Prop :=
  ∃ other, other ≠ thread ∧ move other before after

/-- What no other process can end. -/
def Stable (move : Nat → σ → σ → Prop) (thread : Nat) (holds : σ → Prop) : Prop :=
  ∀ before after, Foreign move thread before after → holds before → holds after

/-- What holds as long as only other processes act. -/
def Persists (move : Nat → σ → σ → Prop) (thread : Nat) (holds : σ → Prop) (state : σ) : Prop :=
  ∀ later, Relation.ReflTransGen (Foreign move thread) state later → holds later

variable {holds : σ → Prop}

theorem Persists.now {state : σ} (persists : Persists move thread holds state) :
    holds state :=
  persists state .refl

theorem Persists.interfered {before after : σ}
    (persists : Persists move thread holds before) (foreign : Foreign move thread before after) :
    Persists move thread holds after :=
  fun later further => persists later (.head foreign further)

theorem Stable.persists {state : σ} (stable : Stable move thread holds)
    (start : holds state) : Persists move thread holds state := by
  intro later foreign
  induction foreign with
  | refl => exact start
  | tail _ step induction => exact stable _ _ step induction

theorem Stable.and (stable : Stable move thread holds) (fact : Prop) :
    Stable move thread fun state => fact ∧ holds state :=
  fun before after foreign start => ⟨start.1, stable before after foreign start.2⟩

/-- From here on the process makes only moves, and what it returns with holds. -/
def Safe (platform : Platform Op Answer σ χ) (move : Nat → σ → σ → Prop) (thread : Nat)
    (post : α → σ → Prop) : Thread Op Answer α → σ → Prop
  | .done value, state => Persists move thread (post value) state
  | .call op next, state => Persists move thread (fun later =>
      ∀ choice answer left, platform.effect thread op choice later = some (answer, left) →
        move thread later left ∧ Safe platform move thread post (next answer) left) state

namespace Safe

variable {post : α → σ → Prop}

theorem interfered {program : Thread Op Answer α} {before after : σ}
    (safe : Safe platform move thread post program before)
    (foreign : Foreign move thread before after) :
    Safe platform move thread post program after := by
  cases program with
  | done value => exact Persists.interfered safe foreign
  | call op next => exact Persists.interfered safe foreign

theorem bind {program : Thread Op Answer β} {next : β → Thread Op Answer α} {state : σ}
    {between : β → σ → Prop} (safe : Safe platform move thread between program state)
    (continues : ∀ value later, Persists move thread (between value) later →
      Safe platform move thread post (next value) later) :
    Safe platform move thread post (program >>= next) state := by
  induction program generalizing state with
  | done value => exact continues value state safe
  | call op rest induction =>
      intro later foreign choice answer left ran
      rcases safe later foreign choice answer left ran with ⟨moved, further⟩
      exact ⟨moved, induction answer further⟩

theorem weaken {stronger : α → σ → Prop} {program : Thread Op Answer α} {state : σ}
    (safe : Safe platform move thread stronger program state)
    (implies : ∀ value later, stronger value later → post value later) :
    Safe platform move thread post program state := by
  induction program generalizing state with
  | done value => exact fun later foreign => implies value later (safe later foreign)
  | call op next induction =>
      intro later foreign choice answer left ran
      rcases safe later foreign choice answer left ran with ⟨moved, further⟩
      exact ⟨moved, induction answer further⟩

end Safe

end Rules

end FlowSdn.Concurrent
