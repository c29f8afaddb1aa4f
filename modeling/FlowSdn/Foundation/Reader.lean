import FlowSdn.Foundation.Buffer
import FlowSdn.Foundation.Outcome

/-! # Reading a list from its front

A reader takes what it needs from the front of a list and leaves the rest, or it refuses the
list. A loop that reads items until nothing is left ends because each item takes something.
-/

namespace FlowSdn

abbrev Reader (β ε : Type) := StateT (List β) (Except ε)

namespace Reader

open Checked

variable {β ε α γ : Type}

def take (failure : ε) (length : Nat) : Reader β ε (List β) := fun items =>
  if length ≤ items.length then .ok (items.take length, items.drop length) else .error failure

def one (failure : ε) : Reader β ε β
  | [] => .error failure
  | item :: rest => .ok (item, rest)

def upTo (item : Reader β ε α) : Nat → List β → Except ε (List α)
  | 0, _ => .ok []
  | _ + 1, [] => .ok []
  | count + 1, head :: tail => do
      let (value, rest) ← item.run (head :: tail)
      let values ← upTo item count rest
      return value :: values

def untilEmpty (item : Reader β ε α) (items : List β) : Except ε (List α) :=
  upTo item items.length items

/-! ## What a reader refuses a list with -/

/-- Every error of the reader is one of these. -/
def Refuses (Fault : ε → Prop) (reader : Reader β ε α) : Prop :=
  ∀ items, Ends (fun _ => True) Fault (reader.run items)

section Refuses

variable {Fault : ε → Prop}

theorem Refuses.pure (value : α) : Refuses Fault (pure value : Reader β ε α) :=
  fun _ => .ok trivial

theorem Refuses.get : Refuses Fault (get : Reader β ε (List β)) := fun _ => .ok trivial

theorem Refuses.take {failure : ε} (faulty : Fault failure) (length : Nat) :
    Refuses Fault (take failure length : Reader β ε (List β)) := by
  intro items
  simp only [Reader.take, StateT.run]
  split
  · exact .ok trivial
  · exact .error faulty

theorem Refuses.one {failure : ε} (faulty : Fault failure) :
    Refuses Fault (one failure : Reader β ε β) := by
  intro items
  cases items with
  | nil => exact .error faulty
  | cons head tail => exact .ok trivial

theorem Refuses.lift {source : Except ε α} {Value : α → Prop} (ends : Ends Value Fault source) :
    Refuses Fault (liftM source : Reader β ε α) := by
  intro items
  cases source with
  | error failure => exact .error ends.of_error
  | ok value => exact .ok trivial

theorem Refuses.bind {reader : Reader β ε α} {next : α → Reader β ε γ}
    (first : Refuses Fault reader) (second : ∀ value, Refuses Fault (next value)) :
    Refuses Fault (reader >>= next) := by
  intro items
  rw [StateT.run_bind]
  exact (first items).bind fun read _ => second read.1 read.2

theorem Refuses.upTo {item : Reader β ε α} (refuses : Refuses Fault item) (count : Nat)
    (items : List β) : Ends (fun _ => True) Fault (upTo item count items) := by
  induction count generalizing items with
  | zero => exact .ok trivial
  | succ count induction =>
      cases items with
      | nil => exact .ok trivial
      | cons head tail =>
          refine (refuses (head :: tail)).bind fun read _ => ?_
          exact (induction read.2).bind fun _ _ => .pure trivial

theorem Refuses.untilEmpty {item : Reader β ε α} (refuses : Refuses Fault item)
    (items : List β) : Ends (fun _ => True) Fault (untilEmpty item items) :=
  refuses.upTo items.length items

end Refuses

/-! ## What the items of a list are -/

theorem forall_mem_upTo {item : Reader β ε α} {Value : α → Prop}
    (reads : ∀ items value rest, item.run items = .ok (value, rest) → Value value) (count : Nat)
    (items : List β) {values : List α} (read : upTo item count items = .ok values) :
    ∀ value ∈ values, Value value := by
  induction count generalizing items values with
  | zero =>
      cases read
      simp
  | succ count induction =>
      cases items with
      | nil =>
          cases read
          simp
      | cons head tail =>
          rcases bind_eq_ok.mp read with ⟨⟨value, rest⟩, first, others⟩
          rcases bind_eq_ok.mp others with ⟨later, following, same⟩
          cases same
          exact List.forall_mem_cons.mpr ⟨reads _ value rest first, induction rest following⟩

variable {items rest : List β} {length : Nat}

theorem eq_ok_of_lift {source : Except ε α} {value : α}
    (read : (liftM source : Reader β ε α).run items = .ok (value, rest)) : source = .ok value := by
  cases source with
  | error failure => cases read
  | ok found =>
      cases read
      rfl

theorem run_bind_eq_ok {reader : Reader β ε α} {next : α → Reader β ε γ}
    {result : γ} : (reader >>= next).run items = .ok (result, rest) ↔
      ∃ value middle, reader.run items = .ok (value, middle) ∧
        (next value).run middle = .ok (result, rest) := by
  rw [StateT.run_bind, bind_eq_ok, Prod.exists]

theorem run_take_eq_ok {failure : ε} {taken : List β} :
    (take failure length : Reader β ε (List β)).run items = .ok (taken, rest) ↔
      items = taken ++ rest ∧ taken.length = length := by
  simp only [take, StateT.run]
  split_ifs with enough
  · rw [Except.ok.injEq, Prod.mk.injEq]
    constructor
    · rintro ⟨rfl, rfl⟩
      exact ⟨(List.take_append_drop ..).symm, List.length_take_of_le enough⟩
    · rintro ⟨rfl, rfl⟩
      exact ⟨List.take_left .., List.drop_left ..⟩
  · refine ⟨nofun, ?_⟩
    rintro ⟨rfl, rfl⟩
    rw [List.length_append] at enough
    omega

theorem length_of_take {failure : ε} {taken : List β}
    (read : (take failure length : Reader β ε (List β)).run items = .ok (taken, rest)) :
    items.length = length + rest.length := by
  rcases run_take_eq_ok.mp read with ⟨rfl, rfl⟩
  exact List.length_append ..

/-- Pieces that are read one after the other are read as the list of what each is read as. -/
theorem untilEmpty_flatten {item : Reader β ε α} {values : List α} {pieces : List (List β)}
    (read : List.Forall₂ (fun value piece => piece ≠ [] ∧
      ∀ rest, item.run (piece ++ rest) = .ok (value, rest)) values pieces) :
    untilEmpty item pieces.flatten = .ok values := by
  suffices counted : ∀ count, pieces.flatten.length ≤ count →
      upTo item count pieces.flatten = .ok values from counted _ (Nat.le_refl _)
  induction read with
  | nil =>
      intro count _
      cases count <;> rfl
  | @cons value piece values pieces first _ induction =>
      intro count enough
      rcases List.exists_cons_of_ne_nil first.1 with ⟨head, tail, rfl⟩
      rw [List.flatten_cons, List.length_append, List.length_cons] at enough
      cases count with
      | zero => omega
      | succ count =>
          rw [List.flatten_cons, List.cons_append, upTo, ← List.cons_append, first.2]
          simp only [bind, Except.bind, induction count (by omega)]
          rfl

end Reader

end FlowSdn
