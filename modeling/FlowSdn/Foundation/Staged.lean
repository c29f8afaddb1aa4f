import Mathlib.Data.List.Pairwise
import Mathlib.Logic.Function.Basic
import Mathlib.Tactic

/-! # Writes in stages

A store of typed cells, changed by a list of writes that each set one cell to
its target. Where the writes are ordered by a stage of their cells, a cut of
the list leaves the cells of earlier stages at their target and those of later
stages untouched.
-/

namespace FlowSdn.Staged

variable {κ : Type u} {ν : κ → Type v} [DecidableEq κ]

/-- The content of each cell; none is an empty one. -/
abbrev Store (ν : κ → Type v) := (cell : κ) → Option (ν cell)

/-- A write of one cell: a value, or none to empty it. -/
structure Write (ν : κ → Type v) where
  cell : κ
  value : Option (ν cell)

def put (store : Store ν) (write : Write ν) : Store ν :=
  Function.update store write.cell write.value

def run (store : Store ν) (writes : List (Write ν)) : Store ν := writes.foldl put store

@[simp] theorem run_cons (store : Store ν) (write : Write ν) (writes : List (Write ν)) :
    run store (write :: writes) = run (put store write) writes := rfl

@[simp] theorem put_self (store : Store ν) (write : Write ν) :
    put store write write.cell = write.value :=
  Function.update_self ..

theorem put_of_ne {store : Store ν} {write : Write ν} {cell : κ} (different : cell ≠ write.cell) :
    put store write cell = store cell :=
  Function.update_of_ne different ..

theorem run_of_not_mem {store : Store ν} {writes : List (Write ν)} {cell : κ}
    (absent : ∀ write ∈ writes, write.cell ≠ cell) : run store writes cell = store cell := by
  induction writes generalizing store with
  | nil => rfl
  | cons write writes induction =>
      rw [run_cons, induction fun other member => absent other (List.mem_cons_of_mem _ member)]
      exact put_of_ne (absent write (List.mem_cons_self ..)).symm

theorem run_of_mem {store : Store ν} {writes : List (Write ν)} {write : Write ν}
    (member : write ∈ writes) (unique : ∀ other ∈ writes, other.cell = write.cell → other = write) :
    run store writes write.cell = write.value := by
  induction writes generalizing store with
  | nil => cases member
  | cons head writes induction =>
      by_cases later : write ∈ writes
      · exact induction later fun other inside => unique other (List.mem_cons_of_mem _ inside)
      · have here : head = write := by
          rcases List.mem_cons.mp member with equal | inside
          · exact equal.symm
          · exact absurd inside later
        subst here
        have fresh : ∀ other ∈ writes, other.cell ≠ head.cell := by
          intro other inside same
          rw [unique other (List.mem_cons_of_mem _ inside) same] at inside
          exact later inside
        rw [run_cons, run_of_not_mem fresh, put_self]

theorem run_cases (store : Store ν) (writes : List (Write ν)) (cell : κ) :
    (∃ write ∈ writes, ∃ same : write.cell = cell, same ▸ write.value = run store writes cell) ∨
      ((∀ write ∈ writes, write.cell ≠ cell) ∧ run store writes cell = store cell) := by
  induction writes generalizing store with
  | nil => exact .inr ⟨by simp, rfl⟩
  | cons head writes induction =>
      rcases induction (put store head) with ⟨write, member, same, equal⟩ | ⟨absent, equal⟩
      · exact .inl ⟨write, List.mem_cons_of_mem _ member, same, equal⟩
      · by_cases here : head.cell = cell
        · subst here
          exact .inl ⟨head, List.mem_cons_self .., rfl, by rw [run_cons, equal, put_self]⟩
        · refine .inr ⟨?_, ?_⟩
          · intro write member
            rcases List.mem_cons.mp member with same | inside
            · rw [same]
              exact here
            · exact absent write inside
          · rw [run_cons, equal, put_of_ne (Ne.symm here)]

/-! ## Towards a target -/

/-- The writes set cells to a target, and set every cell that differs from it. -/
structure Reaches (current target : Store ν) (writes : List (Write ν)) : Prop where
  aims : ∀ write ∈ writes, write.value = target write.cell
  complete : ∀ cell, current cell ≠ target cell → ∃ write ∈ writes, write.cell = cell

section Reaches

variable {current target : Store ν} {writes : List (Write ν)}

theorem run_eq_target {store : Store ν} {cell : κ}
    (aims : ∀ write ∈ writes, write.value = target write.cell)
    (written : ∃ write ∈ writes, write.cell = cell) : run store writes cell = target cell := by
  rcases run_cases store writes cell with ⟨write, member, same, equal⟩ | ⟨absent, _⟩
  · subst same
    rw [← equal]
    exact aims write member
  · rcases written with ⟨write, member, same⟩
    exact absurd same (absent write member)

theorem run_of_reaches (reaches : Reaches current target writes) : run current writes = target := by
  funext cell
  by_cases written : ∃ write ∈ writes, write.cell = cell
  · exact run_eq_target reaches.aims written
  · have same : current cell = target cell := by
      by_contra different
      exact written (reaches.complete cell different)
    have absent : ∀ write ∈ writes, write.cell ≠ cell := fun write member equal =>
      written ⟨write, member, equal⟩
    rw [run_of_not_mem absent, same]

end Reaches

/-- A store between two others: cells of a stage below the cut are at their
target, those above it untouched. -/
structure Between (stage : κ → Nat) (current target state : Store ν) (cut : Nat) : Prop where
  done : ∀ cell, stage cell < cut → state cell = target cell
  untouched : ∀ cell, cut < stage cell → state cell = current cell
  either : ∀ cell, state cell = current cell ∨ state cell = target cell

section Between

variable {stage : κ → Nat} {current target : Store ν} {writes : List (Write ν)}

theorem between_of_reaches (reaches : Reaches current target writes) {last : Nat}
    (bounded : ∀ write ∈ writes, stage write.cell < last) :
    Between stage current target (run current writes) last := by
  rw [run_of_reaches reaches]
  refine ⟨fun _ _ => rfl, fun cell above => ?_, fun _ => .inr rfl⟩
  by_contra different
  rcases reaches.complete cell (Ne.symm different) with ⟨write, member, same⟩
  have below := bounded write member
  rw [same] at below
  omega

/-- Any number of the writes, made in the order of their stages, leaves the store
between the two. -/
theorem between_take (reaches : Reaches current target writes) {last : Nat}
    (bounded : ∀ write ∈ writes, stage write.cell < last)
    (ordered : writes.Pairwise fun first second => stage first.cell ≤ stage second.cell)
    (count : Nat) : ∃ cut, Between stage current target (run current (writes.take count)) cut := by
  cases remaining : writes.drop count with
  | nil =>
      have whole : writes.take count = writes :=
        List.take_of_length_le (List.drop_eq_nil_iff.mp remaining)
      rw [whole]
      exact ⟨last, between_of_reaches reaches bounded⟩
  | cons next rest =>
      have split : writes = writes.take count ++ next :: rest := by
        rw [← remaining, List.take_append_drop]
      have aims : ∀ write ∈ writes.take count, write.value = target write.cell :=
        fun write member => reaches.aims write (List.mem_of_mem_take member)
      rw [split, List.pairwise_append, List.pairwise_cons] at ordered
      rcases ordered with ⟨_, ⟨later, _⟩, earlier⟩
      refine ⟨stage next.cell, fun cell below => ?_, fun cell above => ?_, fun cell => ?_⟩
      · by_cases written : ∃ write ∈ writes.take count, write.cell = cell
        · exact run_eq_target aims written
        · have absent : ∀ write ∈ writes.take count, write.cell ≠ cell :=
            fun write member equal => written ⟨write, member, equal⟩
          rw [run_of_not_mem absent]
          by_contra different
          rcases reaches.complete cell different with ⟨write, member, same⟩
          rw [split] at member
          rcases List.mem_append.mp member with taken | dropped
          · exact absent write taken same
          · rw [← same] at below
            rcases List.mem_cons.mp dropped with equal | inside
            · rw [equal] at below
              omega
            · have above := later write inside
              omega
      · apply run_of_not_mem
        intro write member same
        have atMost := earlier write member next (List.mem_cons_self ..)
        rw [same] at atMost
        omega
      · by_cases written : ∃ write ∈ writes.take count, write.cell = cell
        · exact .inr (run_eq_target aims written)
        · exact .inl (run_of_not_mem fun write member equal => written ⟨write, member, equal⟩)

end Between

end FlowSdn.Staged
