import Mathlib.Data.List.Pairwise

/-! # Step functions as lists of intervals

A function of a natural number that changes only at given edges is a list of
intervals, neighbours of one value joined. Looking a point up in the list gives
the function's value there.
-/

namespace FlowSdn.Intervals

variable {ν : Type u}

structure Interval (ν : Type u) where
  first : Nat
  last : Nat
  value : ν
  deriving DecidableEq

/-- Add an interval at the end; one with the value of the last extends it. -/
def push [DecidableEq ν] (intervals : List (Interval ν)) (interval : Interval ν) :
    List (Interval ν) :=
  match intervals.getLast? with
  | some previous =>
      if previous.value = interval.value then
        intervals.dropLast ++ [{ previous with last := interval.last }]
      else intervals ++ [interval]
  | none => intervals ++ [interval]

/-- The position of the first element that is not before the searched place. -/
def partitionPoint (before : α → Bool) (items : List α) : Nat :=
  (items.takeWhile before).length

/-- The value at a point: the first interval that does not end before it, when it
starts there or earlier. -/
def find (intervals : List (Interval ν)) (point : Nat) : Option ν :=
  let index := partitionPoint (fun interval => decide (interval.last < point)) intervals
  (intervals[index]?.filter fun interval => decide (interval.first ≤ point)).map (·.value)

def windows (edges : List Nat) : List (Nat × Nat) :=
  edges.zip edges.tail

def steps [DecidableEq ν] (edges : List Nat) (value : Nat → ν) : List (Interval ν) :=
  (windows edges).foldl (fun intervals window =>
    push intervals { first := window.1, last := window.2 - 1, value := value window.1 }) []

/-! ## Covering -/

/-- The intervals follow one another from `start` up to `finish`, each with the
function's value throughout. -/
def Covers (value : Nat → ν) : (start finish : Nat) → List (Interval ν) → Prop
  | start, finish, [] => start = finish
  | start, finish, interval :: intervals =>
      interval.first = start ∧ interval.first ≤ interval.last ∧
        (∀ point, interval.first ≤ point → point ≤ interval.last →
          value point = interval.value) ∧
        Covers value (interval.last + 1) finish intervals

theorem push_cons_cons [DecidableEq ν] (head next : Interval ν) (intervals : List (Interval ν))
    (interval : Interval ν) :
    push (head :: next :: intervals) interval = head :: push (next :: intervals) interval := by
  unfold push
  rw [List.getLast?_cons_cons]
  cases found : (next :: intervals).getLast? with
  | none => simp at found
  | some previous =>
      by_cases same : previous.value = interval.value
      · simp [same]
      · simp [same]

theorem Covers.push [DecidableEq ν] {value : Nat → ν} {start : Nat} {intervals : List (Interval ν)}
    {interval : Interval ν} (covers : Covers value start interval.first intervals)
    (nonempty : interval.first ≤ interval.last)
    (constant : ∀ point, interval.first ≤ point → point ≤ interval.last →
      value point = interval.value) :
    Covers value start (interval.last + 1) (Intervals.push intervals interval) := by
  induction intervals generalizing start with
  | nil => exact ⟨covers.symm, nonempty, constant, rfl⟩
  | cons head intervals induction =>
      rcases covers with ⟨atStart, ordered, held, rest⟩
      cases intervals with
      | cons next intervals =>
          rw [push_cons_cons]
          exact ⟨atStart, ordered, held, induction rest⟩
      | nil =>
          have adjacent : head.last + 1 = interval.first := rest
          by_cases same : head.value = interval.value
          · have joined : Intervals.push [head] interval =
                [{ head with last := interval.last }] := by
              simp [Intervals.push, same]
            rw [joined]
            refine ⟨atStart, by simp only; omega, ?_, rfl⟩
            intro point after before
            by_cases inHead : point ≤ head.last
            · exact held point after inHead
            · rw [same]
              exact constant point (by omega) before
          · have added : Intervals.push [head] interval = [head, interval] := by
              simp [Intervals.push, same]
            rw [added]
            exact ⟨atStart, ordered, held, adjacent.symm, nonempty, constant, rfl⟩

variable {value : Nat → ν} {edges : List Nat}

theorem Covers.find {start finish : Nat} {intervals : List (Interval ν)}
    (covers : Covers value start finish intervals) {point : Nat} (after : start ≤ point)
    (before : point < finish) : Intervals.find intervals point = some (value point) := by
  induction intervals generalizing start with
  | nil =>
      have empty : start = finish := covers
      omega
  | cons head intervals induction =>
      rcases covers with ⟨atStart, ordered, held, rest⟩
      by_cases passed : head.last < point
      · have later := induction rest (by omega)
        simpa [Intervals.find, partitionPoint, passed] using later
      · have inside := held point (by omega) (by omega)
        have started : head.first ≤ point := by omega
        simp [Intervals.find, partitionPoint, passed, Option.filter, started, inside]

/-! ## Steps -/

/-- Before the last edge the function changes only at edges. -/
def ConstantBetween (edges : List Nat) (value : Nat → ν) : Prop :=
  ∀ lower point, lower ≤ point → (∃ edge ∈ edges, point < edge) →
    (∀ edge ∈ edges, edge ≤ lower ∨ point < edge) → value point = value lower

theorem covers_foldl_windows [DecidableEq ν]
    (constant : ConstantBetween edges value) {start lower : Nat} {rest : List Nat}
    (sorted : (lower :: rest).Pairwise (· < ·)) (known : ∀ edge ∈ edges, edge ≤ lower ∨ edge ∈ rest)
    (areEdges : ∀ edge ∈ rest, edge ∈ edges) {intervals : List (Interval ν)}
    (covers : Covers value start lower intervals) :
    Covers value start ((lower :: rest).getLast (List.cons_ne_nil _ _))
      ((windows (lower :: rest)).foldl (fun intervals window =>
        push intervals { first := window.1, last := window.2 - 1, value := value window.1 })
        intervals) := by
  induction rest generalizing lower intervals with
  | nil => exact covers
  | cons upper rest induction =>
      rcases List.pairwise_cons.mp sorted with ⟨below, later⟩
      have order : lower < upper := below upper (List.mem_cons_self ..)
      have fixed : ∀ point, lower ≤ point → point ≤ upper - 1 → value point = value lower := by
        intro point after before
        apply constant lower point after ⟨upper, areEdges upper (List.mem_cons_self ..), by omega⟩
        intro edge member
        rcases known edge member with earlier | inRest
        · exact .inl earlier
        · right
          rcases List.mem_cons.mp inRest with here | further
          · omega
          · have beyond := (List.pairwise_cons.mp later).1 edge further
            omega
      have next : upper - 1 + 1 = upper := by omega
      have extended : Covers value start upper
          (push intervals { first := lower, last := upper - 1, value := value lower }) := by
        have pushed := @Covers.push ν _ value start intervals ⟨lower, upper - 1, value lower⟩
          covers (Nat.le_sub_one_of_lt order) fixed
        rwa [next] at pushed
      have remaining : ∀ edge ∈ edges, edge ≤ upper ∨ edge ∈ rest := by
        intro edge member
        rcases known edge member with earlier | inRest
        · exact .inl (by omega)
        · rcases List.mem_cons.mp inRest with here | further
          · exact .inl (Nat.le_of_eq here)
          · exact .inr further
      exact induction later remaining
        (fun edge member => areEdges edge (List.mem_cons_of_mem _ member)) extended

theorem find_steps [DecidableEq ν]
    (constant : ConstantBetween edges value) (sorted : edges.Pairwise (· < ·))
    {low high point : Nat} (isLow : low ∈ edges) (isHigh : high ∈ edges) (after : low ≤ point)
    (before : point < high) : find (steps edges value) point = some (value point) := by
  cases edges with
  | nil => cases isLow
  | cons first rest =>
      have known : ∀ edge ∈ first :: rest, edge ≤ first ∨ edge ∈ rest := by
        intro edge member
        rcases List.mem_cons.mp member with here | inRest
        · exact .inl (Nat.le_of_eq here)
        · exact .inr inRest
      have empty : Covers value first first ([] : List (Interval ν)) := rfl
      have covers := covers_foldl_windows constant sorted known
        (fun edge member => List.mem_cons_of_mem _ member) empty
      have atFirst : first ≤ low := by
        rcases List.mem_cons.mp isLow with here | inRest
        · exact Nat.le_of_eq here.symm
        · exact Nat.le_of_lt ((List.pairwise_cons.mp sorted).1 low inRest)
      have weak : (first :: rest).Pairwise (· ≤ ·) := sorted.imp Nat.le_of_lt
      have atLast : high ≤ (first :: rest).getLast (List.cons_ne_nil _ _) :=
        weak.rel_getLast isHigh
      exact covers.find (Nat.le_trans atFirst after) (Nat.lt_of_lt_of_le before atLast)

theorem lt_of_mem_windows (sorted : edges.Pairwise (· < ·))
    {window : Nat × Nat} (member : window ∈ windows edges) :
    window.1 < window.2 ∧ window.2 ∈ edges := by
  induction edges with
  | nil => cases member
  | cons lower rest induction =>
      rcases List.pairwise_cons.mp sorted with ⟨below, later⟩
      cases rest with
      | nil => cases member
      | cons upper rest =>
          rcases List.mem_cons.mp member with here | inside
          · subst here
            exact ⟨below upper (List.mem_cons_self ..), by simp⟩
          · rcases induction later inside with ⟨order, isEdge⟩
            exact ⟨order, List.mem_cons_of_mem _ isEdge⟩

end FlowSdn.Intervals
