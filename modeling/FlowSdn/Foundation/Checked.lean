import Mathlib.Data.List.Forall2

/-! # Computations that may fail

What success of a sequence of checked steps says about each of them.
-/

namespace FlowSdn.Checked

variable {result : β} {items : List α} {compute : α → Except ε β} {results : List β}

theorem bind_eq_ok {source : Except ε α} {next : α → Except ε β} :
    (source >>= next) = .ok result ↔ ∃ value, source = .ok value ∧ next value = .ok result := by
  cases source with
  | error error => simp [bind, Except.bind]
  | ok value => simp [bind, Except.bind]

theorem pure_eq_ok {value result : α} : (pure value : Except ε α) = .ok result ↔
    value = result := by
  simp [pure, Except.pure]

theorem check_eq_ok {check : Except ε Unit} {next : Unit → Except ε β} :
    (check >>= next) = .ok result ↔ check = .ok () ∧ next () = .ok result := by
  rw [bind_eq_ok]
  constructor
  · intro passed
    rcases passed with ⟨_, passed, rest⟩
    exact ⟨passed, rest⟩
  · intro passed
    exact ⟨(), passed⟩

theorem ite_error_eq_ok {condition : Prop} [Decidable condition] {error : ε} {next : Except ε β} :
    (if condition then .error error else next) = .ok result ↔ ¬condition ∧ next = .ok result := by
  split <;> simp [*]

theorem forM_eq_ok {check : α → Except ε Unit} :
    forM items check = .ok () ↔ ∀ item ∈ items, check item = .ok () := by
  induction items with
  | nil => simp [pure, Except.pure]
  | cons head items induction =>
      rw [List.forM_cons, check_eq_ok, induction, List.forall_mem_cons]

theorem mapM_eq_ok :
    items.mapM compute = .ok results ↔
      List.Forall₂ (fun item result => compute item = .ok result) items results := by
  induction items generalizing results with
  | nil => rw [List.mapM_nil, pure_eq_ok, List.forall₂_nil_left_iff, eq_comm]
  | cons item items induction =>
      simp only [List.mapM_cons, bind_eq_ok, pure_eq_ok, induction, List.forall₂_cons_left_iff]
      constructor
      · intro succeeded
        rcases succeeded with ⟨first, computed, rest, others, rfl⟩
        exact ⟨first, rest, computed, others, rfl⟩
      · intro succeeded
        rcases succeeded with ⟨first, rest, computed, others, rfl⟩
        exact ⟨first, computed, rest, others, rfl⟩

theorem mapM_eq_map {result : α → β} (succeeds : ∀ item ∈ items, compute item = .ok (result item)) :
    items.mapM compute = .ok (items.map result) := by
  induction items with
  | nil => rfl
  | cons item items induction =>
      have rest := induction fun other member => succeeds other (List.mem_cons_of_mem _ member)
      rw [List.mapM_cons, succeeds item (List.mem_cons_self ..), rest]
      rfl

theorem foldlM_eq_foldl {step : β → α → Except ε β} {next : β → α → β}
    (succeeds : ∀ state, ∀ item ∈ items, step state item = .ok (next state item)) (state : β) :
    items.foldlM step state = .ok (items.foldl next state) := by
  induction items generalizing state with
  | nil => rfl
  | cons item items induction =>
      have rest := induction fun state other member =>
        succeeds state other (List.mem_cons_of_mem _ member)
      rw [List.foldlM_cons, succeeds state item (List.mem_cons_self ..)]
      exact rest (next state item)

theorem foldlM_cons_eq_ok {step : β → α → Except ε β} {item : α} {state : β} :
    (item :: items).foldlM step state = .ok result ↔
      ∃ next, step state item = .ok next ∧ items.foldlM step next = .ok result := by
  rw [List.foldlM_cons, bind_eq_ok]

section Related

variable {Related : α → β → Prop} {items : List α} {results : List β}

theorem exists_left_of_mem (related : List.Forall₂ Related items results) {result : β}
    (member : result ∈ results) : ∃ item ∈ items, Related item result := by
  induction related with
  | nil => cases member
  | cons first _ induction =>
      rcases List.mem_cons.mp member with here | inside
      · subst here
        exact ⟨_, List.mem_cons_self .., first⟩
      · rcases induction inside with ⟨item, isItem, found⟩
        exact ⟨item, List.mem_cons_of_mem _ isItem, found⟩

theorem exists_right_of_mem (related : List.Forall₂ Related items results) {item : α}
    (member : item ∈ items) : ∃ result ∈ results, Related item result :=
  exists_left_of_mem related.flip member

end Related

theorem exists_of_mem_mapM
    (succeeded : items.mapM compute = .ok results) (member : result ∈ results) :
    ∃ item ∈ items, compute item = .ok result :=
  exists_left_of_mem (mapM_eq_ok.mp succeeded) member

theorem exists_mem_of_mapM
    (succeeded : items.mapM compute = .ok results) {item : α} (member : item ∈ items) :
    ∃ result ∈ results, compute item = .ok result :=
  exists_right_of_mem (mapM_eq_ok.mp succeeded) member

theorem exists_of_mem_mapM_some {compute : α → Option β}
    (succeeded : items.mapM compute = some results) (member : result ∈ results) :
    ∃ item ∈ items, compute item = some result := by
  induction items generalizing results with
  | nil =>
      cases succeeded
      cases member
  | cons item items induction =>
      simp only [List.mapM_cons, Option.bind_eq_bind, Option.bind_eq_some_iff, Option.pure_def,
        Option.some.injEq] at succeeded
      rcases succeeded with ⟨first, computed, rest, others, rfl⟩
      rcases List.mem_cons.mp member with here | inside
      · subst here
        exact ⟨item, List.mem_cons_self .., computed⟩
      · rcases induction others inside with ⟨other, isItem, found⟩
        exact ⟨other, List.mem_cons_of_mem _ isItem, found⟩

end FlowSdn.Checked
