import Mathlib.Data.List.Basic

/-! # The strings with a common start, as an interval

In the lexicographic order the strings that begin with a given one are an interval, which ends
before the start with its last letter that can grow made one larger.
-/

namespace FlowSdn.PrefixRange

variable {α : Type u}

/-- The end of the interval, from the start read backwards; none when no letter can grow. -/
def bump (next : α → Option α) : (reversed : List α) → Option (List α)
  | [] => none
  | last :: rest =>
      match next last with
      | some grown => some (rest.reverse ++ [grown])
      | none => bump next rest

/-- A letter's next one has nothing between; a letter without a next one is the greatest. -/
structure IsNext [LT α] [LE α] (next : α → Option α) : Prop where
  grown : ∀ {letter grown : α}, next letter = some grown → ∀ other, other < grown ↔ other ≤ letter
  greatest : ∀ {letter : α}, next letter = none → ∀ other, other ≤ letter

theorem not_cons_le_nil [LT α] (letter : α) (rest : List α) : ¬letter :: rest ≤ [] := by
  intro below
  exact List.not_le.mpr (List.nil_lt_cons letter rest) below

section Order

variable [LT α] [LE α] [Std.IsLinearOrder α] [Std.LawfulOrderLT α] {next : α → Option α}

theorem append_le_append_iff {first left right : List α} :
    first ++ left ≤ first ++ right ↔ left ≤ right := by
  induction first with
  | nil => rfl
  | cons letter first induction =>
      rw [List.cons_append, List.cons_append, List.cons_le_cons_iff, induction]
      constructor
      · intro either
        rcases either with smaller | ⟨_, below⟩
        · exact absurd smaller (Std.lt_irrefl)
        · exact below
      · intro below
        exact .inr ⟨rfl, below⟩

/-- The words between two that differ in their last letters begin with the common part. -/
theorem between_append_singleton {first : List α} {letter grown : α}
    (isNext : ∀ other, other < grown ↔ other ≤ letter) (word : List α) :
    first ++ [letter] ≤ word ∧ word < first ++ [grown] ↔ first ++ [letter] <+: word := by
  induction first generalizing word with
  | nil =>
      cases word with
      | nil => simp
      | cons head rest =>
          have below : [letter] ≤ head :: rest ↔ letter ≤ head := by
            rw [List.cons_le_cons_iff, and_iff_left (List.nil_le rest)]
            exact Std.le_iff_lt_or_eq.symm
          have above : head :: rest < [grown] ↔ head ≤ letter := by
            rw [List.cons_lt_cons_iff, ← isNext]
            simp
          rw [List.nil_append, List.nil_append, below, above, List.cons_prefix_cons]
          constructor
          · intro both
            exact ⟨Std.le_antisymm both.1 both.2, List.nil_prefix⟩
          · intro same
            rw [same.1]
            exact ⟨Std.le_refl head, Std.le_refl head⟩
  | cons start first induction =>
      cases word with
      | nil => simp
      | cons head rest =>
          simp only [List.cons_append, List.cons_le_cons_iff, List.cons_lt_cons_iff,
            List.cons_prefix_cons, ← induction rest]
          constructor
          · intro both
            rcases both with ⟨smaller | ⟨same, below⟩, larger | ⟨_, above⟩⟩
            · exact absurd (Std.lt_trans smaller larger) Std.lt_irrefl
            · subst start
              exact absurd smaller Std.lt_irrefl
            · subst start
              exact absurd larger Std.lt_irrefl
            · exact ⟨same, below, above⟩
          · intro inside
            rcases inside with ⟨same, below, above⟩
            exact ⟨.inr ⟨same, below⟩, .inr ⟨same.symm, above⟩⟩

/-- The interval from a word to its end holds exactly the words that begin with it. -/
theorem between_bump (isNext : IsNext next) {reversed finish : List α}
    (ends : bump next reversed = some finish) (word : List α) :
    reversed.reverse ≤ word ∧ word < finish ↔ reversed.reverse <+: word := by
  induction reversed with
  | nil => cases ends
  | cons last rest induction =>
      rw [List.reverse_cons]
      unfold bump at ends
      cases grows : next last with
      | some grown =>
          rw [grows] at ends
          cases ends
          exact between_append_singleton (isNext.grown grows) word
      | none =>
          -- The last letter is the greatest, so it only narrows the interval of the rest.
          rw [grows] at ends
          have wider := induction ends
          constructor
          · intro both
            have start : rest.reverse <+: word := by
              refine wider.mp ⟨List.le_trans ?_ both.1, both.2⟩
              exact (List.prefix_append _ _).le
            rcases start with ⟨tail, rfl⟩
            have below := append_le_append_iff.mp both.1
            rw [List.prefix_append_right_inj]
            cases tail with
            | nil => exact absurd below (not_cons_le_nil last [])
            | cons head tail =>
                have smaller : last ≤ head := by
                  rw [List.cons_le_cons_iff] at below
                  rw [Std.le_iff_lt_or_eq]
                  exact below.imp id (·.1)
                rw [Std.le_antisymm smaller (isNext.greatest grows head)]
                exact List.cons_prefix_cons.mpr ⟨rfl, List.nil_prefix⟩
          · intro start
            exact ⟨start.le, (wider.mpr ((List.prefix_append _ _).trans start)).2⟩

end Order

end FlowSdn.PrefixRange
