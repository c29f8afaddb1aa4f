import FlowSdn.Foundation.Text

/-! # Separated text

What a separator that does not occur in the parts tells of a concatenation.
-/

namespace FlowSdn.Separated

variable {α : Type u} {left right leftRest rightRest : List α}

theorem span_append {keep : α → Bool} (inside : ∀ element ∈ left, keep element)
    (stops : ∀ element ∈ leftRest.head?, keep element = false) :
    (left ++ leftRest).takeWhile keep = left ∧ (left ++ leftRest).dropWhile keep = leftRest := by
  rw [List.takeWhile_append_of_pos inside, List.dropWhile_append_of_pos inside]
  cases leftRest with
  | nil => exact ⟨List.append_nil _, rfl⟩
  | cons head rest =>
      have stop := stops head rfl
      simp [stop]

/-- What stands before the first element that stops it is told apart from what follows. -/
theorem append_inj_of_stop (keep : α → Bool) (insideLeft : ∀ element ∈ left, keep element)
    (insideRight : ∀ element ∈ right, keep element)
    (stopsLeft : ∀ element ∈ leftRest.head?, keep element = false)
    (stopsRight : ∀ element ∈ rightRest.head?, keep element = false)
    (same : left ++ leftRest = right ++ rightRest) : left = right ∧ leftRest = rightRest := by
  have lefts := span_append insideLeft stopsLeft
  have rights := span_append insideRight stopsRight
  rw [same] at lefts
  exact ⟨lefts.1.symm.trans rights.1, lefts.2.symm.trans rights.2⟩

theorem append_inj [DecidableEq α] {separator : α} (outsideLeft : separator ∉ left)
    (outsideRight : separator ∉ right)
    (same : left ++ separator :: leftRest = right ++ separator :: rightRest) :
    left = right ∧ leftRest = rightRest := by
  have ⟨lefts, rests⟩ := append_inj_of_stop (· ≠ separator)
    (fun _ inside => decide_eq_true (ne_of_mem_of_not_mem inside outsideLeft))
    (fun _ inside => decide_eq_true (ne_of_mem_of_not_mem inside outsideRight)) (by simp) (by simp)
    same
  exact ⟨lefts, (List.cons.inj rests).2⟩

end FlowSdn.Separated
