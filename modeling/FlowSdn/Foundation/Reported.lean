import Mathlib.Control.Basic

/-! # Values with reported lines

A computation that also reports lines of text, in order. The lines never change
the value, so a proof about the value may forget them.
-/

namespace FlowSdn

structure Reported (α : Type u) where
  value : α
  lines : List String := []

namespace Reported

instance : Monad Reported where
  pure value := { value }
  bind computed next :=
    { value := (next computed.value).value
      lines := computed.lines ++ (next computed.value).lines }

def report (line : String) : Reported Unit where
  value := ()
  lines := [line]

def mapEach (compute : α → Reported β) (elements : List α) : Reported (List β) where
  value := elements.map fun element => (compute element).value
  lines := elements.flatMap fun element => (compute element).lines

@[simp] theorem value_pure (value : α) : (pure value : Reported α).value = value := rfl

@[simp] theorem value_bind (computed : Reported α) (next : α → Reported β) :
    (computed >>= next).value = (next computed.value).value := by
  cases computed
  rfl

@[simp] theorem value_map (change : α → β) (computed : Reported α) :
    (change <$> computed).value = change computed.value := by
  cases computed
  rfl

@[simp] theorem value_mapEach (compute : α → Reported β) (elements : List α) :
    (mapEach compute elements).value = elements.map fun element => (compute element).value := by
  cases elements <;> rfl

/-- Whatever value the computation ends with meets the postcondition. -/
def Ensures (computed : OptionT Reported α) (post : α → Prop) : Prop :=
  ∀ value, computed.run.value = some value → post value

theorem ensures_pure {value : α} {post : α → Prop} (met : post value) :
    Ensures (pure value) post := by
  intro other equal
  cases equal
  exact met

theorem ensures_bind {computed : OptionT Reported α} {next : α → OptionT Reported β}
    {middle : α → Prop} {post : β → Prop} (first : Ensures computed middle)
    (rest : ∀ value, middle value → Ensures (next value) post) :
    Ensures (computed >>= next) post := by
  intro value equal
  rw [OptionT.run_bind, Option.elimM, value_bind] at equal
  cases found : computed.run.value with
  | none =>
      rw [found] at equal
      cases equal
  | some middleValue =>
      rw [found] at equal
      exact rest middleValue (first middleValue found) value equal

theorem ensures_foldlM {step : α → β → OptionT Reported α} {invariant : α → Prop}
    (kept : ∀ state element, invariant state → Ensures (step state element) invariant) :
    ∀ (elements : List β) (initial : α), invariant initial →
      Ensures (elements.foldlM step initial) invariant
  | [], _, met => ensures_pure met
  | element :: elements, initial, met => by
      rw [List.foldlM_cons]
      exact ensures_bind (kept initial element met) fun state held =>
        ensures_foldlM kept elements state held

end Reported

end FlowSdn
