import FlowSdn.Foundation.Checked

/-! # What a computation that may fail ends in

A computation returns a value or a fault. Its specification says what holds of
either, and specifications compose along the computation.
-/

namespace FlowSdn.Checked

universe u v

variable {ε : Type u} {α β : Type v} {condition : Prop}

def refuse (condition : Prop) [Decidable condition] (failure : ε) : Except ε Unit :=
  if condition then .error failure else .ok ()

@[simp] theorem refuse_eq_ok [Decidable condition] {failure : ε} {value : Unit} :
    refuse condition failure = .ok value ↔ ¬condition := by
  unfold refuse
  split <;> simp_all

theorem refuse_of_not [Decidable condition] {failure : ε} (absent : ¬condition) :
    refuse condition failure = .ok () := if_neg absent

theorem exists_of_isOk {source : Except ε α} (returns : source.isOk) :
    ∃ value, source = .ok value := by
  cases source with
  | error => cases returns
  | ok value => exact ⟨value, rfl⟩

/-- The computation ends in a value or in a fault of which these hold. -/
inductive Ends (Value : α → Prop) (Fault : ε → Prop) : Except ε α → Prop
  | ok {value : α} (holds : Value value) : Ends Value Fault (.ok value)
  | error {fault : ε} (holds : Fault fault) : Ends Value Fault (.error fault)

namespace Ends

variable {Value : α → Prop} {Fault : ε → Prop}

theorem pure {value : α} (holds : Value value) :
    Ends Value Fault (pure value : Except ε α) := .ok holds

theorem refuse {condition : Prop} [Decidable condition] {failure : ε}
    (faulty : condition → Fault failure) :
    Ends (fun _ => ¬condition) Fault (Checked.refuse condition failure) := by
  unfold Checked.refuse
  split
  · exact .error (faulty ‹_›)
  · exact .ok ‹_›

variable {source : Except ε α}

theorem bind {next : α → Except ε β} {Result : β → Prop} (first : Ends Value Fault source)
    (second : ∀ value, Value value → Ends Result Fault (next value)) :
    Ends Result Fault (source >>= next) := by
  cases first with
  | ok holds => exact second _ holds
  | error holds => exact .error holds

theorem mapError {ζ : Type u} {change : ε → ζ} {Other : ζ → Prop}
    (first : Ends Value Fault source) (second : ∀ fault, Fault fault → Other (change fault)) :
    Ends Value Other (source.mapError change) := by
  cases first with
  | ok holds => exact .ok holds
  | error holds => exact .error (second _ holds)

theorem weaken {Stronger : α → Prop} (holds : Ends Stronger Fault source)
    (implied : ∀ value, Stronger value → Value value) : Ends Value Fault source := by
  cases holds with
  | ok holds => exact .ok (implied _ holds)
  | error holds => exact .error holds

theorem relax {Stricter : ε → Prop} (holds : Ends Value Stricter source)
    (implied : ∀ fault, Stricter fault → Fault fault) : Ends Value Fault source := by
  cases holds with
  | ok holds => exact .ok holds
  | error holds => exact .error (implied _ holds)

theorem of_ok {value : α} (holds : Ends Value Fault (.ok value)) : Value value := by
  cases holds with
  | ok holds => exact holds

theorem of_error {fault : ε} (holds : Ends Value Fault (.error fault)) : Fault fault := by
  cases holds with
  | error holds => exact holds

end Ends

end FlowSdn.Checked
