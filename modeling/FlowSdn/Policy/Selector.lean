import FlowSdn.Foundation.Json
import FlowSdn.Foundation.OrderedMap

/-! # Kubernetes label selectors

Every label and every requirement of a selector must hold; the empty selector
selects everything.
-/

namespace FlowSdn.Policy

open OrderedMap

abbrev ImportError := String

inductive Operator
  | isIn
  | notIn
  | exists
  | doesNotExist
  deriving DecidableEq

structure Requirement where
  key : String
  operator : Operator
  values : BTreeSet String

structure LabelSelector where
  matchLabels : BTreeMap String String := ∅
  matchExpressions : List Requirement := []

namespace LabelSelector

def parseOperator (expression : Json) : Except ImportError Operator :=
  match (expression.get "operator").bind Json.asStr with
  | some "In" => .ok .isIn
  | some "NotIn" => .ok .notIn
  | some "Exists" => .ok .exists
  | some "DoesNotExist" => .ok .doesNotExist
  | other => .error ("unknown selector operator " ++ Text.debugOption (other.map Text.debug))

def parseValue (item : Json) : Except ImportError String :=
  match item.asStr with
  | some text => .ok text
  | none => .error "selector values must be strings"

def parseRequirement (expression : Json) : Except ImportError Requirement := do
  let key ← match ((expression.get "key").bind Json.asStr).filter (!·.isEmpty) with
    | some key => .ok key
    | none => .error "matchExpressions entry without key"
  let operator ← parseOperator expression
  let values ← match expression.present "values" with
    | none => .ok []
    | some list =>
        match list.asArray with
        | some items => items.mapM parseValue
        | none => .error "matchExpressions values must be a list"
  let needsValues := operator = .isIn ∨ operator = .notIn
  if needsValues ↔ values.isEmpty then
    .error (key ++ ": In/NotIn need values, Exists/DoesNotExist take none")
  else
    return { key, operator, values := collect values }

def parseLabel (field : String × Json) : Except ImportError (String × String) :=
  match field.2.asStr with
  | some value => .ok (field.1, value)
  | none => .error ("matchLabels." ++ field.1 ++ " must be a string")

def parseFields (fields : List (String × Json)) : Except ImportError LabelSelector := do
  let value := Json.object fields
  let labels ← match value.present "matchLabels" with
    | none => .ok []
    | some labels =>
        match labels.asObject with
        | some labels => labels.mapM parseLabel
        | none => .error "matchLabels must be an object"
  let expressions ← match value.present "matchExpressions" with
    | none => .ok []
    | some expressions =>
        match expressions.asArray with
        | some items => items.mapM parseRequirement
        | none => .error "matchExpressions must be a list"
  return { matchLabels := insertAll ∅ labels, matchExpressions := expressions }

/-- Parse `matchLabels` and `matchExpressions`; absent or null selects everything. -/
def parse (value : Option Json) : Except ImportError LabelSelector :=
  match value.filter (!·.isNull) with
  | none => .ok {}
  | some value =>
      match value.asObject with
      | some fields => parseFields fields
      | none => .error "label selector must be an object"

def isEmpty (selector : LabelSelector) : Bool :=
  selector.matchLabels.isEmpty && selector.matchExpressions.isEmpty

def constrains (selector : LabelSelector) (key : String) : Bool :=
  selector.matchLabels.contains key || selector.matchExpressions.any (·.key = key)

def keys (selector : LabelSelector) : List String :=
  selector.matchLabels.keys ++ selector.matchExpressions.map (·.key)

def withLabel (selector : LabelSelector) (key value : String) : LabelSelector :=
  { selector with matchLabels := selector.matchLabels.insert key value }

def rekey (rename : String → String) (selector : LabelSelector) : LabelSelector where
  matchLabels := insertAll ∅ (selector.matchLabels.toList.map fun pair =>
    (rename pair.1, pair.2))
  matchExpressions := selector.matchExpressions.map fun requirement =>
    { requirement with key := rename requirement.key }

/-- One label of the second selector of a conjunction: a different fixed value is
kept as a requirement rather than overwritten. -/
def andLabel (selector : LabelSelector) (label : String × String) : LabelSelector :=
  match selector.matchLabels[label.1]? with
  | some existing =>
      if existing ≠ label.2 then
        { selector with
          matchExpressions := selector.matchExpressions ++
            [{ key := label.1, operator := .isIn, values := collect [label.2] }] }
      else selector.withLabel label.1 label.2
  | none => selector.withLabel label.1 label.2

def and (selector other : LabelSelector) : LabelSelector :=
  let combined := other.matchLabels.toList.foldl andLabel selector
  { combined with matchExpressions := combined.matchExpressions ++ other.matchExpressions }

def requirementHolds (labels : BTreeMap String String) (requirement : Requirement) : Bool :=
  let value := labels[requirement.key]?
  match requirement.operator with
  | .isIn => value.any fun value => requirement.values.contains value
  | .notIn => value.all fun value => !requirement.values.contains value
  | .exists => value.isSome
  | .doesNotExist => value.isNone

end LabelSelector

/-- Whether labels, with keys as the selector spells them, satisfy it. -/
def LabelSelector.matches (selector : LabelSelector) (labels : BTreeMap String String) : Bool :=
  (selector.matchLabels.toList.all fun pair => labels[pair.1]? = some pair.2) &&
    selector.matchExpressions.all (requirementHolds labels)

end FlowSdn.Policy
