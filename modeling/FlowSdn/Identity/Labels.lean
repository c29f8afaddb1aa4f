import FlowSdn.Foundation.FiniteMap
import FlowSdn.Foundation.Separated

/-! # Identity labels and the label filter

Labels by key, and the filter that decides which of a Pod's labels make its
identity. Filter patterns are the ones the default entries use: literal
characters, escaped ones, and runs of any character.
-/

namespace FlowSdn.Identity

open OrderedMap

structure Label where
  source : String
  key : String
  value : String
  deriving DecidableEq

inductive LabelError
  | emptyKey
  | cidrValue
  deriving DecidableEq

/-- A label, an empty source read as `unspec`. -/
def Label.new (source key value : String) : Except LabelError Label :=
  if key.isEmpty then .error .emptyKey
  else if source = "cidr" ∧ !value.isEmpty then .error .cidrValue
  else .ok { source := if source.isEmpty then "unspec" else source, key, value }

/-- Labels by key only: a later one replaces an earlier one of another source. -/
structure Labels where
  byKey : BTreeMap String Label := ∅

namespace Labels

def insert (labels : Labels) (label : Label) : Labels where
  byKey := labels.byKey.insert label.key label

def iter (labels : Labels) : List Label := labels.byKey.values

def fromIter (labels : List Label) : Labels := labels.foldl insert {}

def remove (labels : Labels) (key : String) : Labels where
  byKey := labels.byKey.erase key

/-- The key under which an identity of the labels is allocated. -/
def canonicalKey (labels : Labels) : String :=
  labels.iter.foldl (fun result label =>
    result ++ label.source ++ ":" ++ label.key ++ "=" ++ label.value ++ ";") ""

end Labels

/-! ## Canonical keys -/

/-- The parts of a label hold none of the characters that end them in a canonical key. -/
def Label.Plain (label : Label) : Prop :=
  ':' ∉ label.source.toList ∧ '=' ∉ label.key.toList ∧ ';' ∉ label.value.toList

instance (label : Label) : Decidable label.Plain :=
  inferInstanceAs (Decidable (_ ∧ _ ∧ _))

namespace Labels

/-- Label sets as insertions and removals make them. -/
inductive Built : Labels → Prop
  | new : Built {}
  | insert {labels : Labels} (built : Built labels) (label : Label) : Built (labels.insert label)
  | remove {labels : Labels} (built : Built labels) (key : String) : Built (labels.remove key)

theorem Built.key_eq {labels : Labels} (built : Built labels) {key : String} {label : Label}
    (held : labels.byKey[key]? = some label) : label.key = key := by
  induction built with
  | new => simp at held
  | insert _ inserted induction =>
      rw [Labels.insert, Std.ExtTreeMap.getElem?_insert] at held
      split at held
      · rename_i same
        rw [← Option.some.inj held]
        exact Std.LawfulEqOrd.eq_of_compare same
      · exact induction held
  | remove _ removed induction =>
      rw [Labels.remove, Std.ExtTreeMap.getElem?_erase] at held
      split at held
      · cases held
      · exact induction held

theorem Built.toList_eq {labels : Labels} (built : Built labels) :
    labels.byKey.toList = labels.iter.map fun label => (label.key, label) := by
  rw [iter, values_eq_map, List.map_map]
  refine (List.map_id _).symm.trans (List.map_congr_left fun pair member => ?_)
  have held := Std.ExtTreeMap.mem_toList_iff_getElem?_eq_some.mp member
  exact Prod.ext (built.key_eq held).symm rfl

def chars (labels : List Label) : List Char :=
  labels.flatMap fun label => label.source.toList ++ ':' :: (label.key.toList ++ '=' ::
    (label.value.toList ++ [';']))

theorem toList_canonicalKey (labels : Labels) : labels.canonicalKey.toList = chars labels.iter := by
  have folded : ∀ (list : List Label) (result : String), (list.foldl (fun result label =>
      result ++ label.source ++ ":" ++ label.key ++ "=" ++ label.value ++ ";") result).toList =
        result.toList ++ chars list := by
    intro list
    induction list with
    | nil => simp [chars]
    | cons label list induction =>
        intro result
        rw [List.foldl_cons, induction]
        simp [chars]
  exact folded labels.iter ""

theorem eq_of_chars_eq : ∀ {left right : List Label}, (∀ label ∈ left, label.Plain) →
    (∀ label ∈ right, label.Plain) → chars left = chars right → left = right
  | [], [], _, _, _ => rfl
  | [], _ :: _, _, _, same => by simp [chars] at same
  | _ :: _, [], _, _, same => by simp [chars] at same
  | one :: left, other :: right, plainLeft, plainRight, same => by
      have ⟨plainOne, plainLeft⟩ := List.forall_mem_cons.mp plainLeft
      have ⟨plainOther, plainRight⟩ := List.forall_mem_cons.mp plainRight
      simp only [chars, List.flatMap_cons, List.append_assoc, List.cons_append,
        List.nil_append] at same
      have ⟨source, same⟩ := Separated.append_inj plainOne.1 plainOther.1 same
      have ⟨key, same⟩ := Separated.append_inj plainOne.2.1 plainOther.2.1 same
      have ⟨value, same⟩ := Separated.append_inj plainOne.2.2 plainOther.2.2 same
      rw [eq_of_chars_eq plainLeft plainRight same]
      cases one
      cases other
      simp_all [String.toList_inj]

/-- Different label sets have different canonical keys when no part of a label holds the
character that ends it. -/
theorem canonicalKey_inj {left right : Labels} (builtLeft : Built left) (builtRight : Built right)
    (plainLeft : ∀ label ∈ left.iter, label.Plain) (plainRight : ∀ label ∈ right.iter, label.Plain)
    (same : left.canonicalKey = right.canonicalKey) : left = right := by
  have iters : left.iter = right.iter := by
    refine eq_of_chars_eq plainLeft plainRight ?_
    rw [← toList_canonicalKey, same, toList_canonicalKey]
  have maps : left.byKey = right.byKey := by
    refine Std.ExtTreeMap.toList_inj.mp ?_
    rw [builtLeft.toList_eq, builtRight.toList_eq, iters]
  cases left
  cases right
  rw [mk.injEq]
  exact maps

/-- Two labels, the first after another of its key. -/
def replacedLabels : Labels :=
  ((Labels.insert {} ⟨"any", "app", "web"⟩).insert ⟨"k8s", "app", "db"⟩).insert
    ⟨"k8s", "tier", "back"⟩

def directLabels : Labels :=
  (Labels.insert {} ⟨"k8s", "tier", "back"⟩).insert ⟨"k8s", "app", "db"⟩

/-- Neither a label that was replaced nor the order of the others leaves a trace. -/
theorem canonicalKey_inj_replaced :
    directLabels.canonicalKey = "k8s:app=db;k8s:tier=back;" ∧ replacedLabels = directLabels := by
  have same : replacedLabels.canonicalKey = directLabels.canonicalKey := by decide
  exact ⟨by decide, canonicalKey_inj (((Built.new.insert _).insert _).insert _)
    ((Built.new.insert _).insert _) (by decide) (by decide) same⟩

end Labels

/-- One piece of a pattern. -/
inductive Piece
  | literal (char : Char)
  /-- Any number of characters other than a newline, as many as the rest allows. -/
  | anything
  deriving DecidableEq

/-- The characters with a meaning of their own in a pattern. -/
def special : List Char :=
  ['\\', '.', '+', '*', '?', '(', ')', '|', '[', ']', '\x7b', '\x7d', '^', '$']

/-- The pieces of a pattern; none when it uses syntax beyond them. -/
def parsePattern : List Char → Option (List Piece)
  | [] => some []
  | '\\' :: char :: rest => (parsePattern rest).map (.literal char :: ·)
  | '.' :: '*' :: rest => (parsePattern rest).map (.anything :: ·)
  | char :: rest =>
      if special.contains char then none
      else (parsePattern rest).map (.literal char :: ·)

/-- How many bytes of the text a match at its start takes, the longest run first.
Every round drops a piece or a character, so their number is fuel enough. -/
def matchPieces : (fuel : Nat) → List Piece → List Char → Option Nat
  | 0, _, _ => none
  | _, [], _ => some 0
  | fuel + 1, .literal char :: pieces, head :: text =>
      if head = char then (matchPieces fuel pieces text).map (· + head.utf8Size) else none
  | _, .literal _ :: _, [] => none
  | fuel + 1, .anything :: pieces, [] => matchPieces fuel pieces []
  | fuel + 1, .anything :: pieces, head :: text =>
      let longer :=
        if head = '\n' then none
        else (matchPieces fuel (.anything :: pieces) text).map (· + head.utf8Size)
      longer.or (matchPieces fuel pieces (head :: text))

/-! ## Filter rules -/

structure Rule where
  source : String
  exclude : Bool
  /-- Where the pattern's match from the start of a key ends. -/
  find : String → Option Nat

namespace Rule

/-- The source before the first colon, then a leading exclamation mark. -/
def parse (entry : String) : Option Rule :=
  let chars := entry.toList
  let (source, pattern) := (Text.splitOnceChars ':' chars).getD ([], chars)
  if pattern.isEmpty then none
  else
    let (exclude, pattern) := match pattern with
      | '!' :: rest => (true, rest)
      | _ => (false, pattern)
    (parsePattern pattern).map fun pieces =>
      { source := String.ofList source
        exclude
        find := fun key => matchPieces (pieces.length + key.length + 1) pieces key.toList }

def matchLength (rule : Rule) (label : Label) : Option Nat :=
  if !rule.source.isEmpty && rule.source ≠ label.source then none else rule.find label.key

end Rule

def defaultEntries : List String := [
  "reserved:.*",
  "io\\.kubernetes\\.pod\\.namespace",
  "io\\.flowsdn\\.k8s\\.namespace\\.labels",
  "app\\.kubernetes\\.io",
  "io\\.flowsdn\\.k8s\\.policy\\.cluster",
  "io\\.flowsdn\\.k8s\\.policy\\.serviceaccount",
  "!io\\.kubernetes",
  "!kubernetes\\.io",
  "!statefulset\\.kubernetes\\.io/pod-name",
  "!apps\\.kubernetes\\.io/pod-index",
  "!batch\\.kubernetes\\.io/job-completion-index",
  "!batch\\.kubernetes\\.io/controller-uid",
  "!.*beta\\.kubernetes\\.io",
  "!k8s\\.io",
  "!pod-template-generation",
  "!pod-template-hash",
  "!controller-revision-hash",
  "!controller-uid",
  "!annotation.*",
  "!etcd_node",
  "!topology\\.kubernetes\\.io"]

structure LabelFilter where
  rules : List Rule
  whitelist : Bool := false
  nodeOnly : Bool := false

namespace LabelFilter

/-- The default identity rules; built-in includes do not turn the whitelist on. -/
def identity : Option LabelFilter :=
  (defaultEntries.mapM Rule.parse).map fun rules => { rules }

/-- One rule's part in `retains`: the longest inclusion and the shortest exclusion
so far, zero standing for none. -/
def judge (label : Label) (lengths : Nat × Nat) (rule : Rule) : Nat × Nat :=
  match rule.matchLength label with
  | none => lengths
  | some length =>
      if rule.exclude then
        (lengths.1, if lengths.2 = 0 ∨ length < lengths.2 then length else lengths.2)
      else (max lengths.1 length, lengths.2)

def retains (filter : LabelFilter) (label : Label) : Bool :=
  if filter.nodeOnly && label.source ≠ "node" then true
  else
    let (included, ignored) := filter.rules.foldl (judge label) (0, 0)
    (!filter.whitelist && ignored = 0) || included > ignored

def retained (filter : LabelFilter) (labels : Labels) : Labels :=
  .fromIter (labels.iter.filter filter.retains)

end LabelFilter

example : LabelFilter.identity.isSome := by decide

end FlowSdn.Identity
