import FlowSdn.Foundation.FiniteMap
import FlowSdn.Foundation.Words

/-! # Indexed tables

A version of a table holds its rows by primary key, the keys by revision and one set of
entries for each secondary index. A batch of writes works on a copy of the published version
and notes the mutations it makes; a write that fails changes nothing.
-/

namespace FlowSdn.Tables

open OrderedMap

abbrev Key := List U8

class Keyed (Row : Type) where
  primaryKey : Row → Key

/-- A secondary index: the keys a row is found under. -/
structure Index (Row : Type) where
  name : String
  unique : Bool
  keys : Row → List Key

inductive TableError
  | invalidIndexName (name : String)
  | unknownIndex (name : String)
  | nonUniqueIndex (name : String)
  | uniqueViolation (index : String) (key : Key)
  | revisionMismatch (current : Option Nat)
  | revisionExhausted
  | primaryKeyChanged
  deriving DecidableEq

/-- A secondary key with the primary key of the row that has it. -/
structure Entry where
  secondary : Key
  primary : Key
  deriving DecidableEq

namespace Entry

instance : Ord Entry where
  compare := compareLex (compareOn secondary) (compareOn primary)

instance transOrd : Std.TransOrd Entry := inferInstanceAs (Std.TransCmp (compareLex _ _))

instance : Std.LawfulEqOrd Entry where
  eq_of_compare {left right} equal := by
    cases left
    cases right
    simp_all [compare]

end Entry

structure Version (Row : Type) where
  revision : Nat := 0
  rows : BTreeMap Key (Row × Nat) := ∅
  revisions : BTreeMap Nat Key := ∅
  indexes : List (BTreeSet Entry) := []

/-- A write that was made: the key, the revision it got and whether the row is gone. -/
structure Mutation where
  key : Key
  revision : Nat
  deleted : Bool
  deriving DecidableEq

structure Write (Row : Type) where
  version : Version Row
  mutations : List Mutation := []

/-- The previous row and the revision after the write. -/
structure WriteResult (Row : Type) where
  previous : Option Row
  revision : Nat
  deriving DecidableEq

section Writes

variable {Row : Type} [Keyed Row] (indexes : List (Index Row))

namespace Version

/-- Revisions are 64-bit words. -/
def nextRevision (version : Version Row) : Except TableError Nat :=
  if version.revision + 1 < 2 ^ 64 then .ok (version.revision + 1) else .error .revisionExhausted

def removeIndexes (version : Version Row) (key : Key) (row : Row) (revision : Nat) :
    Version Row :=
  { version with
    revisions := version.revisions.erase revision
    indexes := List.zipWith (fun index map =>
      (index.keys row).foldl (fun map secondary => map.erase ⟨secondary, key⟩) map)
      indexes version.indexes }

/-- The first key of a unique index that another row has. -/
def violation (version : Version Row) (keys : List (BTreeSet Key)) (key : Key) :
    Option TableError :=
  ((indexes.zip version.indexes).zip keys).findSome? fun item =>
    if item.1.1.unique then
      item.2.toList.findSome? fun secondary =>
        match item.1.2.getGE? ⟨secondary, []⟩ with
        | some found =>
            if found.secondary = secondary ∧ found.primary ≠ key then
              some (.uniqueViolation item.1.1.name secondary)
            else none
        | none => none
    else none

/-- The version without what a row has in the indexes. -/
def withdraw (version : Version Row) (key : Key) (previous : Option (Row × Nat)) :
    Version Row :=
  match previous with
  | some (old, revision) => version.removeIndexes indexes key old revision
  | none => version

end Version

namespace Write

def requireRevision (write : Write Row) (key : Key) (expected : Nat) : Except TableError Unit :=
  let current := write.version.rows[key]?.map (·.2)
  if current ≠ some expected then .error (.revisionMismatch current) else .ok ()

def insert (write : Write Row) (row : Row) : Except TableError (WriteResult Row) × Write Row :=
  let key := Keyed.primaryKey row
  match write.version.nextRevision with
  | .error error => (.error error, write)
  | .ok revision =>
      let keys := indexes.map fun index => collect (index.keys row)
      match write.version.violation indexes keys key with
      | some error => (.error error, write)
      | none =>
          let previous := write.version.rows[key]?
          let version := write.version.withdraw indexes key previous
          (.ok ⟨previous.map (·.1), revision⟩,
            { version := {
                revision
                rows := version.rows.insert key (row, revision)
                revisions := version.revisions.insert revision key
                indexes := List.zipWith (fun map keys =>
                  extend map (keys.toList.map fun secondary => ⟨secondary, key⟩))
                  version.indexes keys }
              mutations := write.mutations ++ [⟨key, revision, false⟩] })

def insertIfRevision (write : Write Row) (row : Row) (expected : Nat) :
    Except TableError (WriteResult Row) × Write Row :=
  match write.requireRevision (Keyed.primaryKey row) expected with
  | .error error => (.error error, write)
  | .ok _ => write.insert indexes row

/-- A key that is absent is deleted all the same. -/
def delete (write : Write Row) (key : Key) : Except TableError (WriteResult Row) × Write Row :=
  match write.version.nextRevision with
  | .error error => (.error error, write)
  | .ok revision =>
      let previous := write.version.rows[key]?
      let version := { write.version with rows := write.version.rows.erase key }
      let version := version.withdraw indexes key previous
      (.ok ⟨previous.map (·.1), revision⟩,
        { version := { version with revision }
          mutations := write.mutations ++ [⟨key, revision, true⟩] })

def deleteIfRevision (write : Write Row) (key : Key) (expected : Nat) :
    Except TableError (WriteResult Row) × Write Row :=
  match write.requireRevision key expected with
  | .error error => (.error error, write)
  | .ok _ => write.delete indexes key

def modify (write : Write Row) (key : Key) (modify : Option Row → Option Row) :
    Except TableError (WriteResult Row) × Write Row :=
  let current := write.version.rows[key]?
  match modify (current.map (·.1)) with
  | some row =>
      if Keyed.primaryKey row ≠ key then (.error .primaryKeyChanged, write)
      else write.insert indexes row
  | none =>
      if current.isSome then write.delete indexes key
      else (.ok ⟨none, write.version.revision⟩, write)

/-- The deletions of the keys, up to the first that fails. -/
def deleteEach (write : Write Row) : List Key → Except TableError Unit × Write Row
  | [] => (.ok (), write)
  | key :: keys =>
      match write.delete indexes key with
      | (.error error, write) => (.error error, write)
      | (.ok _, write) => deleteEach write keys

def deleteAll (write : Write Row) : Except TableError Nat × Write Row :=
  let keys := write.version.rows.keys
  if write.version.revision + keys.length < 2 ^ 64 then
    match write.deleteEach indexes keys with
    | (.error error, write) => (.error error, write)
    | (.ok _, write) => (.ok keys.length, write)
  else (.error .revisionExhausted, write)

end Write

inductive Action (Row : Type)
  | insert (row : Row)
  | insertIfRevision (row : Row) (expected : Nat)
  | delete (key : Key)
  | deleteIfRevision (key : Key) (expected : Nat)
  | modify (key : Key) (modify : Option Row → Option Row)
  | deleteAll

/-- A write; its answer is the caller's to look at. -/
def Write.perform (write : Write Row) : Action Row → Write Row
  | .insert row => (write.insert indexes row).2
  | .insertIfRevision row expected => (write.insertIfRevision indexes row expected).2
  | .delete key => (write.delete indexes key).2
  | .deleteIfRevision key expected => (write.deleteIfRevision indexes key expected).2
  | .modify key modify => (write.modify indexes key modify).2
  | .deleteAll => (write.deleteAll indexes).2

/-- The writes of a batch; one that fails leaves the earlier ones in place. -/
def Write.performAll (write : Write Row) (actions : List (Action Row)) : Write Row :=
  actions.foldl (Write.perform indexes) write

end Writes

section Steps

variable {Row : Type} [Keyed Row]

def Version.forget (version : Version Row) (key : Key) : BTreeMap Nat Key :=
  match version.rows[key]? with
  | some (_, revision) => version.revisions.erase revision
  | none => version.revisions

/-- One mutation takes the next revision and writes or removes one row. -/
inductive Version.Step (before : Version Row) : Mutation → Version Row → Prop
  | insert (row : Row) (after : Version Row) (revision : after.revision = before.revision + 1)
      (rows : after.rows =
        before.rows.insert (Keyed.primaryKey row) (row, before.revision + 1))
      (revisions : after.revisions = (before.forget (Keyed.primaryKey row)).insert
        (before.revision + 1) (Keyed.primaryKey row)) :
      Step before ⟨Keyed.primaryKey row, before.revision + 1, false⟩ after
  | delete (key : Key) (after : Version Row) (revision : after.revision = before.revision + 1)
      (rows : after.rows = before.rows.erase key)
      (revisions : after.revisions = before.forget key) :
      Step before ⟨key, before.revision + 1, true⟩ after

inductive Version.Steps : Version Row → List Mutation → Version Row → Prop
  | refl (version : Version Row) : Steps version [] version
  | cons {before middle after : Version Row} {mutation : Mutation} {mutations : List Mutation}
      (first : before.Step mutation middle) (rest : Steps middle mutations after) :
      Steps before (mutation :: mutations) after

theorem Version.Steps.trans {first second third : Version Row} {early late : List Mutation}
    (left : first.Steps early second) (right : second.Steps late third) :
    first.Steps (early ++ late) third := by
  induction left with
  | refl => exact right
  | cons step _ induction => exact .cons step (induction right)

theorem Version.Step.steps {before after : Version Row} {mutation : Mutation}
    (step : before.Step mutation after) : before.Steps [mutation] after :=
  .cons step (.refl after)

/-- A batch that has gone from one state to another by mutations it has noted. -/
def Write.Ran (before after : Write Row) : Prop :=
  ∃ mutations, after.mutations = before.mutations ++ mutations ∧
    before.version.Steps mutations after.version

theorem Write.Ran.refl (write : Write Row) : write.Ran write :=
  ⟨[], (List.append_nil _).symm, .refl _⟩

theorem Write.Ran.trans {first second third : Write Row} (left : first.Ran second)
    (right : second.Ran third) : first.Ran third := by
  rcases left with ⟨early, noted, ran⟩
  rcases right with ⟨late, notedLate, ranLate⟩
  exact ⟨early ++ late, by rw [notedLate, noted, List.append_assoc], ran.trans ranLate⟩

variable (indexes : List (Index Row)) (write : Write Row)

omit [Keyed Row] in
@[simp] theorem Version.rows_withdraw (version : Version Row) (key : Key)
    (previous : Option (Row × Nat)) :
    (version.withdraw indexes key previous).rows = version.rows := by
  unfold Version.withdraw
  split <;> rfl

omit [Keyed Row] in
theorem Version.revisions_withdraw (version : Version Row) (key : Key) :
    (version.withdraw indexes key version.rows[key]?).revisions = version.forget key := by
  unfold Version.withdraw Version.forget
  split <;> rfl

omit [Keyed Row] in
theorem Version.nextRevision_eq_ok {version : Version Row} {revision : Nat}
    (next : version.nextRevision = .ok revision) : revision = version.revision + 1 := by
  unfold Version.nextRevision at next
  split at next
  · exact (Except.ok.inj next).symm
  · cases next

theorem Write.insert_ran (row : Row) : write.Ran (write.insert indexes row).2 := by
  unfold Write.insert
  dsimp only
  split
  · exact .refl write
  · rename_i revision next
    cases Version.nextRevision_eq_ok next
    split
    · exact .refl write
    · refine ⟨[⟨Keyed.primaryKey row, write.version.revision + 1, false⟩], rfl,
        (Version.Step.insert row _ rfl ?_ ?_).steps⟩
      · rw [Version.rows_withdraw]
      · rw [Version.revisions_withdraw]

theorem Write.delete_ran (key : Key) : write.Ran (write.delete indexes key).2 := by
  unfold Write.delete
  split
  · exact .refl write
  · rename_i revision next
    cases Version.nextRevision_eq_ok next
    refine ⟨[⟨key, write.version.revision + 1, true⟩], rfl,
      (Version.Step.delete key _ rfl ?_ ?_).steps⟩
    · simp
    · unfold Version.withdraw Version.forget
      cases write.version.rows[key]? <;> rfl

theorem Write.deleteEach_ran (keys : List Key) : write.Ran (write.deleteEach indexes keys).2 := by
  induction keys generalizing write with
  | nil => exact .refl write
  | cons key keys induction =>
      have first := write.delete_ran indexes key
      unfold Write.deleteEach
      split
      · rename_i deleted
        rw [deleted] at first
        exact first
      · rename_i next deleted
        rw [deleted] at first
        exact first.trans (induction next)

theorem Write.perform_ran (action : Action Row) : write.Ran (write.perform indexes action) := by
  cases action with
  | insert row => exact write.insert_ran indexes row
  | insertIfRevision row expected =>
      unfold Write.perform Write.insertIfRevision
      dsimp only
      split
      · exact .refl write
      · exact write.insert_ran indexes row
  | delete key => exact write.delete_ran indexes key
  | deleteIfRevision key expected =>
      unfold Write.perform Write.deleteIfRevision
      dsimp only
      split
      · exact .refl write
      · exact write.delete_ran indexes key
  | modify key modify =>
      unfold Write.perform Write.modify
      dsimp only
      split
      · split
        · exact .refl write
        · exact write.insert_ran indexes _
      · split
        · exact write.delete_ran indexes key
        · exact .refl write
  | deleteAll =>
      unfold Write.perform Write.deleteAll
      dsimp only
      split
      · have ran := write.deleteEach_ran indexes write.version.rows.keys
        split <;> rename_i deleted <;> rw [deleted] at ran <;> exact ran
      · exact .refl write

theorem Write.performAll_ran (actions : List (Action Row)) :
    write.Ran (write.performAll indexes actions) := by
  induction actions generalizing write with
  | nil => exact .refl write
  | cons action actions induction =>
      exact (write.perform_ran indexes action).trans (induction _)

end Steps

section Consistency

variable {Row : Type} [Keyed Row] {version : Version Row}

/-- The revision index lists the rows' keys by their revisions. -/
structure Version.Consistent (version : Version Row) : Prop where
  revisions : ∀ (revision : Nat) (key : Key), version.revisions[revision]? = some key ↔
    ∃ row, version.rows[key]? = some (row, revision)
  bounded : ∀ (key : Key) row revision, version.rows[key]? = some (row, revision) →
    0 < revision ∧ revision ≤ version.revision
  keyed : ∀ (key : Key) row revision, version.rows[key]? = some (row, revision) →
    Keyed.primaryKey row = key

theorem consistent_empty (indexes : List (BTreeSet Entry)) :
    Version.Consistent ({ indexes } : Version Row) := by
  constructor <;> simp

theorem Version.Consistent.unique (consistent : version.Consistent) {left right : Key}
    {leftRow rightRow : Row} {revision : Nat}
    (isLeft : version.rows[left]? = some (leftRow, revision))
    (isRight : version.rows[right]? = some (rightRow, revision)) : left = right := by
  have first := (consistent.revisions revision left).mpr ⟨leftRow, isLeft⟩
  have second := (consistent.revisions revision right).mpr ⟨rightRow, isRight⟩
  exact Option.some.inj (first.symm.trans second)

theorem Version.Consistent.getElem?_forget (consistent : version.Consistent) (key : Key)
    (revision : Nat) (other : Key) :
    (version.forget key)[revision]? = some other ↔
      other ≠ key ∧ ∃ row, version.rows[other]? = some (row, revision) := by
  unfold Version.forget
  cases found : version.rows[key]? with
  | none =>
      dsimp only
      rw [consistent.revisions]
      refine (and_iff_right_of_imp ?_).symm
      rintro ⟨row, held⟩ rfl
      rw [found] at held
      cases held
  | some pair =>
      rcases pair with ⟨old, oldRevision⟩
      dsimp only
      rw [getElem?_erase_eq_some_iff, consistent.revisions]
      refine and_congr_left ?_
      rintro ⟨row, held⟩
      refine not_congr ⟨?_, ?_⟩
      · rintro rfl
        exact consistent.unique held found
      · rintro rfl
        rw [found] at held
        cases held
        rfl

theorem Version.Step.consistent {before after : Version Row} {mutation : Mutation}
    (step : before.Step mutation after) (consistent : before.Consistent) : after.Consistent := by
  cases step with
  | insert row after isRevision rows revisions =>
      have held : ∀ (key : Key) pair, after.rows[key]? = some pair ↔
          Keyed.primaryKey row = key ∧ (row, before.revision + 1) = pair ∨
            Keyed.primaryKey row ≠ key ∧ before.rows[key]? = some pair := by
        intro key pair
        rw [rows, getElem?_insert_eq_some_iff]
      refine ⟨?_, ?_, ?_⟩
      · intro revision key
        rw [revisions, getElem?_insert_eq_some_iff, consistent.getElem?_forget]
        constructor
        · rintro (⟨rfl, rfl⟩ | ⟨_, different, other, earlier⟩)
          · exact ⟨row, (held _ _).mpr (.inl ⟨rfl, rfl⟩)⟩
          · exact ⟨other, (held _ _).mpr (.inr ⟨different.symm, earlier⟩)⟩
        · rintro ⟨other, found⟩
          rcases (held _ _).mp found with ⟨same, equal⟩ | ⟨different, earlier⟩
          · cases equal
            exact .inl ⟨rfl, same⟩
          · have bound := (consistent.bounded key other revision earlier).2
            exact .inr ⟨by omega, different.symm, other, earlier⟩
      · intro key other revision found
        rw [isRevision]
        rcases (held _ _).mp found with ⟨_, equal⟩ | ⟨_, earlier⟩
        · cases equal
          omega
        · have bound := consistent.bounded key other revision earlier
          omega
      · intro key other revision found
        rcases (held _ _).mp found with ⟨same, equal⟩ | ⟨_, earlier⟩
        · cases equal
          exact same
        · exact consistent.keyed key other revision earlier
  | delete key after isRevision rows revisions =>
      have held : ∀ (other : Key) pair, after.rows[other]? = some pair ↔
          other ≠ key ∧ before.rows[other]? = some pair := by
        intro other pair
        rw [rows, getElem?_erase_eq_some_iff, ne_comm]
      refine ⟨?_, ?_, ?_⟩
      · intro revision other
        rw [revisions, consistent.getElem?_forget]
        simp only [held, exists_and_left]
      · intro other row revision found
        have bound := consistent.bounded other row revision ((held _ _).mp found).2
        omega
      · intro other row revision found
        exact consistent.keyed other row revision ((held _ _).mp found).2

end Consistency

end FlowSdn.Tables
