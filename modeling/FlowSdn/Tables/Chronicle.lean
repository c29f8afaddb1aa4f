import FlowSdn.Tables.Streams

/-! # What was written

The history of a table lists every mutation that was published. A row of the table is the
newest mutation of its key, and a mutation whose row is not in the table any more was
followed by another one of the key. The tombstones are deletions of the history.
-/

namespace FlowSdn.Tables

open OrderedMap

section Chronicles

variable {Row : Type} [Keyed Row]

def Superseded (history : List Mutation) (key : Key) (revision : Nat) : Prop :=
  ∃ mutation ∈ history, mutation.key = key ∧ revision < mutation.revision

variable {history mutations : List Mutation} {key : Key} {revision : Nat}
  {after before version : Version Row} {mutation : Mutation} {row : Row}

theorem Superseded.append
    (superseded : Superseded history key revision) (mutations : List Mutation) :
    Superseded (history ++ mutations) key revision := by
  rcases superseded with ⟨mutation, member, same, later⟩
  exact ⟨mutation, List.mem_append_left _ member, same, later⟩

/-- A version with the mutations that led to it. -/
structure Chronicle (history : List Mutation) (version : Version Row) : Prop where
  consistent : version.Consistent
  bounded : ∀ mutation ∈ history, mutation.revision ≤ version.revision
  unique : ∀ left ∈ history, ∀ right ∈ history, left.revision = right.revision → left = right
  present : ∀ (key : Key) row revision, version.rows[key]? = some (row, revision) →
    ⟨key, revision, false⟩ ∈ history ∧
      ∀ mutation ∈ history, mutation.key = key → mutation.revision ≤ revision
  absent : ∀ key : Key, version.rows[key]? = none → ∀ mutation ∈ history, mutation.key = key →
    mutation.deleted = false → Superseded history key mutation.revision

theorem chronicle_empty (indexes : List (BTreeSet Entry)) :
    Chronicle [] ({ indexes } : Version Row) := by
  refine ⟨consistent_empty indexes, ?_, ?_, ?_, ?_⟩ <;> simp

theorem Version.Step.rows_cases (step : before.Step mutation after) :
    mutation.revision = before.revision + 1 ∧ after.revision = before.revision + 1 ∧
      (∀ key : Key, key ≠ mutation.key → after.rows[key]? = before.rows[key]?) ∧
      (mutation.deleted = true ∧ after.rows[mutation.key]? = none ∨
        mutation.deleted = false ∧
          ∃ row, after.rows[mutation.key]? = some (row, mutation.revision)) := by
  cases step with
  | insert row after isRevision rows revisions =>
      refine ⟨rfl, isRevision, ?_, .inr ⟨rfl, row, ?_⟩⟩
      · intro key different
        rw [rows, getElem?_insert_of_ne (Ne.symm different)]
      · rw [rows, Std.ExtTreeMap.getElem?_insert_self]
  | delete key after isRevision rows revisions =>
      refine ⟨rfl, isRevision, ?_, .inl ⟨rfl, ?_⟩⟩
      · intro other different
        rw [rows, getElem?_erase_of_ne (Ne.symm different)]
      · rw [rows, Std.ExtTreeMap.getElem?_erase_self]

theorem Chronicle.step (chronicle : Chronicle history before)
    (step : before.Step mutation after) : Chronicle (history ++ [mutation]) after := by
  rcases step.rows_cases with ⟨number, revision, others, own⟩
  have older : ∀ earlier ∈ history, earlier.revision < mutation.revision := by
    intro earlier member
    have bound := chronicle.bounded earlier member
    omega
  have last : mutation ∈ history ++ [mutation] := List.mem_append_right _ (.head _)
  refine ⟨step.consistent chronicle.consistent, ?_, ?_, ?_, ?_⟩
  · intro noted member
    rcases List.mem_append.mp member with member | member
    · have bound := chronicle.bounded noted member
      omega
    · rw [List.mem_singleton.mp member]
      omega
  · intro left isLeft right isRight same
    rcases List.mem_append.mp isLeft with isLeft | isLeft <;>
      rcases List.mem_append.mp isRight with isRight | isRight
    · exact chronicle.unique left isLeft right isRight same
    · rw [List.mem_singleton.mp isRight] at same
      exact absurd same (older left isLeft).ne
    · rw [List.mem_singleton.mp isLeft] at same
      exact absurd same.symm (older right isRight).ne
    · rw [List.mem_singleton.mp isLeft, List.mem_singleton.mp isRight]
  · intro key row number held
    by_cases same : key = mutation.key
    · subst same
      rcases own with ⟨_, gone⟩ | ⟨kept, written, now⟩
      · rw [gone] at held
        cases held
      · rw [now] at held
        cases held
        refine ⟨?_, ?_⟩
        · rw [← kept]
          exact last
        · intro noted member _
          rcases List.mem_append.mp member with member | member
          · exact (older noted member).le
          · rw [List.mem_singleton.mp member]
    · rw [others key same] at held
      rcases chronicle.present key row number held with ⟨noted, newest⟩
      refine ⟨List.mem_append_left _ noted, ?_⟩
      intro other member isKey
      rcases List.mem_append.mp member with member | member
      · exact newest other member isKey
      · rw [List.mem_singleton.mp member] at isKey
        exact absurd isKey.symm same
  · intro key gone noted member isKey kept
    rcases List.mem_append.mp member with member | member
    · by_cases same : key = mutation.key
      · exact ⟨mutation, last, same.symm, older noted member⟩
      · rw [others key same] at gone
        exact (chronicle.absent key gone noted member isKey kept).append _
    · rw [List.mem_singleton.mp member] at isKey kept
      rcases own with ⟨deleted, _⟩ | ⟨_, row, now⟩
      · rw [kept] at deleted
        cases deleted
      · rw [← isKey, now] at gone
        cases gone

theorem Chronicle.steps
    (chronicle : Chronicle history before) (steps : before.Steps mutations after) :
    Chronicle (history ++ mutations) after := by
  induction steps generalizing history with
  | refl =>
      rw [List.append_nil]
      exact chronicle
  | cons first _ induction =>
      rw [List.append_cons]
      exact induction (chronicle.step first)

theorem Version.Steps.rows_of_le (steps : before.Steps mutations after)
    (held : after.rows[key]? = some (row, revision)) (old : revision ≤ before.revision) :
    before.rows[key]? = some (row, revision) := by
  induction steps with
  | refl => exact held
  | @cons before middle after mutation mutations first rest induction =>
      rcases first.rows_cases with ⟨number, middleRevision, others, own⟩
      have inMiddle := induction held (by omega)
      by_cases same : key = mutation.key
      · subst same
        rcases own with ⟨_, gone⟩ | ⟨_, written, now⟩
        · rw [gone] at inMiddle
          cases inMiddle
        · rw [now] at inMiddle
          cases inMiddle
          omega
      · rwa [others key same] at inMiddle

/-- The row was written at the revision. -/
structure Genuine (history : List Mutation) (version : Version Row) (row : Row)
    (revision : Nat) : Prop where
  noted : ⟨Keyed.primaryKey row, revision, false⟩ ∈ history
  same : ∀ other, version.rows[Keyed.primaryKey row]? = some (other, revision) → other = row

theorem Chronicle.genuine (chronicle : Chronicle history version)
    (held : version.rows[key]? = some (row, revision)) : Genuine history version row revision := by
  have isKey := chronicle.consistent.keyed key row revision held
  subst isKey
  refine ⟨(chronicle.present _ row revision held).1, ?_⟩
  intro other also
  rw [held] at also
  cases also
  rfl

theorem Genuine.steps (genuine : Genuine history before row revision)
    (chronicle : Chronicle history before) (steps : before.Steps mutations after) :
    Genuine (history ++ mutations) after row revision := by
  refine ⟨List.mem_append_left _ genuine.noted, ?_⟩
  intro other held
  exact genuine.same other (steps.rows_of_le held (chronicle.bounded _ genuine.noted))

/-- A mutation is still what the table says of its key. -/
def Version.Current (version : Version Row) (mutation : Mutation) : Prop :=
  match version.rows[mutation.key]? with
  | some (_, revision) => mutation.deleted = false ∧ revision = mutation.revision
  | none => mutation.deleted = true

theorem Chronicle.superseded (chronicle : Chronicle history version) (noted : mutation ∈ history)
    (outdated : ¬version.Current mutation) : Superseded history mutation.key mutation.revision := by
  unfold Version.Current at outdated
  cases held : version.rows[mutation.key]? with
  | none =>
      rw [held] at outdated
      exact chronicle.absent mutation.key held mutation noted rfl (Bool.eq_false_iff.mpr outdated)
  | some pair =>
      rcases pair with ⟨row, revision⟩
      rw [held] at outdated
      rcases chronicle.present mutation.key row revision held with ⟨isNoted, newest⟩
      refine ⟨_, isNoted, rfl, Nat.lt_of_le_of_ne (newest mutation noted rfl) ?_⟩
      intro same
      have equal := chronicle.unique mutation noted _ isNoted same
      rw [equal] at outdated
      exact outdated ⟨rfl, rfl⟩

theorem Chronicle.not_superseded (chronicle : Chronicle history version)
    (held : version.rows[key]? = some (row, revision)) : ¬Superseded history key revision := by
  rintro ⟨mutation, member, isKey, later⟩
  have newest := (chronicle.present key row revision held).2 mutation member isKey
  omega

end Chronicles

/-! ## Tombstones -/

/-- The tombstones are deletions of the history. -/
def StreamState.Buried (history : List Mutation) (state : StreamState) : Prop :=
  ∀ (revision : Nat) key, state.tombstones[revision]? = some key → ⟨key, revision, true⟩ ∈ history

namespace StreamState

variable {history : List Mutation} {state : StreamState} {tombstones : BTreeMap Nat Key}

theorem Buried.append (buried : state.Buried history) (mutations : List Mutation) :
    state.Buried (history ++ mutations) :=
  fun revision key held => List.mem_append_left _ (buried revision key held)

theorem tombstones_of_erase {erased revision : Nat} {key : Key}
    (held : (tombstones.erase erased)[revision]? = some key) :
    tombstones[revision]? = some key :=
  (getElem?_erase_eq_some_iff.mp held).2

theorem Buried.entomb {mutation : Mutation}
    (buried : ∀ (revision : Nat) key, tombstones[revision]? = some key →
      ⟨key, revision, true⟩ ∈ history) (noted : mutation ∈ history)
    (deleted : mutation.deleted = true) {revision : Nat} {key : Key}
    (held : (tombstones.insert mutation.revision mutation.key)[revision]? = some key) :
    ⟨key, revision, true⟩ ∈ history := by
  rcases getElem?_insert_eq_some_iff.mp held with ⟨rfl, rfl⟩ | ⟨_, before⟩
  · rw [← deleted]
    exact noted
  · exact buried revision key before

section

variable (buried : state.Buried history)

include buried

theorem Buried.record {mutation : Mutation}
    (noted : mutation ∈ history) : (state.record mutation).Buried history := by
  have without : ∀ (previous revision : Nat) key,
      (state.tombstones.erase previous)[revision]? = some key → ⟨key, revision, true⟩ ∈ history :=
    fun _ revision key held => buried revision key (tombstones_of_erase held)
  intro revision key held
  unfold StreamState.record at held
  dsimp only at held
  split at held
  · rename_i deleted
    split at held
    · exact Buried.entomb (without _) noted deleted held
    · exact Buried.entomb buried noted deleted held
  · split at held
    · exact without _ revision key held
    · exact buried revision key held

theorem Buried.records {mutations : List Mutation}
    (noted : ∀ mutation ∈ mutations, mutation ∈ history) :
    (mutations.foldl StreamState.record state).Buried history := by
  induction mutations generalizing state with
  | nil => exact buried
  | cons mutation mutations induction =>
      exact induction (buried.record (noted mutation (.head _)))
        fun other member => noted other (.tail _ member)

theorem Buried.collectThrough (low : Nat) : (state.collectThrough low).Buried history := by
  unfold StreamState.collectThrough
  generalize (state.tombstones.toList.takeWhile _) = tombstones
  induction tombstones generalizing state with
  | nil => exact buried
  | cons tombstone tombstones induction =>
      exact induction fun revision key held => buried revision key (tombstones_of_erase held)

theorem Buried.maintain (revision now : Nat) : (state.maintain revision now).Buried history := by
  unfold StreamState.maintain
  dsimp only
  split
  · exact buried
  · apply Buried.collectThrough
    exact buried

end

end StreamState

section Calls

variable {Row : Type} [Keyed Row]

def Watched.mutations (watched : Watched Row) : Call Row → List Mutation
  | .batch actions => (watched.table.write actions).mutations
  | _ => []

theorem Table.batch_steps (table : Table Row) (actions : List (Action Row)) (now : Nat) :
    table.published.Steps (table.write actions).mutations (table.batch actions now).published := by
  have steps := table.write_steps actions
  unfold Table.batch
  dsimp only
  split
  · exact steps
  · rename_i unchanged
    have same : table.published.revision = (table.write actions).version.revision :=
      not_not.mp unchanged
    cases made : (table.write actions).mutations with
    | nil => exact .refl _
    | cons mutation mutations =>
        rw [made] at steps
        cases steps with
        | cons first rest =>
            have grown := rest.revision_le
            have number := first.rows_cases.2.1
            omega

theorem Watched.perform_steps (watched : Watched Row) (now : Nat) (call : Call Row) :
    watched.table.published.Steps (watched.mutations call)
      (watched.perform (now, call)).table.published := by
  cases call with
  | batch actions => exact watched.table.batch_steps actions now
  | watch fromRevision => exact .refl _
  | drain index max =>
      unfold Watched.perform
      dsimp only
      split
      · exact .refl _
      · unfold Table.drain
        split <;> exact .refl _
  | ack index revision =>
      unfold Watched.perform
      dsimp only
      split <;> exact .refl _
  | unsubscribe index =>
      unfold Watched.perform
      dsimp only
      split <;> exact .refl _

variable {history : List Mutation} {table : Table Row}

theorem Table.batch_buried
    (buried : table.streams.Buried history) (actions : List (Action Row)) (now : Nat) :
    (table.batch actions now).streams.Buried (history ++ (table.write actions).mutations) := by
  unfold Table.batch
  dsimp only
  split
  · exact ((buried.append _).records fun _ member => List.mem_append_right _ member).maintain _ _
  · exact buried.append _

omit [Keyed Row] in
theorem Table.ack_buried
    (buried : table.streams.Buried history) (stream : ChangeStream Row) (revision now : Nat) :
    (table.ack stream revision now).streams.Buried history := by
  apply StreamState.Buried.maintain
  exact buried

omit [Keyed Row] in
theorem Table.drain_buried
    (buried : table.streams.Buried history) (stream : ChangeStream Row) (max now : Nat) :
    (table.drain stream max now).2.2.streams.Buried history := by
  unfold Table.drain
  split
  · exact buried
  · exact StreamState.Buried.maintain buried _ _

theorem Watched.perform_buried {watched : Watched Row}
    (buried : watched.table.streams.Buried history) (now : Nat) (call : Call Row) :
    (watched.perform (now, call)).table.streams.Buried (history ++ watched.mutations call) := by
  cases call with
  | batch actions => exact Table.batch_buried buried actions now
  | watch fromRevision => exact StreamState.Buried.append buried []
  | drain index max =>
      change StreamState.Buried (history ++ []) _
      rw [List.append_nil]
      unfold Watched.perform
      dsimp only
      split
      · exact buried
      · exact Table.drain_buried buried _ max now
  | ack index revision =>
      change StreamState.Buried (history ++ []) _
      rw [List.append_nil]
      unfold Watched.perform
      dsimp only
      split
      · exact buried
      · exact Table.ack_buried buried _ revision now
  | unsubscribe index =>
      change StreamState.Buried (history ++ []) _
      rw [List.append_nil]
      unfold Watched.perform
      dsimp only
      split
      · exact buried
      · apply StreamState.Buried.maintain
        exact buried

end Calls

end FlowSdn.Tables
