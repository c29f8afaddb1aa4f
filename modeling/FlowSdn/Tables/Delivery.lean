import FlowSdn.Tables.Chronicle

/-! # What a stream delivers

A drain delivers what is left of a population or what came after the cursor, in the order of the
revisions. Rows up to the delivered revision have been delivered, and rows up to the cursor have
been delivered or wait in the stream.
-/

namespace FlowSdn.Tables

open OrderedMap

/-- The revision of the mutation that a change tells of; a marker tells of none. -/
def Change.stamp : Change Row → Option Nat
  | .insert _ revision => some revision
  | .delete _ revision => some revision
  | .resync _ => none

def stamps (changes : List (Change Row)) : List Nat := changes.filterMap Change.stamp

theorem mem_stamps {changes : List (Change Row)} {revision : Nat} :
    revision ∈ stamps changes ↔ ∃ change ∈ changes, change.stamp = some revision :=
  List.mem_filterMap

theorem stamps_append (left right : List (Change Row)) :
    stamps (left ++ right) = stamps left ++ stamps right :=
  List.filterMap_append

theorem Change.revision_of_stamp {change : Change Row} {revision : Nat}
    (stamped : change.stamp = some revision) : change.revision = revision := by
  cases change with
  | resync number => cases stamped
  | _ => exact Option.some.inj stamped

section Deliveries

variable {Row : Type} [Keyed Row]

/-- A change tells of a mutation that was published. -/
def Change.Genuine (history : List Mutation) (version : Version Row) : Change Row → Prop
  | .insert row revision => Tables.Genuine history version row revision
  | .delete key revision => ⟨key, revision, true⟩ ∈ history
  | .resync _ => True

variable {change : Change Row} {version : Version Row} {deletes inserts changes : List (Change Row)}
  {cursor : Nat} {last : Change Row}

theorem Change.Genuine.steps {history mutations : List Mutation} {before after : Version Row}
    (genuine : change.Genuine history before)
    (chronicle : Chronicle history before) (steps : before.Steps mutations after) :
    change.Genuine (history ++ mutations) after := by
  cases change with
  | insert row revision => exact Tables.Genuine.steps genuine chronicle steps
  | delete key revision => exact List.mem_append_left _ genuine
  | resync revision => trivial

theorem Change.Genuine.stamp_le {history : List Mutation} (genuine : change.Genuine history version)
    (chronicle : Chronicle history version) {revision : Nat}
    (stamped : change.stamp = some revision) : revision ≤ version.revision := by
  cases change with
  | insert row number =>
      cases stamped
      exact chronicle.bounded _ (Tables.Genuine.noted genuine)
  | delete key number =>
      cases stamped
      exact chronicle.bounded _ genuine
  | resync number => cases stamped

/-! ## Order -/

/-- The changes come in the order of their revisions. -/
def Ascending (changes : List (Change Row)) : Prop :=
  changes.Pairwise fun earlier later => earlier.revision < later.revision

omit [Keyed Row] in
theorem mem_mergeOne {delete : Change Row} {rest : List (Change Row) → List (Change Row)}
    (members : ∀ inserts, change ∈ rest inserts ↔ change ∈ deletes ∨ change ∈ inserts) :
    change ∈ mergeOne delete rest inserts ↔ change ∈ delete :: deletes ∨ change ∈ inserts := by
  induction inserts with
  | nil =>
      rw [mergeOne, List.mem_cons, members, List.mem_cons, or_assoc]
  | cons insert inserts induction =>
      unfold mergeOne
      split
      · rw [List.mem_cons, members, List.mem_cons (a := change) (b := delete), or_assoc]
      · rw [List.mem_cons, induction, List.mem_cons (a := change) (b := insert)]
        exact or_left_comm

omit [Keyed Row] in
theorem mem_mergeChanges :
    change ∈ mergeChanges deletes inserts ↔ change ∈ deletes ∨ change ∈ inserts := by
  induction deletes generalizing inserts with
  | nil => simp [mergeChanges]
  | cons delete deletes induction => exact mem_mergeOne fun _ => induction

omit [Keyed Row] in
theorem ascending_mergeChanges (deleted : Ascending deletes) (inserted : Ascending inserts)
    (apart : ∀ delete ∈ deletes, ∀ insert ∈ inserts, delete.revision ≠ insert.revision) :
    Ascending (mergeChanges deletes inserts) := by
  induction deletes generalizing inserts with
  | nil => exact inserted
  | cons delete deletes induction =>
      rcases List.pairwise_cons.mp deleted with ⟨first, others⟩
      change Ascending (mergeOne delete (mergeChanges deletes) inserts)
      induction inserts with
      | nil =>
          refine List.pairwise_cons.mpr ⟨?_, induction others inserted fun _ _ _ member => ?_⟩
          · intro change member
            rcases mem_mergeChanges.mp member with member | member
            · exact first change member
            · cases member
          · cases member
      | cons insert inserts inner =>
          rcases List.pairwise_cons.mp inserted with ⟨firstInsert, otherInserts⟩
          have different := apart delete (.head _) insert (.head _)
          unfold mergeOne
          split
          · rename_i before
            refine List.pairwise_cons.mpr ⟨?_, induction others inserted fun one isOne =>
              apart one (.tail _ isOne)⟩
            intro change member
            rcases mem_mergeChanges.mp member with member | member
            · exact first change member
            · rcases List.mem_cons.mp member with rfl | member
              · exact before
              · exact before.trans (firstInsert change member)
          · rename_i notBefore
            refine List.pairwise_cons.mpr ⟨?_, inner otherInserts fun one isOne two isTwo =>
              apart one isOne two (.tail _ isTwo)⟩
            intro change member
            rcases (mem_mergeOne fun _ => mem_mergeChanges).mp member with member | member
            · rcases List.mem_cons.mp member with rfl | member
              · omega
              · have after := first change member
                omega
            · exact firstInsert change member

omit [Keyed Row] in
theorem Ascending.take (ascending : Ascending changes)
    (count : Nat) : Ascending (changes.take count) :=
  List.Pairwise.sublist (List.take_sublist _ _) ascending

omit [Keyed Row] in
theorem Ascending.mem_take (ascending : Ascending changes) {count : Nat}
    (isLast : last ∈ changes.take count) (member : change ∈ changes)
    (notAfter : change.revision ≤ last.revision) : change ∈ changes.take count := by
  unfold Ascending at ascending
  rw [← List.take_append_drop count changes] at ascending member
  rcases List.mem_append.mp member with taken | left
  · exact taken
  · have after := (List.pairwise_append.mp ascending).2.2 last isLast change left
    omega

omit [Keyed Row] in
theorem Ascending.nodup_stamps (ascending : Ascending changes) : (stamps changes).Nodup := by
  refine List.Pairwise.filterMap _ ?_ ascending
  intro one two before left isLeft right isRight
  rw [Change.revision_of_stamp isLeft, Change.revision_of_stamp isRight] at before
  exact before.ne

omit [Keyed Row] in
theorem Ascending.le_last (ascending : Ascending changes) (isLast : changes.getLast? = some last)
    (member : change ∈ changes) : change.revision ≤ last.revision := by
  rcases List.getLast?_eq_some_iff.mp isLast with ⟨others, rfl⟩
  rcases List.mem_append.mp member with member | member
  · exact ((List.pairwise_append.mp ascending).2.2 change member last (.head _)).le
  · rw [List.mem_singleton.mp member]

/-! ## Rows as changes -/

theorem mem_population (consistent : version.Consistent) :
    change ∈ version.population ↔
      ∃ (key : Key) (row : Row) (revision : Nat),
        version.rows[key]? = some (row, revision) ∧ change = .insert row revision := by
  simp only [Version.population, List.mem_filterMap, mem_values, Option.map_eq_some_iff,
    Prod.exists]
  constructor
  · rintro ⟨key, _, row, revision, held, rfl⟩
    exact ⟨key, row, revision, held, rfl⟩
  · rintro ⟨key, row, revision, held, rfl⟩
    exact ⟨key, ⟨revision, (consistent.revisions revision key).mpr ⟨row, held⟩⟩, row, revision,
      held, rfl⟩

theorem nodup_stamps_population (consistent : version.Consistent) :
    (stamps version.population).Nodup := by
  have same : stamps version.population = version.revisions.keys := by
    rw [stamps, Version.population, List.filterMap_filterMap, values_eq_map, List.filterMap_map,
      ← Std.ExtTreeMap.map_fst_toList_eq_keys, ← List.filterMap_eq_map]
    apply List.filterMap_congr
    rintro ⟨revision, key⟩ member
    rcases (consistent.revisions revision key).mp
      (Std.ExtTreeMap.mem_toList_iff_getElem?_eq_some.mp member) with ⟨row, held⟩
    simp [held, Change.stamp]
  rw [same]
  exact Std.ExtTreeMap.nodup_keys

def Version.rowsAfter (version : Version Row) (cursor : Nat) : List (Change Row) :=
  (version.revisions.toList.filter fun entry => cursor < entry.1).filterMap
    fun entry => version.rows[entry.2]?.map fun row => .insert row.1 entry.1

theorem mem_rowsAfter (consistent : version.Consistent) :
    change ∈ version.rowsAfter cursor ↔
      ∃ (key : Key) (row : Row) (revision : Nat), version.rows[key]? = some (row, revision) ∧
        cursor < revision ∧ change = .insert row revision := by
  simp only [Version.rowsAfter, List.mem_filterMap, List.mem_filter, decide_eq_true_eq,
    Option.map_eq_some_iff, Prod.exists, Std.ExtTreeMap.mem_toList_iff_getElem?_eq_some,
    consistent.revisions]
  constructor
  · rintro ⟨revision, key, ⟨⟨row, held⟩, after⟩, other, number, same, rfl⟩
    rw [held] at same
    cases same
    exact ⟨key, row, revision, held, after, rfl⟩
  · rintro ⟨key, row, revision, held, after, rfl⟩
    exact ⟨revision, key, ⟨⟨row, held⟩, after⟩, row, revision, held, rfl⟩

omit [Keyed Row] in
theorem ascending_rowsAfter (version : Version Row) (cursor : Nat) :
    Ascending (version.rowsAfter cursor) := by
  have ordered : version.revisions.toList.Pairwise fun left right => left.1 < right.1 := by
    refine (Std.ExtTreeMap.ordered_keys_toList (t := version.revisions)).imp ?_
    intro left right before
    exact Nat.compare_eq_lt.mp before
  refine List.Pairwise.filterMap _ ?_ (ordered.filter _)
  intro left right before one isOne two isTwo
  rcases Option.map_eq_some_iff.mp isOne with ⟨row, _, rfl⟩
  rcases Option.map_eq_some_iff.mp isTwo with ⟨other, _, rfl⟩
  exact before

def StreamState.deletesAfter (state : StreamState) (cursor : Nat) : List (Change Row) :=
  (state.backlog cursor).map fun tombstone => .delete tombstone.2 tombstone.1

omit [Keyed Row] in
theorem mem_deletesAfter {state : StreamState} :
    change ∈ state.deletesAfter cursor ↔
      ∃ (revision : Nat) (key : Key), state.tombstones[revision]? = some key ∧ cursor < revision ∧
        change = .delete key revision := by
  simp only [StreamState.deletesAfter, StreamState.backlog, List.mem_map, List.mem_filter,
    decide_eq_true_eq, Prod.exists, Std.ExtTreeMap.mem_toList_iff_getElem?_eq_some]
  constructor
  · rintro ⟨revision, key, ⟨held, after⟩, rfl⟩
    exact ⟨revision, key, held, after, rfl⟩
  · rintro ⟨revision, key, held, after, rfl⟩
    exact ⟨revision, key, ⟨held, after⟩, rfl⟩

omit [Keyed Row] in
theorem ascending_deletesAfter (state : StreamState) (cursor : Nat) :
    Ascending (state.deletesAfter cursor : List (Change Row)) := by
  have ordered : state.tombstones.toList.Pairwise fun left right => left.1 < right.1 := by
    refine (Std.ExtTreeMap.ordered_keys_toList (t := state.tombstones)).imp ?_
    intro left right before
    exact Nat.compare_eq_lt.mp before
  refine List.Pairwise.map _ ?_ (ordered.filter _)
  intro left right before
  exact before

omit [Keyed Row] in
theorem Table.live_eq (table : Table Row) (cursor : Nat) :
    table.live cursor =
      mergeChanges (table.streams.deletesAfter cursor) (table.published.rowsAfter cursor) := rfl

theorem mem_live {table : Table Row} (consistent : table.published.Consistent) :
    change ∈ table.live cursor ↔
      (∃ (revision : Nat) (key : Key), table.streams.tombstones[revision]? = some key ∧
        cursor < revision ∧ change = .delete key revision) ∨
      ∃ (key : Key) (row : Row) (revision : Nat),
        table.published.rows[key]? = some (row, revision) ∧ cursor < revision ∧
          change = .insert row revision := by
  rw [Table.live_eq, mem_mergeChanges, mem_deletesAfter, mem_rowsAfter consistent]

section Recorded

variable {history : List Mutation} {table : Table Row}

/-- No revision belongs to a deletion and to a row. -/
theorem ascending_live (chronicle : Chronicle history table.published)
    (buried : table.streams.Buried history) (cursor : Nat) : Ascending (table.live cursor) := by
  rw [Table.live_eq]
  refine ascending_mergeChanges (ascending_deletesAfter _ _) (ascending_rowsAfter _ _) ?_
  intro delete isDelete insert isInsert same
  rcases mem_deletesAfter.mp isDelete with ⟨revision, key, held, _, rfl⟩
  rcases (mem_rowsAfter chronicle.consistent).mp isInsert with ⟨other, row, number, there, _, rfl⟩
  have one := buried revision key held
  have two := (chronicle.present other row number there).1
  cases chronicle.unique _ one _ two same

theorem genuine_of_mem_live (chronicle : Chronicle history table.published)
    (buried : table.streams.Buried history) {cursor : Nat} {change : Change Row}
    (member : change ∈ table.live cursor) :
    change.Genuine history table.published ∧ change.stamp = some change.revision ∧
      cursor < change.revision := by
  rcases (mem_live chronicle.consistent).mp member with ⟨revision, key, held, after, rfl⟩ |
    ⟨key, row, revision, held, after, rfl⟩
  · exact ⟨buried revision key held, rfl, after⟩
  · exact ⟨chronicle.genuine held, rfl, after⟩

end Recorded

/-! ## Sound streams -/

structure ChangeStream.Sound (history : List Mutation) (version : Version Row)
    (deliveries : List (Change Row)) (stream : ChangeStream Row) : Prop where
  delivered_le : stream.delivered ≤ stream.cursor
  cursor_le : stream.cursor ≤ version.revision
  waiting : ∀ change ∈ stream.pending, ∀ revision, change.stamp = some revision →
    revision ≤ stream.cursor ∧ ∃ row, change = .insert row revision
  genuine : ∀ change ∈ stream.pending, change.Genuine history version
  covered : ∀ (key : Key) row revision, version.rows[key]? = some (row, revision) →
    revision ≤ stream.cursor → .insert row revision ∈ deliveries ∨
      .insert row revision ∈ stream.pending
  checkpoint : ∀ (key : Key) row revision, version.rows[key]? = some (row, revision) →
    revision ≤ stream.delivered → .insert row revision ∈ deliveries
  repeated : ∀ change ∈ stream.pending, ∀ revision, change.stamp = some revision →
    revision ≤ stream.delivered → change ∈ deliveries
  once : (stamps stream.pending).Nodup

/-- No more of the stream's population has the revision. -/
def ChangeStream.Passed (stream : ChangeStream Row) (revision : Nat) : Prop :=
  revision ≤ stream.cursor ∧ revision ∉ stamps stream.pending

section Sound

variable {history : List Mutation} {version : Version Row} {deliveries : List (Change Row)}
  {stream : ChangeStream Row}

theorem ChangeStream.Sound.steps {mutations : List Mutation} {after : Version Row}
    (sound : stream.Sound history version deliveries) (chronicle : Chronicle history version)
    (steps : version.Steps mutations after) :
    stream.Sound (history ++ mutations) after deliveries where
  delivered_le := sound.delivered_le
  cursor_le := sound.cursor_le.trans steps.revision_le
  waiting := sound.waiting
  genuine change member := (sound.genuine change member).steps chronicle steps
  covered key row revision held within :=
    sound.covered key row revision (steps.rows_of_le held (within.trans sound.cursor_le)) within
  checkpoint key row revision held within :=
    sound.checkpoint key row revision (steps.rows_of_le held
      (within.trans (sound.delivered_le.trans sound.cursor_le))) within
  repeated := sound.repeated
  once := sound.once

structure Delivery (history : List Mutation) (version : Version Row)
    (deliveries : List (Change Row)) (before : ChangeStream Row) (changes : List (Change Row))
    (after : ChangeStream Row) : Prop where
  sound : after.Sound history version (deliveries ++ changes)
  genuine : ∀ change ∈ changes, change.Genuine history version
  repeated : ∀ change ∈ changes, ∀ revision, change.stamp = some revision →
    revision ≤ before.delivered → change ∈ deliveries
  passed : ∀ revision ∈ stamps changes, after.Passed revision
  once : (stamps changes).Nodup
  delivered_le : before.delivered ≤ after.delivered

theorem ChangeStream.Sound.deliver_population (sound : stream.Sound history version deliveries)
    (table : Table Row) (max : Nat) (waits : stream.pending.isEmpty = false) :
    Delivery history version deliveries stream (stream.deliver table max).1
      (stream.deliver table max).2 := by
  have split : stream.deliver table max = (stream.pending.take max,
      { stream with
        pending := stream.pending.drop max
        delivered := if (stream.pending.drop max).isEmpty then stream.cursor
          else stream.delivered }) := by
    simp [ChangeStream.deliver, waits]
  have whole : stream.pending.take max ++ stream.pending.drop max = stream.pending :=
    List.take_append_drop max stream.pending
  have nodup : (stamps (stream.pending.take max) ++ stamps (stream.pending.drop max)).Nodup := by
    rw [← stamps_append, whole]
    exact sound.once
  have increased : stream.delivered ≤
      if (stream.pending.drop max).isEmpty then stream.cursor else stream.delivered := by
    split
    · exact sound.delivered_le
    · exact Nat.le_refl _
  -- a row that waits is delivered now or goes on waiting
  have parted : ∀ change ∈ stream.pending,
      change ∈ deliveries ++ stream.pending.take max ∨ change ∈ stream.pending.drop max := by
    intro change member
    rw [← whole] at member
    rcases List.mem_append.mp member with member | member
    · exact .inl (List.mem_append_right _ member)
    · exact .inr member
  have covered : ∀ (key : Key) row revision, version.rows[key]? = some (row, revision) →
      revision ≤ stream.cursor → .insert row revision ∈ deliveries ++ stream.pending.take max ∨
        .insert row revision ∈ stream.pending.drop max := by
    intro key row revision held within
    rcases sound.covered key row revision held within with member | member
    · exact .inl (List.mem_append_left _ member)
    · exact parted _ member
  rw [split]
  refine ⟨⟨?_, sound.cursor_le, ?_, ?_, covered, ?_, ?_, ?_⟩, ?_, ?_, ?_, ?_, increased⟩
  · dsimp only
    split
    · exact Nat.le_refl _
    · exact sound.delivered_le
  · exact fun change member => sound.waiting change (List.mem_of_mem_drop member)
  · exact fun change member => sound.genuine change (List.mem_of_mem_drop member)
  · intro key row revision held within
    dsimp only at within
    split at within
    · rename_i finished
      rcases covered key row revision held within with member | member
      · exact member
      · rw [List.isEmpty_iff.mp finished] at member
        cases member
    · exact List.mem_append_left _ (sound.checkpoint key row revision held within)
  · intro change member revision stamped within
    dsimp only at member within
    split at within
    · rename_i finished
      rw [List.isEmpty_iff.mp finished] at member
      cases member
    · exact List.mem_append_left _ (sound.repeated change (List.mem_of_mem_drop member) revision
        stamped within)
  · exact (List.nodup_append.mp nodup).2.1
  · exact fun change member => sound.genuine change (List.mem_of_mem_take member)
  · exact fun change member => sound.repeated change (List.mem_of_mem_take member)
  · intro revision member
    rcases mem_stamps.mp member with ⟨change, isChange, stamped⟩
    refine ⟨(sound.waiting change (List.mem_of_mem_take isChange) revision stamped).1, ?_⟩
    intro left
    exact (List.nodup_append.mp nodup).2.2 revision member revision left rfl
  · exact (List.nodup_append.mp nodup).1

variable {max : Nat} {table : Table Row}

/-- The cursor after a live delivery: what is not beyond it has been delivered. -/
theorem live_cursor {cursor : Nat}
    (chronicle : Chronicle history table.published) (buried : table.streams.Buried history)
    (positive : max ≠ 0) (within : cursor ≤ table.published.revision) {changes : List (Change Row)}
    (taken : changes = (table.live cursor).take max) {next : Nat}
    (isNext : next = (changes.getLast?.map Change.revision).getD table.published.revision) :
    cursor ≤ next ∧ next ≤ table.published.revision ∧
      (∀ change ∈ changes, change.revision ≤ next) ∧
      ∀ change ∈ table.live cursor, change.revision ≤ next → change ∈ changes := by
  have ascending := ascending_live chronicle buried cursor
  cases isLast : changes.getLast? with
  | none =>
      have none := List.getLast?_eq_none_iff.mp isLast
      rw [none] at taken
      have nothing : table.live cursor = [] := by
        rcases List.take_eq_nil_iff.mp taken.symm with zero | nothing
        · exact absurd zero positive
        · exact nothing
      rw [isLast] at isNext
      subst isNext
      rw [none, nothing]
      exact ⟨within, Nat.le_refl _, List.forall_mem_nil _,
        fun _ member _ => member⟩
  | some last =>
      rw [isLast] at isNext
      subst isNext
      have member : last ∈ changes := List.mem_of_getLast? isLast
      rw [taken] at member
      rcases genuine_of_mem_live chronicle buried (List.mem_of_mem_take member) with
        ⟨genuine, stamped, after⟩
      refine ⟨after.le, genuine.stamp_le chronicle stamped, ?_, ?_⟩
      · intro change isChange
        rw [taken] at isChange isLast
        exact (ascending.take max).le_last isLast isChange
      · intro change isChange notAfter
        rw [taken]
        exact ascending.mem_take member isChange notAfter

/-! ## Drains -/

theorem ChangeStream.Sound.restart (sound : stream.Sound history version deliveries)
    (chronicle : Chronicle history version) :
    (stream.restart version).Sound history version deliveries := by
  have rows : ∀ change ∈ (stream.restart version).pending, ∀ revision,
      change.stamp = some revision → ∃ (key : Key) (row : Row),
        version.rows[key]? = some (row, revision) ∧ change = .insert row revision := by
    intro change member revision stamped
    rcases List.mem_cons.mp member with rfl | member
    · cases stamped
    · rcases (mem_population chronicle.consistent).mp member with ⟨key, row, number, held, rfl⟩
      cases stamped
      exact ⟨key, row, held, rfl⟩
  refine ⟨sound.delivered_le.trans sound.cursor_le, Nat.le_refl _, ?_, ?_, ?_, sound.checkpoint, ?_,
    ?_⟩
  · intro change member revision stamped
    rcases rows change member revision stamped with ⟨key, row, held, isInsert⟩
    exact ⟨(chronicle.consistent.bounded key row revision held).2, row, isInsert⟩
  · intro change member
    rcases List.mem_cons.mp member with rfl | member
    · trivial
    · rcases (mem_population chronicle.consistent).mp member with ⟨key, row, number, held, rfl⟩
      exact chronicle.genuine held
  · intro key row revision held _
    exact .inr (.tail _ ((mem_population chronicle.consistent).mpr ⟨key, row, revision, held, rfl⟩))
  · intro change member revision stamped within
    rcases rows change member revision stamped with ⟨key, row, held, rfl⟩
    exact sound.checkpoint key row revision held within
  · exact nodup_stamps_population chronicle.consistent

theorem Table.watch_sound (chronicle : Chronicle history table.published) (now : Nat) :
    (table.watch 0 now).1.Sound history table.published [] ∧
      ∀ revision, .resync revision ∉ (table.watch 0 now).1.pending := by
  have opened : (table.watch 0 now).1 =
      { id := table.nextSubscriber
        pending := table.published.population
        cursor := table.published.revision
        delivered := 0 } := by
    simp [Table.watch, ChangeStream.populate]
  have rows : ∀ change ∈ table.published.population, ∃ (key : Key) (row : Row) (revision : Nat),
      table.published.rows[key]? = some (row, revision) ∧ change = .insert row revision :=
    fun change member => (mem_population chronicle.consistent).mp member
  have later : ∀ (key : Key) row revision, table.published.rows[key]? = some (row, revision) →
      ¬revision ≤ 0 :=
    fun key row revision held =>
      Nat.not_le.mpr (chronicle.consistent.bounded key row revision held).1
  rw [opened]
  refine ⟨⟨Nat.zero_le _, Nat.le_refl _, ?_, ?_, ?_, ?_, ?_,
    nodup_stamps_population chronicle.consistent⟩, ?_⟩
  · intro change member revision stamped
    rcases rows change member with ⟨key, row, number, held, rfl⟩
    cases stamped
    exact ⟨(chronicle.consistent.bounded key row revision held).2, row, rfl⟩
  · intro change member
    rcases rows change member with ⟨key, row, number, held, rfl⟩
    exact chronicle.genuine held
  · intro key row revision held _
    exact .inr ((mem_population chronicle.consistent).mpr ⟨key, row, revision, held, rfl⟩)
  · intro key row revision held within
    exact absurd within (later key row revision held)
  · intro change member revision stamped within
    rcases rows change member with ⟨key, row, number, held, rfl⟩
    cases stamped
    exact absurd within (later key row revision held)
  · intro revision member
    rcases rows _ member with ⟨key, row, number, _, isInsert⟩
    cases isInsert

/-- A drain of a stream that was not marked goes on where the last one ended. -/
structure Resumed (before : ChangeStream Row) (changes : List (Change Row))
    (after : ChangeStream Row) : Prop where
  unmarked : ∀ revision, .resync revision ∉ changes
  passed : ∀ revision, before.Passed revision →
    after.Passed revision ∧ revision ∉ stamps changes

/-- A drain of a marked stream gives the rows there are. -/
structure Restarted (version : Version Row) (changes : List (Change Row))
    (after : ChangeStream Row) : Prop where
  marked : ∃ revision, .resync revision ∈ changes
  cursor : after.cursor = version.revision
  present : ∀ revision, revision ∈ stamps changes ∨ revision ∈ stamps after.pending →
    ∃ (key : Key) (row : Row), version.rows[key]? = some (row, revision)

theorem ChangeStream.deliver_restarted (stream : ChangeStream Row)
    (chronicle : Chronicle history version) (table : Table Row) (positive : max ≠ 0) :
    Restarted version ((stream.restart version).deliver table max).1
        ((stream.restart version).deliver table max).2 ∧
      ∀ revision, .resync revision ∉ ((stream.restart version).deliver table max).2.pending := by
  have marked : (stream.restart version).pending = .resync version.revision :: version.population :=
    rfl
  have split : (stream.restart version).deliver table max =
      ((stream.restart version).pending.take max,
        { stream.restart version with
          pending := (stream.restart version).pending.drop max
          delivered := if ((stream.restart version).pending.drop max).isEmpty
            then (stream.restart version).cursor else (stream.restart version).delivered }) := rfl
  have rows : ∀ revision ∈ stamps (stream.restart version).pending,
      ∃ (key : Key) (row : Row), version.rows[key]? = some (row, revision) := by
    intro revision member
    rcases mem_stamps.mp member with ⟨change, isChange, stamped⟩
    rcases List.mem_cons.mp isChange with rfl | isChange
    · cases stamped
    · rcases (mem_population chronicle.consistent).mp isChange with ⟨key, row, number, held, rfl⟩
      cases stamped
      exact ⟨key, row, held⟩
  rcases Nat.exists_eq_succ_of_ne_zero positive with ⟨count, rfl⟩
  rw [split]
  refine ⟨⟨⟨version.revision, ?_⟩, rfl, ?_⟩, ?_⟩
  · rw [marked]
    exact .head _
  · intro revision member
    apply rows
    rw [← List.take_append_drop (count + 1) (stream.restart version).pending, stamps_append]
    exact List.mem_append.mpr member
  · intro revision member
    rw [marked, List.drop_succ_cons] at member
    rcases (mem_population chronicle.consistent).mp (List.mem_of_mem_drop member) with
      ⟨key, row, number, _, isInsert⟩
    cases isInsert

omit [Keyed Row] in
@[simp] theorem Table.published_drain (max now : Nat) :
    (table.drain stream max now).2.2.published = table.published := by
  unfold Table.drain
  split <;> rfl

section Drain

variable (table) (sound : stream.Sound history table.published deliveries)
  (chronicle : Chronicle history table.published) (buried : table.streams.Buried history)

include sound chronicle buried

theorem ChangeStream.Sound.deliver_live
    (positive : max ≠ 0) (finished : stream.pending.isEmpty = true) :
    Delivery history table.published deliveries stream (stream.deliver table max).1
      (stream.deliver table max).2 := by
  have none := List.isEmpty_iff.mp finished
  generalize taken : (table.live stream.cursor).take max = changes
  generalize isNext :
    (changes.getLast?.map Change.revision).getD table.published.revision = next
  have split :
      stream.deliver table max = (changes, { stream with cursor := next, delivered := next }) := by
    simp [ChangeStream.deliver, finished, taken, isNext]
  rcases live_cursor chronicle buried positive sound.cursor_le taken.symm isNext.symm with
    ⟨further, within, behind, complete⟩
  have members : ∀ change ∈ changes, change ∈ table.live stream.cursor := by
    intro change member
    rw [← taken] at member
    exact List.mem_of_mem_take member
  have arrived : ∀ (key : Key) row revision, table.published.rows[key]? = some (row, revision) →
      revision ≤ next → .insert row revision ∈ deliveries ++ changes := by
    intro key row revision held notAfter
    by_cases before : revision ≤ stream.cursor
    · rcases sound.covered key row revision held before with member | member
      · exact List.mem_append_left _ member
      · rw [none] at member
        cases member
    · refine List.mem_append_right _ (complete _ ?_ notAfter)
      exact (mem_live chronicle.consistent).mpr (.inr ⟨key, row, revision, held, by omega, rfl⟩)
  rw [split]
  refine ⟨⟨Nat.le_refl _, within, ?_, ?_, fun key row revision held notAfter =>
      .inl (arrived key row revision held notAfter), arrived, ?_, ?_⟩, ?_, ?_, ?_, ?_,
    sound.delivered_le.trans further⟩
  · intro change member
    rw [none] at member
    cases member
  · intro change member
    rw [none] at member
    cases member
  · intro change member
    rw [none] at member
    cases member
  · exact sound.once
  · exact fun change member => (genuine_of_mem_live chronicle buried (members change member)).1
  · intro change member revision stamped old
    have after := (genuine_of_mem_live chronicle buried (members change member)).2.2
    have bound := sound.delivered_le
    rw [Change.revision_of_stamp stamped] at after
    omega
  · intro revision member
    rcases mem_stamps.mp member with ⟨change, isChange, stamped⟩
    refine ⟨?_, ?_⟩
    · rw [← Change.revision_of_stamp stamped]
      exact behind change isChange
    · dsimp only
      rw [none]
      exact List.not_mem_nil
  · rw [← taken]
    exact ((ascending_live chronicle buried stream.cursor).take max).nodup_stamps

theorem ChangeStream.Sound.deliver (positive : max ≠ 0) :
    Delivery history table.published deliveries stream (stream.deliver table max).1
      (stream.deliver table max).2 := by
  cases finished : stream.pending.isEmpty with
  | false => exact sound.deliver_population table max finished
  | true => exact sound.deliver_live table chronicle buried positive finished

theorem ChangeStream.deliver_resumed
    (positive : max ≠ 0) (unmarked : ∀ revision, .resync revision ∉ stream.pending) :
    Resumed stream (stream.deliver table max).1 (stream.deliver table max).2 := by
  unfold ChangeStream.deliver
  split
  · rename_i finished
    have members : ∀ change ∈ (table.live stream.cursor).take max,
        change.stamp = some change.revision ∧ stream.cursor < change.revision :=
      fun change member =>
        (genuine_of_mem_live chronicle buried (List.mem_of_mem_take member)).2
    have further := (live_cursor chronicle buried positive sound.cursor_le rfl rfl).1
    refine ⟨?_, ?_⟩
    · intro revision member
      cases (members _ member).1
    · rintro revision ⟨within, waits⟩
      refine ⟨⟨within.trans further, waits⟩, ?_⟩
      intro member
      rcases mem_stamps.mp member with ⟨change, isChange, stamped⟩
      have after := (members change isChange).2
      rw [Change.revision_of_stamp stamped] at after
      omega
  · refine ⟨fun revision member => unmarked revision (List.mem_of_mem_take member), ?_⟩
    rintro revision ⟨within, waits⟩
    refine ⟨⟨within, ?_⟩, ?_⟩
    · intro member
      rcases mem_stamps.mp member with ⟨change, isChange, stamped⟩
      exact waits (mem_stamps.mpr ⟨change, List.mem_of_mem_drop isChange, stamped⟩)
    · intro member
      rcases mem_stamps.mp member with ⟨change, isChange, stamped⟩
      exact waits (mem_stamps.mpr ⟨change, List.mem_of_mem_take isChange, stamped⟩)

variable {table} (max now : Nat)

theorem Table.drain_delivery :
    Delivery history table.published deliveries stream (table.drain stream max now).1
      (table.drain stream max now).2.1 := by
  unfold Table.drain
  split
  · refine ⟨?_, ?_, ?_, ?_, List.nodup_nil, Nat.le_refl _⟩
    · rw [List.append_nil]
      exact sound
    · exact List.forall_mem_nil _
    · exact List.forall_mem_nil _
    · exact List.forall_mem_nil _
  · rename_i positive
    have maintained : (table.attend stream.id now).2.streams.Buried history :=
      StreamState.Buried.maintain buried _ _
    dsimp only
    split
    · have delivery := ChangeStream.Sound.deliver (table.attend stream.id now).2
        (sound.restart chronicle) chronicle maintained positive
      exact ⟨delivery.sound, delivery.genuine, delivery.repeated, delivery.passed, delivery.once,
        delivery.delivered_le⟩
    · exact ChangeStream.Sound.deliver (table.attend stream.id now).2 sound chronicle maintained
        positive

theorem Table.drain_cases (unmarked : ∀ revision, .resync revision ∉ stream.pending) :
    (∀ revision, .resync revision ∉ (table.drain stream max now).2.1.pending) ∧
      (Resumed stream (table.drain stream max now).1 (table.drain stream max now).2.1 ∨
        max ≠ 0 ∧ (table.attend stream.id now).1 = true ∧
          Restarted table.published (table.drain stream max now).1
            (table.drain stream max now).2.1) := by
  unfold Table.drain
  split
  · exact ⟨unmarked, .inl ⟨fun _ => List.not_mem_nil, fun _ passed => ⟨passed, List.not_mem_nil⟩⟩⟩
  · rename_i positive
    have maintained : (table.attend stream.id now).2.streams.Buried history :=
      StreamState.Buried.maintain buried _ _
    dsimp only
    split
    · rename_i marked
      have restarted := ChangeStream.deliver_restarted stream chronicle
        (table.attend stream.id now).2 positive
      exact ⟨restarted.2, .inr ⟨positive, marked, restarted.1⟩⟩
    · refine ⟨?_, .inl (ChangeStream.deliver_resumed (table.attend stream.id now).2 sound chronicle
        maintained positive unmarked)⟩
      intro revision member
      unfold ChangeStream.deliver at member
      split at member
      · exact unmarked revision member
      · exact unmarked revision (List.mem_of_mem_drop member)

end Drain

end Sound

end Deliveries

end FlowSdn.Tables
