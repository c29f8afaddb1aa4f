import FlowSdn.Tables.Chronicle

/-! # Retained tombstones

A subscriber that would hold back more tombstones than the limit is marked, and is then not waited
for.
-/

namespace FlowSdn.Tables

open OrderedMap

namespace StreamState

variable {state : StreamState} {revision : Nat} {key : Key}

theorem mem_backlog {cursor : Nat} :
    (revision, key) ∈ state.backlog cursor ↔
      state.tombstones[revision]? = some key ∧ cursor < revision := by
  simp only [backlog, List.mem_filter, Std.ExtTreeMap.mem_toList_iff_getElem?_eq_some,
    decide_eq_true_eq]

theorem tombstones_discards {discarded : List (Nat × Key)}
    (held : (discarded.foldl discard state).tombstones[revision]? = some key) :
    state.tombstones[revision]? = some key ∧ (revision, key) ∉ discarded := by
  induction discarded generalizing state with
  | nil => exact ⟨held, List.not_mem_nil⟩
  | cons tombstone discarded induction =>
      rcases induction held with ⟨kept, later⟩
      refine ⟨tombstones_of_erase kept, ?_⟩
      rintro (_ | member)
      · simp [discard] at kept
      · exact later (by assumption)

/-- The tombstones are discarded in their order, so that none up to the revision is missed. -/
theorem mem_takeWhile_of_le {low : Nat} {tombstones : List (Nat × Key)}
    (ordered : tombstones.Pairwise fun left right => left.1 < right.1)
    (member : (revision, key) ∈ tombstones) (old : revision ≤ low) :
    (revision, key) ∈ tombstones.takeWhile fun tombstone => tombstone.1 ≤ low := by
  induction tombstones with
  | nil => cases member
  | cons head tombstones induction =>
      rcases List.pairwise_cons.mp ordered with ⟨before, ordered⟩
      rcases List.mem_cons.mp member with rfl | member
      · simp [old]
      · have oldHead : head.1 ≤ low := (before _ member).le.trans old
        simp [oldHead, induction ordered member]

theorem size_collectThrough_le (low : Nat) :
    (state.collectThrough low).tombstones.size ≤ (state.backlog low).length := by
  have ordered : state.tombstones.toList.Pairwise fun left right => left.1 < right.1 :=
    Std.ExtTreeMap.ordered_keys_toList.imp Nat.compare_eq_lt.mp
  have distinct : (state.collectThrough low).tombstones.toList.Nodup :=
    Std.ExtTreeMap.distinct_keys_toList.imp fun different same => different (by simp [same])
  rw [← Std.ExtTreeMap.length_toList]
  refine distinct.length_le_of_subset ?_
  rintro ⟨revision, key⟩ member
  have ⟨held, kept⟩ :=
    tombstones_discards (Std.ExtTreeMap.mem_toList_iff_getElem?_eq_some.mp member)
  refine mem_backlog.mpr ⟨held, Nat.lt_of_not_le fun old => kept ?_⟩
  exact mem_takeWhile_of_le ordered (Std.ExtTreeMap.mem_toList_iff_getElem?_eq_some.mpr held) old

theorem lowest_cases (subscribers : List (Nat × Progress)) (revision : Nat) :
    lowest subscribers revision = revision ∨
      ∃ subscriber ∈ subscribers, lowest subscribers revision = subscriber.2.acked := by
  unfold lowest
  induction subscribers generalizing revision with
  | nil => exact .inl rfl
  | cons subscriber subscribers induction =>
      rcases induction (min revision subscriber.2.acked) with same | ⟨other, member, same⟩
      · rw [List.foldl_cons, same]
        rcases min_choice revision subscriber.2.acked with isMin | isMin
        · exact .inl isMin
        · exact .inr ⟨subscriber, List.mem_cons_self, isMin⟩
      · exact .inr ⟨other, List.mem_cons_of_mem _ member, same⟩

section Maintain

variable (known : ∀ (written : Nat) key, state.tombstones[written]? = some key → written ≤ revision)

include known

theorem backlog_eq_nil {cursor : Nat} (caughtUp : revision ≤ cursor) :
    state.backlog cursor = [] := by
  refine List.eq_nil_iff_forall_not_mem.mpr fun tombstone member => ?_
  have ⟨held, later⟩ := mem_backlog.mp member
  exact absurd (known _ _ held) (by omega)

theorem length_backlog_visit_le (now : Nat) (progress : Progress) :
    (state.backlog (state.visit revision now progress).acked).length ≤
      state.options.tombstoneMaxCount := by
  unfold visit
  split
  · rw [backlog_eq_nil known le_rfl]
    exact Nat.zero_le _
  · rename_i unmarked
    by_cases behind : progress.acked < revision
    · refine Nat.le_of_not_lt fun many => unmarked ⟨behind, .inl ?_⟩
      exact (overCount_iff _).mpr many
    · rw [backlog_eq_nil known (Nat.le_of_not_lt behind)]
      exact Nat.zero_le _

theorem size_maintain_le (now : Nat) :
    (state.maintain revision now).tombstones.size ≤ state.options.tombstoneMaxCount := by
  unfold maintain
  dsimp only
  split
  · rename_i within
    exact within.2
  · refine (size_collectThrough_le _).trans ?_
    rcases lowest_cases (state.subscribers.map fun subscriber =>
      (subscriber.1, state.visit revision now subscriber.2)) revision with same | ⟨_, member, same⟩
    · rw [same]
      exact (congrArg List.length (backlog_eq_nil known le_rfl)).trans_le (Nat.zero_le _)
    · rcases List.mem_map.mp member with ⟨subscriber, _, rfl⟩
      rw [same]
      exact length_backlog_visit_le known now subscriber.2

end Maintain

end StreamState

section Bounded

variable {Row : Type} [Keyed Row] {history : List Mutation} {watched : Watched Row}

section

variable (chronicle : Chronicle history watched.table.published)
  (buried : watched.table.streams.Buried history)
  (bounded : watched.table.streams.tombstones.size ≤
    watched.table.streams.options.tombstoneMaxCount)

include chronicle buried bounded

theorem size_perform_le (now : Nat) (call : Call Row) :
    (watched.perform (now, call)).table.streams.tombstones.size ≤
      watched.table.streams.options.tombstoneMaxCount := by
  have known : ∀ (revision : Nat) key, watched.table.streams.tombstones[revision]? = some key →
      revision ≤ watched.table.published.revision :=
    fun revision key held => chronicle.bounded _ (buried revision key held)
  cases call with
  | batch actions =>
      have later := chronicle.steps (watched.table.write_steps actions)
      have recorded := (buried.append (watched.table.write actions).mutations).records
        fun _ member => List.mem_append_right _ member
      show (watched.table.batch actions now).streams.tombstones.size ≤ _
      unfold Table.batch
      dsimp only
      split
      · rw [← StreamState.options_foldl_record]
        exact StreamState.size_maintain_le
          (fun revision key held => later.bounded _ (recorded revision key held)) now
      · exact bounded
  | watch fromRevision => exact bounded
  | drain index max =>
      unfold Watched.perform Table.drain
      dsimp only
      split
      · exact bounded
      · split
        · exact bounded
        · exact StreamState.size_maintain_le known now
  | _ =>
      unfold Watched.perform
      dsimp only
      split
      · exact bounded
      · refine StreamState.size_maintain_le ?_ now
        exact known

theorem bounded_performAll (calls : List (Nat × Call Row)) :
    (watched.performAll calls).table.streams.tombstones.size ≤
      watched.table.streams.options.tombstoneMaxCount := by
  induction calls generalizing watched history with
  | nil => exact bounded
  | cons timed calls induction =>
      have next := size_perform_le chronicle buried bounded timed.1 timed.2
      rw [← watched.options_perform timed] at next ⊢
      exact induction (chronicle.steps (watched.perform_steps timed.1 timed.2))
        (watched.perform_buried buried timed.1 timed.2) next

end

/-- After any calls, no more tombstones are retained than the options allow. -/
theorem tombstones_bounded (indexes : List (Index Row)) (options : StreamOptions) (start : Nat)
    (calls : List (Nat × Call Row)) :
    (tableAfter indexes options start calls).streams.tombstones.size ≤
      options.tombstoneMaxCount :=
  bounded_performAll (chronicle_empty _) (fun _ _ held => by simp [Watched.start] at held)
    (Nat.zero_le _) calls

end Bounded

end FlowSdn.Tables
