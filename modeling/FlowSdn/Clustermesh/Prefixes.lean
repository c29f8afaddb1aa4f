import FlowSdn.Clustermesh.Ownership
import FlowSdn.Foundation.PrefixRange

/-! # Which ranges of keys a role may read

A grant is one key or the keys with a common start; a request is permitted when one grant
holds its whole range.
-/

namespace FlowSdn.Clustermesh

open PrefixRange
open Text (asBytes)

def checkedSucc (byte : UInt8) : Option UInt8 := if byte = 255 then none else some (byte + 1)

structure ReadRange where
  start : Bytes
  finish : Option Bytes
  deriving DecidableEq

namespace ReadRange

def exact (key : Bytes) : ReadRange := ⟨key, none⟩

def ofStart (start : Bytes) : Except String ReadRange :=
  if start = [] then .error "empty prefix would authorize every key"
  else
    match bump checkedSucc start.reverse with
    | some finish => .ok ⟨start, some finish⟩
    | none => .error "unbounded prefix unsupported"

/-- Whether the range holds a request whose ends are in order. -/
def spans (range : ReadRange) (start : Bytes) (finish : Option Bytes) : Bool :=
  match range.finish, finish with
  | none, none => start = range.start
  | some bound, none => range.start ≤ start && start < bound
  | some bound, some finish => range.start ≤ start && finish ≤ bound
  | none, some _ => false

def permits (range : ReadRange) (start : Bytes) (finish : Option Bytes) : Bool :=
  if start = [] || start = [0] || finish.any fun finish => finish = [0] || finish ≤ start then false
  else range.spans start finish

end ReadRange

inductive Role
  | ofLocal
  | remote
  deriving DecidableEq

inductive Rpc
  | range
  | watch
  | put
  | delete
  | txn
  | lease
  | auth
  | other
  deriving DecidableEq

structure FrontPolicy where
  grants : List ReadRange
  deriving DecidableEq

namespace FrontPolicy

/-- The grants of a role; `ownCluster` is this server's cluster. -/
def forRole (role : Role) (ownCluster : String) : Except String FrontPolicy := do
  validateCluster ownCluster
  let heartbeat ← ReadRange.ofStart (asBytes "cilium/.heartbeat")
  match role with
  | .ofLocal =>
      let others ← ["cilium/cache/", "cilium/cluster-config/", "cilium/synced/"].mapM fun text =>
        ReadRange.ofStart (asBytes text)
      return ⟨heartbeat :: others⟩
  | .remote =>
      let state ← ReadRange.ofStart (asBytes "cilium/state/")
      let synced ← ReadRange.ofStart (asBytes ("cilium/synced/" ++ ownCluster ++ "/"))
      return ⟨[heartbeat, state,
        ReadRange.exact (asBytes ("cilium/cluster-config/" ++ ownCluster)), synced]⟩

def permits (policy : FrontPolicy) (rpc : Rpc) (start : Bytes) (finish : Option Bytes) : Bool :=
  (rpc = .range || rpc = .watch) && policy.grants.any (·.permits start finish)

end FrontPolicy

/-- The keys of a range as the store reads it: one key without an end, every key from the
start with the end of a single zero byte, and the keys before the end otherwise. -/
def Denotes (start : Bytes) (finish : Option Bytes) (key : Bytes) : Prop :=
  match finish with
  | none => key = start
  | some [] => key = start
  | some [0] => start ≤ key
  | some finish => start ≤ key ∧ key < finish

def KeySpace (ownCluster : String) : Role → Bytes → Prop
  | .ofLocal, key =>
      ∃ text ∈ ["cilium/.heartbeat", "cilium/cache/", "cilium/cluster-config/", "cilium/synced/"],
        asBytes text <+: key
  | .remote, key =>
      (∃ text ∈ ["cilium/.heartbeat", "cilium/state/", "cilium/synced/" ++ ownCluster ++ "/"],
        asBytes text <+: key) ∨ key = asBytes ("cilium/cluster-config/" ++ ownCluster)

def ReadRange.Holds (range : ReadRange) (key : Bytes) : Prop :=
  match range.finish with
  | none => key = range.start
  | some bound => range.start ≤ key ∧ key < bound

theorem isNext_checkedSucc : IsNext checkedSucc := by
  constructor
  · intro letter grown grows other
    unfold checkedSucc at grows
    split at grows
    · cases grows
    · rename_i notLast
      cases grows
      have small : letter.toNat < 255 := by
        have bound := letter.toNat_lt
        have different : letter.toNat ≠ 255 := fun same => notLast (UInt8.toNat_inj.mp same)
        omega
      have plus : (letter + 1).toNat = letter.toNat + 1 := by
        rw [UInt8.toNat_add]
        exact Nat.mod_eq_of_lt (by simp; omega)
      rw [UInt8.lt_iff_toNat_lt, UInt8.le_iff_toNat_le, plus]
      omega
  · intro letter none other
    unfold checkedSucc at none
    split at none
    · rename_i last
      subst last
      have bound := other.toNat_lt
      rw [UInt8.le_iff_toNat_le]
      exact Nat.le_of_lt_succ bound
    · cases none

/-! ## Grants -/

theorem asBytes_append (first second : String) :
    asBytes (first ++ second) = asBytes first ++ asBytes second := by
  unfold asBytes
  rw [String.toList_append, List.flatMap_append]

theorem exists_ofStart {start : Bytes} {last : UInt8} (ends : start.getLast? = some last)
    (grows : last ≠ 255) :
    ∃ range, ReadRange.ofStart start = .ok range ∧ ∀ key, range.Holds key ↔ start <+: key := by
  have backwards : start.reverse = last :: start.reverse.tail := by
    rw [List.getLast?_eq_head?_reverse] at ends
    exact List.eq_cons_of_mem_head? ends
  have nonempty : start ≠ [] := by
    intro empty
    subst empty
    cases ends
  have bumped : bump checkedSucc start.reverse =
      some (start.reverse.tail.reverse ++ [last + 1]) := by
    rw [backwards, bump, checkedSucc, if_neg grows]
    rfl
  refine ⟨⟨start, some (start.reverse.tail.reverse ++ [last + 1])⟩, ?_, fun key => ?_⟩
  · rw [ReadRange.ofStart, if_neg nonempty, bumped]
  · have interval := between_bump isNext_checkedSucc bumped key
    rw [List.reverse_reverse] at interval
    exact interval

namespace ReadRange

variable {range : ReadRange} {start : Bytes} {finish : Option Bytes}

/-- The ends of a request that is not refused at once. -/
def Ordinary (start : Bytes) (finish : Option Bytes) : Prop :=
  start ≠ [] ∧ start ≠ [0] ∧ ∀ last, finish = some last → last ≠ [0] ∧ start < last

theorem permits_eq (ordinary : Ordinary start finish) :
    range.permits start finish = range.spans start finish := by
  unfold permits
  rcases ordinary with ⟨nonempty, notZero, bounded⟩
  rw [if_neg]
  simp only [nonempty, notZero, decide_false, Bool.false_or, Option.any_eq_true, not_exists,
    not_and]
  intro last isLast
  rcases bounded last isLast with ⟨notAll, later⟩
  simp [notAll, later]

theorem ordinary_of_permits (permitted : range.permits start finish) : Ordinary start finish := by
  unfold permits at permitted
  split at permitted
  · cases permitted
  · rename_i passes
    simp only [Bool.or_eq_true, decide_eq_true_eq, Option.any_eq_true, not_or, not_exists,
      not_and] at passes
    rcases passes with ⟨⟨nonempty, notZero⟩, bounded⟩
    refine ⟨nonempty, notZero, fun last isLast => ?_⟩
    rcases bounded last isLast with ⟨notAll, later⟩
    exact ⟨notAll, List.not_le.mp later⟩

/-- A permitted range denotes only keys of the grant. -/
theorem holds_of_permits (permitted : range.permits start finish) {key : Bytes}
    (denoted : Denotes start finish key) : range.Holds key := by
  have ordinary := ordinary_of_permits permitted
  rw [permits_eq ordinary] at permitted
  unfold spans at permitted
  unfold Holds
  cases bounds : range.finish with
  | none =>
      cases finish with
      | none =>
          rw [bounds] at permitted
          exact denoted.trans (of_decide_eq_true permitted)
      | some last =>
          rw [bounds] at permitted
          cases permitted
  | some bound =>
      cases finish with
      | none =>
          rw [bounds, Bool.and_eq_true, decide_eq_true_eq, decide_eq_true_eq] at permitted
          have same : key = start := denoted
          rw [same]
          exact permitted
      | some last =>
          rw [bounds, Bool.and_eq_true, decide_eq_true_eq, decide_eq_true_eq] at permitted
          rcases ordinary.2.2 last rfl with ⟨notAll, later⟩
          have inside : start ≤ key ∧ key < last := by
            unfold Denotes at denoted
            split at denoted
            · rename_i absent
              cases absent
            · rename_i empty
              cases empty
              exact absurd later (List.not_lt_nil start)
            · rename_i all
              cases all
              exact absurd rfl notAll
            · rename_i other
              cases other
              exact denoted
          refine ⟨List.le_trans permitted.1 inside.1, List.not_le.mp fun beyond => ?_⟩
          exact List.not_le.mpr inside.2 (List.le_trans permitted.2 beyond)

theorem permits_key (nonempty : start ≠ []) (notZero : start ≠ [0]) :
    range.permits start none ↔ range.Holds start := by
  rw [permits_eq ⟨nonempty, notZero, by simp⟩]
  unfold Holds spans
  cases range.finish with
  | none => exact decide_eq_true_iff
  | some bound => rw [Bool.and_eq_true, decide_eq_true_eq, decide_eq_true_eq]

end ReadRange

/-! ## Roles -/

theorem getLast?_asBytes_slash (text : String) : (asBytes (text ++ "/")).getLast? = some 47 := by
  have slash : asBytes "/" = [47] := by decide
  rw [asBytes_append, slash, List.getLast?_append]
  rfl

theorem exists_forRole {ownCluster : String} (valid : validateCluster ownCluster = .ok ())
    (role : Role) :
    ∃ policy, FrontPolicy.forRole role ownCluster = .ok policy ∧
      ∀ key, (∃ grant ∈ policy.grants, grant.Holds key) ↔ KeySpace ownCluster role key := by
  have literal : ∀ text ∈ ["cilium/.heartbeat", "cilium/cache/", "cilium/cluster-config/",
      "cilium/synced/", "cilium/state/"], (asBytes text).getLast?.any (· ≠ 255) := by decide
  have granted : ∀ text ∈ ["cilium/.heartbeat", "cilium/cache/", "cilium/cluster-config/",
      "cilium/synced/", "cilium/state/"], ∃ range, ReadRange.ofStart (asBytes text) = .ok range ∧
        ∀ key, range.Holds key ↔ asBytes text <+: key := by
    intro text member
    have found := literal text member
    rw [Option.any_eq_true] at found
    rcases found with ⟨last, ends, grows⟩
    exact exists_ofStart ends (of_decide_eq_true grows)
  rcases granted "cilium/.heartbeat" (by simp) with ⟨heartbeat, isHeartbeat, beats⟩
  unfold FrontPolicy.forRole
  cases role with
  | ofLocal =>
      rcases granted "cilium/cache/" (by simp) with ⟨cache, isCache, caches⟩
      rcases granted "cilium/cluster-config/" (by simp) with ⟨config, isConfig, configures⟩
      rcases granted "cilium/synced/" (by simp) with ⟨synced, isSynced, syncs⟩
      refine ⟨⟨[heartbeat, cache, config, synced]⟩, ?_, fun key => ?_⟩
      · simp only [valid, isHeartbeat, List.mapM_cons, List.mapM_nil, isCache, isConfig, isSynced]
        rfl
      · simp [KeySpace, beats, caches, configures, syncs]
  | remote =>
      rcases granted "cilium/state/" (by simp) with ⟨state, isState, states⟩
      rcases exists_ofStart (getLast?_asBytes_slash ("cilium/synced/" ++ ownCluster)) (by decide)
        with ⟨synced, isSynced, syncs⟩
      refine ⟨⟨[heartbeat, state,
        ReadRange.exact (asBytes ("cilium/cluster-config/" ++ ownCluster)), synced]⟩, ?_,
        fun key => ?_⟩
      · simp only [valid, isHeartbeat, isState, isSynced]
        rfl
      · have single : (ReadRange.exact (asBytes ("cilium/cluster-config/" ++ ownCluster))).Holds
            key ↔ key = asBytes ("cilium/cluster-config/" ++ ownCluster) := Iff.rfl
        simp only [KeySpace, List.mem_cons, List.not_mem_nil, or_false, exists_eq_or_imp,
          exists_eq_left, beats, states, syncs, single]
        rw [or_assoc, or_assoc, or_comm (a := key = _)]

theorem ne_of_keySpace {ownCluster : String} {role : Role} {key : Bytes}
    (inside : KeySpace ownCluster role key) : key ≠ [] ∧ key ≠ [0] := by
  have headed : ∀ text rest, (asBytes text).head? = some 99 →
      asBytes (text ++ rest) <+: key → key.head? = some 99 := by
    intro text rest starts leading
    rcases leading with ⟨more, rfl⟩
    rw [asBytes_append, List.append_assoc, List.head?_append, starts]
    rfl
  have starts : ∀ text ∈ ["cilium/.heartbeat", "cilium/cache/", "cilium/cluster-config/",
      "cilium/synced/", "cilium/state/"], (asBytes text).head? = some 99 := by decide
  have letter : key.head? = some 99 := by
    cases role with
    | ofLocal =>
        rcases inside with ⟨text, member, leading⟩
        refine headed text "" (starts text ?_) ?_
        · exact List.mem_append_left ["cilium/state/"] member
        · rw [String.append_empty]
          exact leading
    | remote =>
        rcases inside with ⟨text, member, leading⟩ | same
        · simp only [List.mem_cons, List.not_mem_nil, or_false] at member
          rcases member with rfl | rfl | rfl
          · exact headed "cilium/.heartbeat" "" (starts _ (by simp)) leading
          · exact headed "cilium/state/" "" (starts _ (by simp)) leading
          · rw [String.append_assoc] at leading
            exact headed "cilium/synced/" _ (starts _ (by simp)) leading
        · exact headed "cilium/cluster-config/" ownCluster (starts _ (by simp))
            (same ▸ List.prefix_refl _)
  constructor
  · intro empty
    rw [empty] at letter
    cases letter
  · intro zero
    rw [zero] at letter
    cases letter

end FlowSdn.Clustermesh
