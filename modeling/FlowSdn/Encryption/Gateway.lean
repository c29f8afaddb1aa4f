import FlowSdn.Foundation.Buffer
import FlowSdn.Foundation.Checked
import Mathlib.Data.List.Sort

/-! # Choosing an egress gateway

A flow key picks one of the resolved gateways: by its hash modulo their number, or the one with
the greatest score for the key. Addresses are ordered as numbers.
-/

namespace FlowSdn.Encryption.Gateway

open Buffer Words Checked

inductive Selection
  | modulo
  | rendezvous
  deriving DecidableEq

def fnv1a32 (bytes : Bytes) : U32 :=
  bytes.foldl (fun hash byte => (hash ^^^ byte.setWidth 32) * 0x01000193) 0x811c9dc5

def score (uid : Bytes) (gateway : U32) : U64 :=
  (uid ++ wordBytes gateway).foldl
    (fun hash byte => (hash ^^^ byte.setWidth 64) * 0x100000001b3) 0xcbf29ce484222325

def sort (gateways : List U32) : List U32 := gateways.insertionSort (· ≤ ·)

/-- A later gateway wins only with a greater score. -/
def contend (uid : Bytes) (winner : Option (U64 × U32)) (gateway : U32) : Option (U64 × U32) :=
  let candidate := score uid gateway
  if winner.all fun best => best.1 < candidate then some (candidate, gateway) else winner

def choose (uid : Bytes) (gateways : List U32) (selection : Selection) :
    Except String (Option U32) :=
  if gateways = [] then .ok none
  else
    let gateways := sort gateways
    match selection with
    | .modulo =>
        if 2 ^ 32 ≤ gateways.length then .error "too many gateways"
        else if gateways.length = 0 then .error "empty gateways"
        else .ok gateways[(fnv1a32 uid).toNat % gateways.length]?
    | .rendezvous => .ok ((gateways.foldl (contend uid) none).map (·.2))

theorem sort_eq_of_perm {left right : List U32} (perm : left.Perm right) :
    sort left = sort right := by
  have ordered : ∀ gateways, (sort gateways).Pairwise (· ≤ ·) :=
    fun _ => List.pairwise_insertionSort ..
  apply List.Perm.eq_of_pairwise _ (ordered left) (ordered right)
  · exact ((List.perm_insertionSort ..).trans perm).trans (List.perm_insertionSort ..).symm
  · intro first second _ _ below above
    exact BitVec.le_antisymm below above

theorem choose_eq_of_perm {left right : List U32} (uid : Bytes) (selection : Selection)
    (perm : left.Perm right) : choose uid left selection = choose uid right selection := by
  have empty : left = [] ↔ right = [] := by
    rw [← List.length_eq_zero_iff, perm.length_eq, List.length_eq_zero_iff]
  simp only [choose, empty, sort_eq_of_perm perm]

/-! ## The winner -/

/-- A greater score wins, and of equal scores the smaller address. -/
def Wins (uid : Bytes) (winner gateway : U32) : Prop :=
  score uid gateway < score uid winner ∨ score uid gateway = score uid winner ∧ winner ≤ gateway

variable {first second : U32} {uid : Bytes} {gateways : List U32}

theorem Wins.trans {third : U32} (left : Wins uid first second)
    (right : Wins uid second third) : Wins uid first third := by
  unfold Wins at *
  bv_omega

theorem Wins.antisymm (left : Wins uid first second)
    (right : Wins uid second first) : first = second := by
  unfold Wins at *
  bv_omega

structure IsWinner (uid : Bytes) (gateways : List U32) (winner : U32) : Prop where
  member : winner ∈ gateways
  wins : ∀ gateway ∈ gateways, Wins uid winner gateway

theorem IsWinner.unique
    (left : IsWinner uid gateways first) (right : IsWinner uid gateways second) :
    first = second :=
  (left.wins second right.member).antisymm (right.wins first left.member)

/-- The scan of an ordered list, from a best gateway that is below the rest. -/
theorem exists_winner_scan (uid : Bytes) (best : U32) (gateways : List U32)
    (ordered : (best :: gateways).Pairwise (· ≤ ·)) :
    ∃ winner, gateways.foldl (contend uid) (some (score uid best, best)) =
        some (score uid winner, winner) ∧ IsWinner uid (best :: gateways) winner := by
  induction gateways generalizing best with
  | nil => exact ⟨best, rfl, List.mem_cons_self .., by simp [Wins]⟩
  | cons gateway gateways induction =>
      rcases List.pairwise_cons.mp ordered with ⟨below, rest⟩
      rw [List.foldl_cons]
      by_cases greater : score uid best < score uid gateway
      · have replaced : contend uid (some (score uid best, best)) gateway =
            some (score uid gateway, gateway) := by
          simp [contend, greater]
        rcases induction gateway rest with ⟨winner, scanned, found⟩
        have overtaken : Wins uid winner best :=
          (found.wins gateway (List.mem_cons_self ..)).trans (.inl greater)
        rw [replaced]
        exact ⟨winner, scanned, List.mem_cons_of_mem _ found.member,
          List.forall_mem_cons.mpr ⟨overtaken, found.wins⟩⟩
      · have kept : contend uid (some (score uid best, best)) gateway =
            some (score uid best, best) := by
          simp [contend, greater]
        have skipped : (best :: gateways).Pairwise (· ≤ ·) :=
          List.pairwise_cons.mpr ⟨fun other member => below other (List.mem_cons_of_mem _ member),
            (List.pairwise_cons.mp rest).2⟩
        rcases induction best skipped with ⟨winner, scanned, found⟩
        have beaten : Wins uid best gateway := by
          have order : best ≤ gateway := below gateway (List.mem_cons_self ..)
          unfold Wins
          bv_omega
        rcases List.forall_mem_cons.mp found.wins with ⟨first, others⟩
        rw [kept]
        refine ⟨winner, scanned, ?_, ?_⟩
        · exact (List.Sublist.cons_cons best (List.sublist_cons_self ..)).subset found.member
        · exact List.forall_mem_cons.mpr ⟨first, List.forall_mem_cons.mpr
            ⟨first.trans beaten, others⟩⟩

theorem choose_rendezvous (uid : Bytes) (filled : gateways ≠ []) :
    ∃ winner, choose uid gateways .rendezvous = .ok (some winner) ∧
      IsWinner uid gateways winner := by
  have perm : (sort gateways).Perm gateways := List.perm_insertionSort ..
  have ordered : (sort gateways).Pairwise (· ≤ ·) := List.pairwise_insertionSort ..
  cases shape : sort gateways with
  | nil => exact absurd (List.nil_perm.mp (shape ▸ perm)) filled
  | cons best rest =>
      rw [shape] at perm ordered
      rcases exists_winner_scan uid best rest ordered with ⟨winner, scanned, found⟩
      refine ⟨winner, ?_, perm.subset found.member, fun gateway member =>
        found.wins gateway (perm.mem_iff.mpr member)⟩
      simp [choose, filled, shape, contend, scanned]

theorem choose_eq_of_isWinner {winner : U32} (found : IsWinner uid gateways winner) :
    choose uid gateways .rendezvous = .ok (some winner) := by
  rcases choose_rendezvous uid (List.ne_nil_of_mem found.member) with ⟨chosen, equal, other⟩
  rw [equal, found.unique other]

/-- The order of the gateways does not matter; one that is added is chosen or changes nothing,
and one that is removed changes nothing unless it was chosen. -/
theorem choose_stable (uid : Bytes) (gateways : List U32) :
    (∀ selection, ∀ reordered : List U32, reordered.Perm gateways →
      choose uid reordered selection = choose uid gateways selection) ∧
    (∀ added, choose uid (added :: gateways) .rendezvous = .ok (some added) ∨
      choose uid (added :: gateways) .rendezvous = choose uid gateways .rendezvous) ∧
    ∀ removed, choose uid gateways .rendezvous ≠ .ok (some removed) →
      choose uid (gateways.erase removed) .rendezvous = choose uid gateways .rendezvous := by
  refine ⟨fun selection _ perm => choose_eq_of_perm uid selection perm, fun added => ?_,
    fun removed other => ?_⟩
  · rcases choose_rendezvous uid (List.cons_ne_nil added gateways) with ⟨winner, chosen, found⟩
    rcases List.mem_cons.mp found.member with rfl | member
    · exact .inl chosen
    · have winning := List.forall_mem_cons.mp found.wins
      exact .inr (chosen.trans (choose_eq_of_isWinner ⟨member, winning.2⟩).symm)
  · by_cases filled : gateways = []
    · rw [filled, List.erase_nil]
    · rcases choose_rendezvous uid filled with ⟨winner, chosen, found⟩
      have different : winner ≠ removed := fun same => other (same ▸ chosen)
      rw [chosen]
      exact choose_eq_of_isWinner ⟨(List.mem_erase_of_ne different).mpr found.member,
        fun gateway member => found.wins gateway (List.mem_of_mem_erase member)⟩

theorem choose_stable_two : choose [] [1, 2] .rendezvous ≠ .ok (some 2) ∧
    choose [] ([1, 2].erase 2) .rendezvous = choose [] [1, 2] .rendezvous := by
  have other : choose [] [1, 2] .rendezvous ≠ .ok (some 2) := by decide
  exact ⟨other, (choose_stable [] [1, 2]).2.2 2 other⟩

end FlowSdn.Encryption.Gateway
