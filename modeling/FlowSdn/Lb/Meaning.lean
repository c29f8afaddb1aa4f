import FlowSdn.Foundation.Outcome
import FlowSdn.Lb.Rounds

/-! # What a plan means

A complete plan makes a lookup reach the backends that the services ask for, whatever state a
run has left the maps in.
-/

namespace FlowSdn.Lb

open Abi Net OrderedMap Checked

/-- A master counts the chosen backends, and the slots after it hold them in order. -/
def Serves (maps : Maps) (service : Service) : Prop :=
  (∃ master, maps.service service.front 0#16 = some master ∧
    master.count.toNat = service.chosen.size) ∧
  ∀ index address, service.chosen.toList[index]? = some address →
    ∃ entry, maps.service service.front (BitVec.ofNat 16 (index + 1)) = some entry ∧
      maps.backend address.ip.isIpv4 entry.backendId = some address

section Serves

variable {current : Maps} {services : List Service} {draft next : Draft} {service : Service}
  {id : U16} {master : LbService} {filling : Filling}

theorem Planned.serves (planned : Planned current draft service next id master filling) :
    Serves next.maps service := by
  refine ⟨⟨master, planned.master_here, planned.count⟩, fun index address listed => ?_⟩
  rcases planned.known listed with ⟨_, backend, _, held, isSlot⟩
  exact ⟨_, isSlot, held⟩

theorem Serves.planned {other : Service} (serves : Serves draft.maps other)
    (laid : Laid services draft) (planned : Planned current draft service next id master filling) :
    Serves next.maps other := by
  rcases serves with ⟨⟨old, held, counted⟩, slots⟩
  have different : other.front ≠ service.front := by
    intro same
    exact planned.free (same ▸ laid.owner _ _ _ held)
  refine ⟨⟨old, (planned.other _ _ different).trans held, counted⟩, fun index address listed => ?_⟩
  rcases slots index address listed with ⟨entry, isEntry, present⟩
  exact ⟨entry, (planned.other _ _ different).trans isEntry,
    (planned.extends laid).backends _ _ _ present⟩

theorem serves_run (distinct : current.Distinct) (valid : draft.Valid current)
    (laid : Laid services draft) (served : ∀ other ∈ services, Serves draft.maps other)
    {rest : List Service}
    (planned : rest.foldlM (planService (recoverServices current)) draft = .ok next) :
    ∀ other ∈ services ++ rest, Serves next.maps other := by
  induction rest generalizing draft services with
  | nil =>
      cases planned
      rw [List.append_nil]
      exact served
  | cons service rest induction =>
      rcases foldlM_cons_eq_ok.mp planned with ⟨middle, first, others⟩
      rcases exists_planned distinct valid laid first with ⟨id, master, filling, one⟩
      have now : ∀ other ∈ services ++ [service], Serves middle.maps other := by
        intro other member
        rcases List.mem_append.mp member with before | here
        · exact (served other before).planned laid one
        · rw [List.mem_singleton.mp here]
          exact one.serves
      have whole := induction one.valid (one.laid laid) now others
      rwa [List.append_assoc] at whole

theorem resolveSlots_eq {maps : Maps} {front : Front} {backends : List Address} (slot : Nat)
    (out : List Address)
    (held : ∀ index address, backends[index]? = some address →
      ∃ entry, maps.service front (BitVec.ofNat 16 (slot + index + 1)) = some entry ∧
        maps.backend front.address.ip.isIpv4 entry.backendId = some address) :
    maps.resolveSlots front backends.length slot out = .ok (out ++ backends) := by
  induction backends generalizing slot out with
  | nil => simp [Maps.resolveSlots]
  | cons backend backends induction =>
      rcases held 0 backend rfl with ⟨entry, isEntry, present⟩
      rw [Nat.add_zero] at isEntry
      have rest := induction (slot + 1) (out ++ [backend]) fun index address listed => by
        rw [Nat.add_assoc slot 1 index, Nat.add_comm 1 index]
        exact held (index + 1) address listed
      rw [List.append_assoc, List.singleton_append] at rest
      rw [List.length_cons, Maps.resolveSlots, isEntry]
      simp only [present, rest]

theorem Serves.resolves {maps : Maps} (serves : Serves maps service)
    (plain : service.nat46x64 = false) :
    maps.resolveScope service.front = some (.ok service.chosen.toList) := by
  rcases serves with ⟨⟨master, held, counted⟩, slots⟩
  rw [Maps.resolveScope, held]
  dsimp only
  rw [counted, ← Std.ExtTreeSet.length_toList]
  refine congrArg some (resolveSlots_eq 0 [] fun index address listed => ?_)
  have family := Service.family_of_mem_chosen
    (Std.ExtTreeSet.mem_toList.mp (List.mem_of_getElem? listed))
  rw [plain, Bool.bne_false] at family
  rw [Nat.zero_add]
  exact family ▸ slots index address listed

end Serves

/-- From every state of every run, a complete round makes a lookup of a service's frontend reach
the service's backends in order, and a lookup of anything else find nothing. -/
theorem round_resolves (rounds : List Round) (services : List Service) (result : Desired)
    (made : desired (runRounds rounds) services = .ok result) :
    let maps := (runRounds rounds).apply (plan (runRounds rounds) result.maps)
    (∀ service ∈ services, service.nat46x64 = false →
      maps.resolveScope service.front = some (.ok service.chosen.toList)) ∧
      ∀ front, maps.resolveScope front = none ↔ ∀ service ∈ services, service.front ≠ front := by
  have distinct := distinct_runRounds rounds
  have sorted : ∀ service, service ∈ sortedServices services ↔ service ∈ services :=
    fun service => (List.perm_insertionSort _ services).mem_iff
  rw [apply_plan]
  rcases desired_eq_ok.mp made with ⟨draft, planned, rfl⟩
  have started := startDraft_valid distinct
  rcases Laid.run distinct started (startDraft_laid _) planned with ⟨_, _, laid⟩
  have served := serves_run distinct started (startDraft_laid _) (List.forall_mem_nil _) planned
  refine ⟨fun service member plain => ?_, fun front => ?_⟩
  · exact (served service ((sorted service).mpr member)).resolves plain
  · unfold Maps.resolveScope
    cases held : draft.maps.service front 0#16 with
    | none =>
        refine ⟨fun _ service member same => ?_, fun _ => rfl⟩
        rcases laid.present service ((sorted service).mpr member) with ⟨value, present⟩
        cases (same ▸ present).symm.trans held
    | some value =>
        rcases (laid.master front value held).2 with ⟨service, member, same, _⟩
        refine ⟨fun isNone => ?_, fun absent => ?_⟩
        · cases isNone
        · exact absurd same (absent service ((sorted service).mp member))

/-- A round that was cut after its first two writes. -/
def grown : Maps := runRounds [⟨[webService], 100⟩, ⟨[webService2], 2⟩]

theorem grown_resolves : ∃ result, desired grown [webService2] = .ok result ∧
    (grown.apply (plan grown result.maps)).resolveScope webService2.front =
      some (.ok webService2.chosen.toList) := by
  rcases @exists_of_isOk _ _ (desired grown [webService2]) (by decide +kernel) with ⟨result, made⟩
  exact ⟨result, made, (round_resolves _ _ result made).1 webService2 (.head _) rfl⟩

end FlowSdn.Lb
