import FlowSdn.Lb.Laid

/-! # Planning twice

Planning again with every ID already known repeats each step of the first
planning, without a new ID.
-/

namespace FlowSdn.Lb

open Abi Net OrderedMap Checked

/-- Drafts that differ in the IDs they know and the pools they draw from. -/
structure Draft.Alike (left right : Draft) : Prop where
  maps : right.maps = left.maps
  ids : right.ids = left.ids
  frontends : right.frontends = left.frontends

structure Filling.Alike (left right : Filling) : Prop where
  draft : left.draft.Alike right.draft
  slots : right.slots = left.slots
  tableInput : right.tableInput = left.tableInput

section Backends

variable {service : Service} {serviceId : U16} {filling next replay : Filling}
  {indexed : Address × Nat} {backends : List (Address × Nat)}

theorem Draft.backendId_known {draft : Draft} {backend : Address} {id : U32}
    (known : draft.backendIds[backend]? = some id) : draft.backendId backend = .ok (id, draft) := by
  simp [Draft.backendId, known]

theorem addBackend_grows (added : addBackend service serviceId filling indexed = .ok next) :
    next.draft.ids = filling.draft.ids ∧
      (∃ id, next.draft.backendIds[indexed.1]? = some id) ∧
      ∀ (address : Address) (id : U32), filling.draft.backendIds[address]? = some id →
        next.draft.backendIds[address]? = some id := by
  rcases addBackend_eq_ok added with ⟨id, draft, input, found, _, _, rfl⟩
  rcases Draft.backendId_extends found with ⟨named, _, sameIds, _, _, grown⟩
  exact ⟨sameIds, ⟨id, named⟩, grown⟩

theorem foldlM_addBackend_grows
    (added : backends.foldlM (addBackend service serviceId) filling = .ok next) :
    next.draft.ids = filling.draft.ids ∧
      ∀ (address : Address) (id : U32), filling.draft.backendIds[address]? = some id →
        next.draft.backendIds[address]? = some id := by
  induction backends generalizing filling with
  | nil =>
      cases added
      exact ⟨rfl, fun _ _ held => held⟩
  | cons indexed backends induction =>
      rcases foldlM_cons_eq_ok.mp added with ⟨middle, first, others⟩
      rcases addBackend_grows first with ⟨sameFirst, _, grownFirst⟩
      rcases induction others with ⟨sameRest, grownRest⟩
      exact ⟨sameRest.trans sameFirst,
        fun address id held => grownRest address id (grownFirst address id held)⟩

theorem addBackend_replay (added : addBackend service serviceId filling indexed = .ok next)
    (alike : filling.Alike replay)
    (known : replay.draft.backendIds[indexed.1]? = next.draft.backendIds[indexed.1]?) :
    ∃ result, addBackend service serviceId replay indexed = .ok result ∧ next.Alike result ∧
      result.draft.backendIds = replay.draft.backendIds := by
  rcases addBackend_eq_ok added with ⟨id, draft, input, found, checked, within, rfl⟩
  rcases Draft.backendId_extends found with ⟨named, sameMaps, sameIds, sameFrontends, _, _⟩
  have knows := Draft.backendId_known (known.trans named)
  have repeated : addBackend service serviceId replay indexed = .ok {
      draft := { replay.draft with
        maps := replay.draft.maps.addBackend service serviceId id indexed.1 }
      slots := replay.slots ++
        [(BitVec.ofNat 16 (indexed.2 + 1), { unionRaw := id, revNatIndex := serviceId })]
      tableInput := replay.tableInput ++ input } := by
    simp only [addBackend, knows, checked, slotNumber, within, if_true, bind, Except.bind, pure,
      Except.pure]
  refine ⟨_, repeated, ⟨⟨?_, alike.draft.ids.trans sameIds.symm,
    alike.draft.frontends.trans sameFrontends.symm⟩, ?_, ?_⟩, rfl⟩
  · simp only [alike.draft.maps, sameMaps]
  · simp only [alike.slots]
  · simp only [alike.tableInput]

theorem foldlM_addBackend_replay
    (added : backends.foldlM (addBackend service serviceId) filling = .ok next)
    (alike : filling.Alike replay) (known : ∀ indexed ∈ backends,
      replay.draft.backendIds[indexed.1]? = next.draft.backendIds[indexed.1]?) :
    ∃ result, backends.foldlM (addBackend service serviceId) replay = .ok result ∧
      next.Alike result ∧ result.draft.backendIds = replay.draft.backendIds := by
  induction backends generalizing filling replay with
  | nil =>
      cases added
      exact ⟨replay, rfl, alike, rfl⟩
  | cons indexed backends induction =>
      rcases foldlM_cons_eq_ok.mp added with ⟨middle, first, others⟩
      rcases (addBackend_grows first).2.1 with ⟨id, named⟩
      have knows : replay.draft.backendIds[indexed.1]? = middle.draft.backendIds[indexed.1]? := by
        rw [known indexed (List.mem_cons_self ..), named]
        exact (foldlM_addBackend_grows others).2 indexed.1 id named
      rcases addBackend_replay first alike knows with ⟨step, repeated, stepAlike, stepIds⟩
      have rest : ∀ other ∈ backends,
          step.draft.backendIds[other.1]? = next.draft.backendIds[other.1]? := by
        intro other member
        rw [stepIds]
        exact known other (List.mem_cons_of_mem _ member)
      rcases induction others stepAlike rest with ⟨result, repeatedRest, resultAlike, resultIds⟩
      exact ⟨result, foldlM_cons_eq_ok.mpr ⟨step, repeated, repeatedRest⟩, resultAlike,
        resultIds.trans stepIds⟩

end Backends

section Services

variable {known knownAgain : BTreeMap Front U16} {draft next replay : Draft} {service : Service}

theorem planService_replay (planned : planService known draft service = .ok next)
    (alike : draft.Alike replay) (sameId : knownAgain[service.front]? = next.ids[service.front]?)
    (sameIds : ∀ address ∈ service.chosen,
      replay.backendIds[address]? = next.backendIds[address]?) :
    ∃ result, planService knownAgain replay service = .ok result ∧ next.Alike result ∧
      result.backendIds = replay.backendIds := by
  rcases planService_eq_ok.mp planned with
    ⟨free, count, id, pool, master, filling, maps, counted, _, made, looped, tabled, rfl⟩
  have isId : knownAgain[service.front]? = some id := by
    simp only [sameId, (foldlM_addBackend_grows looped).1, Draft.begin,
      Std.ExtTreeMap.getElem?_insert_self]
  have named : replay.serviceId knownAgain service.front = .ok (id, replay.servicePool) := by
    simp only [Draft.serviceId, isId]
  have begun : (draft.begin service.front id pool master).Alike
      (replay.begin service.front id replay.servicePool master) := by
    refine ⟨⟨alike.maps, ?_, ?_⟩, rfl, rfl⟩
    · simp only [Draft.begin, alike.ids]
    · simp only [Draft.begin, alike.frontends]
  have knows : ∀ indexed ∈ service.chosen.toList.zipIdx,
      replay.backendIds[indexed.1]? = filling.draft.backendIds[indexed.1]? := by
    intro indexed member
    exact sameIds indexed.1 (Std.ExtTreeSet.mem_toList.mp
      (List.mem_of_getElem? (List.mem_zipIdx_iff_getElem?.mp member)))
  rcases foldlM_addBackend_replay looped begun knows with
    ⟨again, loopedAgain, alikeAgain, idsAgain⟩
  refine ⟨{ again.draft with maps := maps.addSlots service.front again.slots },
    planService_eq_ok.mpr ⟨?_, count, id, replay.servicePool, master, again, maps, counted, named,
      made, loopedAgain, ?_, rfl⟩, ⟨?_, alikeAgain.draft.ids, alikeAgain.draft.frontends⟩,
    idsAgain⟩
  · rw [alike.frontends]
    exact free
  · rw [alikeAgain.draft.maps, alikeAgain.tableInput]
    exact tabled
  · simp only [alikeAgain.slots]

theorem foldlM_planService_replay {current : Maps} {seen services : List Service}
    (distinct : current.Distinct) (valid : draft.Valid current) (laid : Laid seen draft)
    (planned : services.foldlM (planService (recoverServices current)) draft = .ok next)
    (alike : draft.Alike replay)
    (sameId : ∀ service ∈ services, knownAgain[service.front]? = next.ids[service.front]?)
    (sameIds : ∀ service ∈ services, ∀ address ∈ service.chosen,
      replay.backendIds[address]? = next.backendIds[address]?) :
    ∃ result, services.foldlM (planService knownAgain) replay = .ok result ∧ next.Alike result := by
  induction services generalizing draft replay seen with
  | nil =>
      cases planned
      exact ⟨replay, rfl, alike⟩
  | cons service services induction =>
      rcases foldlM_cons_eq_ok.mp planned with ⟨middle, first, others⟩
      rcases exists_planned distinct valid laid first with ⟨id, master, filling, one⟩
      have laidMiddle := one.laid laid
      rcases Laid.run distinct one.valid laidMiddle others with ⟨_, grown, _⟩
      have middleId : middle.ids[service.front]? = some id := by
        rw [one.ids, Std.ExtTreeMap.getElem?_insert_self]
      have middleIds : ∀ address ∈ service.chosen,
          replay.backendIds[address]? = middle.backendIds[address]? := by
        intro address member
        rcases one.known_of_mem member with ⟨backend, named, _⟩
        rw [sameIds service (List.mem_cons_self ..) address member, named]
        exact grown.ids address backend named
      have knows : knownAgain[service.front]? = middle.ids[service.front]? := by
        rw [sameId service (List.mem_cons_self ..), middleId]
        exact grown.serviceIds service.front id middleId
      rcases planService_replay first alike knows middleIds with
        ⟨step, repeated, stepAlike, stepIds⟩
      have restIds : ∀ other ∈ services, ∀ address ∈ other.chosen,
          step.backendIds[address]? = next.backendIds[address]? := by
        intro other member address isChosen
        rw [stepIds]
        exact sameIds other (List.mem_cons_of_mem _ member) address isChosen
      rcases induction one.valid laidMiddle others stepAlike
        (fun other member => sameId other (List.mem_cons_of_mem _ member)) restIds with
        ⟨result, repeatedRest, resultAlike⟩
      exact ⟨result, foldlM_cons_eq_ok.mpr ⟨step, repeated, repeatedRest⟩, resultAlike⟩

end Services

end FlowSdn.Lb
