import FlowSdn.Lb.Cells

/-! # Entries, backends and tables of both families

The service entries, the backends and the Maglev tables as three stores over
both families. An insertion is a write to one of them, and a cut plan leaves
each between its current and its desired contents.
-/

namespace FlowSdn.Lb

open Abi Net OrderedMap Staged

abbrev ServiceStore := Store fun _ : Front × U16 => LbService
abbrev BackendStore := Store fun _ : Bool × U32 => Address
abbrev TableStore := Store fun _ : Bool × U16 => List U32

namespace Maps

def services (maps : Maps) : ServiceStore := fun cell => maps.service cell.1 cell.2
def backends (maps : Maps) : BackendStore := fun cell => maps.backend cell.1 cell.2
def tables (maps : Maps) : TableStore := fun cell => maps.table cell.1 cell.2

@[simp] theorem service_empty (front : Front) (slot : U16) :
    ({} : Maps).service front slot = none := by
  unfold service
  split <;> simp

@[simp] theorem backend_empty (ipv4 : Bool) (id : U32) : ({} : Maps).backend ipv4 id = none := by
  cases ipv4 <;> simp [backend]

@[simp] theorem table_empty (ipv4 : Bool) (id : U16) : ({} : Maps).table ipv4 id = none := by
  cases ipv4 <;> simp [Maps.table]

/-! ## Insertions -/

variable (maps : Maps)

/-- An entry's front and slot are told by its key, within a family. -/
theorem key_ne {family : BitVec width → IpAddr} {address otherAddress : BitVec width}
    {front other : Front} {slot otherSlot : U16} (isAddress : front.address.ip = family address)
    (otherIs : other.address.ip = family otherAddress)
    (different : (other, otherSlot) ≠ (front, slot)) :
    (⟨address, front.address.port, slot, front.address.proto, front.scope⟩ : LbKey width) ≠
      ⟨otherAddress, other.address.port, otherSlot, other.address.proto, other.scope⟩ := by
  rcases front with ⟨⟨_, _, _⟩, _⟩
  rcases other with ⟨⟨_, _, _⟩, _⟩
  cases isAddress
  cases otherIs
  intro equal
  rw [LbKey.mk.injEq] at equal
  rcases equal with ⟨rfl, rfl, rfl, rfl, rfl⟩
  exact different rfl

theorem services_insertService (front : Front) (slot : U16) (value : LbService) :
    (maps.insertService front slot value).services =
      put maps.services ⟨(front, slot), some value⟩ := by
  refine Function.eq_update_iff.mpr ⟨?_, ?_⟩
  · cases isAddress : front.address.ip <;> simp [services, service, insertService, isAddress]
  · rintro ⟨other, otherSlot⟩ different
    cases isAddress : front.address.ip <;> cases otherIs : other.address.ip <;>
      simp only [services, service, insertService, isAddress, otherIs]
    · exact getElem?_insert_of_ne (key_ne isAddress otherIs different)
    · exact getElem?_insert_of_ne (key_ne isAddress otherIs different)

@[simp] theorem backends_insertService (front : Front) (slot : U16) (value : LbService) :
    (maps.insertService front slot value).backends = maps.backends := by
  unfold insertService
  split <;> rfl

@[simp] theorem tables_insertService (front : Front) (slot : U16) (value : LbService) :
    (maps.insertService front slot value).tables = maps.tables := by
  unfold insertService
  split <;> rfl

theorem backends_insertBackend (id : U32) (address : Address) :
    (maps.insertBackend id address).backends =
      put maps.backends ⟨(address.ip.isIpv4, id), some address⟩ := by
  rcases address with ⟨ip, port, proto⟩
  refine Function.eq_update_iff.mpr ⟨?_, ?_⟩
  · cases ip <;> simp [backends, backend, insertBackend, IpAddr.isIpv4, backend4, backend6]
  · rintro ⟨ipv4, other⟩ different
    have apart : ipv4 = ip.isIpv4 → id ≠ other := fun family equal =>
      different (by rw [family, equal])
    cases ip <;> cases ipv4 <;> simp only [backends, backend, insertBackend, if_true]
    · rfl
    · rw [getElem?_insert_of_ne (apart rfl)]
    · simp [getElem?_insert_of_ne (apart rfl)]

@[simp] theorem services_insertBackend (id : U32) (address : Address) :
    (maps.insertBackend id address).services = maps.services := by
  unfold insertBackend
  split <;> rfl

@[simp] theorem tables_insertBackend (id : U32) (address : Address) :
    (maps.insertBackend id address).tables = maps.tables := by
  unfold insertBackend
  split <;> rfl

theorem tables_insertTable (frontend : Address) (id : U16) (table : List U32) :
    (maps.insertTable frontend id table).tables =
      put maps.tables ⟨(frontend.ip.isIpv4, id), some table⟩ := by
  rcases frontend with ⟨ip, port, proto⟩
  refine Function.eq_update_iff.mpr ⟨?_, ?_⟩
  · cases ip <;> simp [tables, Maps.table, insertTable, IpAddr.isIpv4]
  · rintro ⟨ipv4, other⟩ different
    have apart : ipv4 = ip.isIpv4 → id ≠ other := fun family equal =>
      different (by rw [family, equal])
    cases ip <;> cases ipv4 <;> simp only [tables, Maps.table, insertTable, if_true]
    · rfl
    · rw [getElem?_insert_of_ne (apart rfl)]
    · simp [getElem?_insert_of_ne (apart rfl)]

@[simp] theorem services_insertTable (frontend : Address) (id : U16) (table : List U32) :
    (maps.insertTable frontend id table).services = maps.services := by
  unfold insertTable
  split <;> rfl

@[simp] theorem backends_insertTable (frontend : Address) (id : U16) (table : List U32) :
    (maps.insertTable frontend id table).backends = maps.backends := by
  unfold insertTable
  split <;> rfl

@[simp] theorem services_insertAffinity (key : LbAffinityMatch) :
    (maps.insertAffinity key).services = maps.services := rfl

@[simp] theorem backends_insertAffinity (key : LbAffinityMatch) :
    (maps.insertAffinity key).backends = maps.backends := rfl

@[simp] theorem tables_insertAffinity (key : LbAffinityMatch) :
    (maps.insertAffinity key).tables = maps.tables := rfl

section

variable (service : Service) (serviceId : U16) (id : U32) (address : Address)

include service serviceId id address

theorem backends_addBackend :
    (maps.addBackend service serviceId id address).backends =
      put maps.backends ⟨(address.ip.isIpv4, id), some address⟩ := by
  unfold addBackend
  split
  · rw [backends_insertAffinity, backends_insertBackend]
  · rw [backends_insertBackend]

@[simp] theorem services_addBackend :
    (maps.addBackend service serviceId id address).services = maps.services := by
  unfold addBackend
  split <;> simp

@[simp] theorem tables_addBackend :
    (maps.addBackend service serviceId id address).tables = maps.tables := by
  unfold addBackend
  split <;> simp

end

theorem services_addSlots (front : Front) (slots : List (U16 × LbService)) :
    (maps.addSlots front slots).services =
      run maps.services (slots.map fun slot => ⟨(front, slot.1), some slot.2⟩) := by
  induction slots generalizing maps with
  | nil => rfl
  | cons slot slots induction =>
      rw [List.map_cons, run_cons, ← services_insertService]
      exact induction (maps.insertService front slot.1 slot.2)

@[simp] theorem backends_addSlots (front : Front) (slots : List (U16 × LbService)) :
    (maps.addSlots front slots).backends = maps.backends := by
  induction slots generalizing maps with
  | nil => rfl
  | cons slot slots induction =>
      exact (induction (maps.insertService front slot.1 slot.2)).trans (backends_insertService ..)

@[simp] theorem tables_addSlots (front : Front) (slots : List (U16 × LbService)) :
    (maps.addSlots front slots).tables = maps.tables := by
  induction slots generalizing maps with
  | nil => rfl
  | cons slot slots induction =>
      exact (induction (maps.insertService front slot.1 slot.2)).trans (tables_insertService ..)

end Maps

/-! ## Between two contents -/

/-- How far a round has come in a store of cells with one upsert and one removal
stage each: `early` is below both, `written` above the first, `kept` below the
second and `done` above both. -/
structure Passage (current desired state : Option α) (cut early written kept done : Nat) :
    Prop where
  either : state = current ∨ state = desired
  untouched : cut < early → state = current
  written : written ≤ cut → desired ≠ none → state = desired
  kept : cut < kept → desired = none → state = current
  done : done ≤ cut → state = desired

section Passage

variable {current desired state : Option α} {cut early written kept done : Nat}

section

variable (passage : Passage current desired state cut early written kept done)

include passage

/-- A content is the current one and the round not past its removals, or the
desired one and the round past the stages before its upserts. -/
theorem Passage.cases
    (order : early ≤ done) : (cut < done ∧ state = current) ∨ (early ≤ cut ∧ state = desired) := by
  by_cases before : cut < early
  · exact .inl ⟨by omega, passage.untouched before⟩
  · by_cases after : done ≤ cut
    · exact .inr ⟨by omega, passage.done after⟩
    · exact passage.either.imp (fun same => ⟨by omega, same⟩) fun same => ⟨by omega, same⟩

theorem Passage.present (before : cut < kept) {value : α} (held : current = some value) :
    ∃ value, state = some value := by
  cases wanted : desired with
  | none => exact ⟨value, (passage.kept before wanted).trans held⟩
  | some other =>
      rcases passage.either with same | same
      · exact ⟨value, same.trans held⟩
      · exact ⟨other, same.trans wanted⟩

theorem Passage.wanted
    (after : written ≤ cut) {value : α} (held : desired = some value) : state = some value :=
  (passage.written after (by rw [held]; simp)).trans held

end

end Passage

/-- The stages of a cell lie between the bounds that its passage is told by. -/
theorem passage_of_between {current desired state : Maps} {cut : Nat}
    (between : Between (stage desired) current.read desired.read state.read cut) (cell : Cell)
    {early written kept done : Nat}
    (stages : early ≤ cell.upsertStage ∧ cell.upsertStage < written ∧ kept ≤ cell.removalStage ∧
      cell.removalStage < done ∧ cell.upsertStage < cell.removalStage) :
    Passage (current.read cell) (desired.read cell) (state.read cell) cut early written kept
      done := by
  have below := between.done cell
  have above := between.untouched cell
  cases wanted : desired.read cell with
  | none =>
      have staged : stage desired cell = cell.removalStage := by rw [stage, wanted]; rfl
      rw [staged, wanted] at below
      rw [staged] at above
      exact ⟨wanted ▸ between.either cell, fun within => above (by omega),
        fun _ present => absurd rfl present, fun within _ => above (by omega),
        fun within => below (by omega)⟩
  | some value =>
      have staged : stage desired cell = cell.upsertStage := by rw [stage, wanted]; rfl
      rw [staged, wanted] at below
      rw [staged] at above
      exact ⟨wanted ▸ between.either cell, fun within => above (by omega),
        fun within _ => below (by omega),
        fun _ missing => absurd missing (Option.some_ne_none value),
        fun within => below (by omega)⟩

/-- A state that part of a plan leaves. -/
structure Midway (current desired state : Maps) (cut : Nat) : Prop where
  master : ∀ front, Passage (current.service front 0#16) (desired.service front 0#16)
    (state.service front 0#16) cut 7 9 9 11
  slot : ∀ front slot, slot ≠ 0#16 →
    Passage (current.service front slot) (desired.service front slot) (state.service front slot)
      cut 5 7 11 13
  table : ∀ ipv4 id, Passage (current.table ipv4 id) (desired.table ipv4 id) (state.table ipv4 id)
    cut 3 5 13 15
  backend : ∀ ipv4 id, Passage (current.backend ipv4 id) (desired.backend ipv4 id)
    (state.backend ipv4 id) cut 0 2 16 18

theorem Passage.map {current desired state : Option α} {cut early written kept done : Nat}
    (passage : Passage current desired state cut early written kept done) (transform : α → β) :
    Passage (current.map transform) (desired.map transform) (state.map transform) cut early
      written kept done where
  either := passage.either.imp (congrArg _) (congrArg _)
  untouched within := congrArg _ (passage.untouched within)
  written within present := congrArg _ (passage.written within (by simpa using present))
  kept within missing := congrArg _ (passage.kept within (by simpa using missing))
  done within := congrArg _ (passage.done within)

theorem midway_of_between {current desired state : Maps} {cut : Nat}
    (between : Between (stage desired) current.read desired.read state.read cut) :
    Midway current desired state cut where
  master := by
    intro front
    simp only [Maps.service]
    split
    · exact passage_of_between between (.service4 _)
        (by simp [Cell.upsertStage, Cell.removalStage, key4])
    · exact passage_of_between between (.service6 _)
        (by simp [Cell.upsertStage, Cell.removalStage, key6])
  slot := by
    intro front slot isSlot
    simp only [Maps.service]
    split
    · exact passage_of_between between (.service4 _)
        (by simp [Cell.upsertStage, Cell.removalStage, key4, isSlot])
    · exact passage_of_between between (.service6 _)
        (by simp [Cell.upsertStage, Cell.removalStage, key6, isSlot])
  table := by
    intro ipv4 id
    cases ipv4 with
    | true =>
        exact passage_of_between between (.maglev4 id)
          (by simp [Cell.upsertStage, Cell.removalStage])
    | false =>
        exact passage_of_between between (.maglev6 id)
          (by simp [Cell.upsertStage, Cell.removalStage])
  backend := by
    intro ipv4 id
    cases ipv4 with
    | true =>
        exact (passage_of_between between (.backend4 id)
          (by simp [Cell.upsertStage, Cell.removalStage])).map backend4
    | false =>
        exact (passage_of_between between (.backend6 id)
          (by simp [Cell.upsertStage, Cell.removalStage])).map backend6

theorem exists_midway (current desired : Maps) (count : Nat) :
    ∃ cut, Midway current desired (current.apply ((plan current desired).take count)) cut := by
  rcases between_plan_take current desired count with ⟨cut, between⟩
  exact ⟨cut, midway_of_between between⟩

end FlowSdn.Lb
