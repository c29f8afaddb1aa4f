import FlowSdn.Endpoint.Footprint
import FlowSdn.Ipam.Families

/-! # The manager's indices agree

Records, numbers in use and the address index stay one picture of the same endpoints,
whatever step of a creation or a deletion fails.
-/

namespace FlowSdn.Endpoint

open Net OrderedMap Fallible HostIpam Checked

/-! ## Interface owners -/

variable {record : Record} {document : Json} {id : Nat} {ips : List IpAddr} {held : Record → Prop}
  {after : Manager} {records : List Record} {manager : Manager} {attachment : String}

theorem claimInterface_eq_ok {taken after : BTreeSet String × BTreeSet Nat}
    (claimed : claimInterface taken record = .ok after) :
    ∃ index, ownedIndex record.document = some index ∧ ifName record.document ≠ "" ∧
      ifName record.document ∉ taken.1 ∧ index ∉ taken.2 ∧
      after = (taken.1.insert (ifName record.document), taken.2.insert index) := by
  unfold claimInterface at claimed
  split at claimed
  · cases claimed
  · rename_i index found
    simp only at claimed
    split at claimed
    · cases claimed
    · rename_i admitted
      simp only [Bool.or_eq_true, Std.ExtTreeSet.contains_iff_mem, String.isEmpty_iff, not_or]
        at admitted
      exact ⟨index, found, admitted.1.1, admitted.1.2, admitted.2, (Except.ok.inj claimed).symm⟩

/-- Two records that can own their host interfaces side by side. -/
def Apart (record other : Record) : Prop :=
  ifName record.document ≠ ifName other.document ∧
    ownedIndex record.document ≠ ownedIndex other.document

instance : Std.Symm Apart := ⟨fun _ _ apart => ⟨apart.1.symm, apart.2.symm⟩⟩

/-- What a record must say to own an interface. -/
def Owns (record : Record) : Prop :=
  (ownedIndex record.document).isSome ∧ ifName record.document ≠ ""

theorem claimAll_eq_ok {taken after : BTreeSet String × BTreeSet Nat}
    (claimed : records.foldlM claimInterface taken = .ok after) :
    (∀ record ∈ records, Owns record ∧ ifName record.document ∉ taken.1 ∧
      ∀ index ∈ taken.2, ownedIndex record.document ≠ some index) ∧ records.Pairwise Apart := by
  induction records generalizing taken with
  | nil => simp
  | cons head records induction =>
      rcases foldlM_cons_eq_ok.mp claimed with ⟨next, claimed, rest⟩
      rcases claimInterface_eq_ok claimed with ⟨index, found, named, freshName, freshIndex, same⟩
      subst same
      rcases induction rest with ⟨others, pairwise⟩
      refine ⟨?_, List.pairwise_cons.mpr ⟨?_, pairwise⟩⟩
      · intro record member
        rcases List.mem_cons.mp member with same | later
        · subst same
          refine ⟨⟨by rw [found]; rfl, named⟩, freshName, ?_⟩
          intro other taken same
          rw [found, Option.some.injEq] at same
          exact freshIndex (same ▸ taken)
        · rcases others record later with ⟨owns, name, indices⟩
          exact ⟨owns, fun taken => name (mem_set_insert_iff.mpr (.inr taken)),
            fun other taken => indices other (mem_set_insert_iff.mpr (.inr taken))⟩
      · intro record later
        rcases others record later with ⟨_, name, indices⟩
        refine ⟨fun same => name (mem_set_insert_iff.mpr (.inl same)), fun same => ?_⟩
        exact indices index (mem_set_insert_iff.mpr (.inl rfl)) (same.symm.trans found)

theorem validateInterfaceOwners_eq_ok (valid : validateInterfaceOwners records = .ok ()) :
    (∀ record ∈ records, Owns record) ∧ records.Pairwise Apart := by
  unfold validateInterfaceOwners at valid
  rw [bind_eq_ok] at valid
  rcases valid with ⟨after, claimed, _⟩
  rcases claimAll_eq_ok claimed with ⟨owns, pairwise⟩
  exact ⟨fun record member => (owns record member).1, pairwise⟩

/-! ## Records -/

theorem parse_eq_ok (parsed : Record.parse document = .ok record) :
    record.document = document ∧ parseId document = some record.id := by
  unfold Record.parse at parsed
  split at parsed
  · cases parsed
  · split at parsed
    · cases parsed
    · rename_i id found
      simp only at parsed
      split at parsed
      · cases parsed
      · cases parsed
        exact ⟨rfl, found⟩

theorem id_lt_of_parse (parsed : Record.parse document = .ok record) :
    record.id < 2 ^ 16 ∧ record.id ≠ 0 := by
  have found := (parse_eq_ok parsed).2
  rw [parseId, Option.filter_eq_some_iff] at found
  exact of_decide_eq_true found.2

theorem id_of_withId {after : Json}
    (numbered : withId document id = .ok after) (parsed : Record.parse after = .ok record) :
    record.id = id := by
  have found := (parse_eq_ok parsed).2
  unfold withId at numbered
  split at numbered
  · cases numbered
    unfold parseId Json.get Json.asObject at found
    simp only [Option.bind_some, Json.field_insertField, Json.asU64, Option.filter_eq_some_iff]
      at found
    have read := found.1
    unfold JsonNumber.asU64 at read
    simp only at read
    split at read
    · exact (Option.some.inj read).symm
    · cases read
  · cases numbered

theorem admit_eq_ok (admitted : manager.admit document id = .ok (record, ips)) :
    record.id = id ∧ Record.parse record.document = .ok record ∧
      record.attachment ∉ manager.records ∧
      validateInterfaceOwners (manager.records.values ++ [record]) = .ok () ∧
      addresses record.document = .ok ips ∧
      ∀ address ∈ ips, manager.checkAddress record.document address = .ok () := by
  unfold Manager.admit at admitted
  rw [bind_eq_ok] at admitted
  rcases admitted with ⟨numbered, given, admitted⟩
  rw [bind_eq_ok] at admitted
  rcases admitted with ⟨parsed, wellFormed, admitted⟩
  split at admitted
  · cases admitted
  · rename_i fresh
    rw [check_eq_ok, bind_eq_ok] at admitted
    rcases admitted with ⟨owners, found, readable, admitted⟩
    rw [check_eq_ok, pure_eq_ok, Prod.mk.injEq] at admitted
    rcases admitted with ⟨checked, same, sameAddresses⟩
    subst same sameAddresses
    refine ⟨id_of_withId given wellFormed, ?_, ?_, owners, readable, forM_eq_ok.mp checked⟩
    · rw [(parse_eq_ok wellFormed).1]
      exact wellFormed
    · rwa [Std.ExtTreeMap.contains_iff_mem] at fresh

theorem checkAddress_eq_ok {address : IpAddr}
    (checked : manager.checkAddress document address = .ok ()) :
    ∃ scope, manager.ipam.family address = some scope ∧ address ∉ manager.addresses ∧
      scope.owners[address]? = some (owner document) := by
  unfold Manager.checkAddress at checked
  split at checked
  · cases checked
  · rename_i scope found
    split at checked
    · cases checked
    · rename_i free
      simp only [Std.ExtTreeMap.contains_iff_mem, not_or, Decidable.not_not] at free
      exact ⟨scope, found, free.1, free.2⟩

theorem allocate_fresh {pool after : IdPool} (allocated : pool.allocate = .ok (id, after)) :
    id ∉ pool.used ∧ after = { pool with used := pool.used.insert id } := by
  unfold IdPool.allocate at allocated
  split at allocated
  · cases allocated
  · rename_i lowest found
    simp only [Except.ok.injEq, Prod.mk.injEq] at allocated
    rcases allocated with ⟨same, after⟩
    subst same
    have free := List.find?_some found
    simp only [Bool.not_eq_true', ← Bool.not_eq_true, Std.ExtTreeSet.contains_iff_mem] at free
    exact ⟨free, after.symm⟩

/-! ## The invariant -/

/-- Records that can be held side by side. -/
structure Distinct (held : Record → Prop) : Prop where
  attachments : ∀ record other, held record → held other →
    record.attachment = other.attachment → record = other
  names : ∀ record other, held record → held other →
    ifName record.document = ifName other.document → record = other
  indices : ∀ record other, held record → held other →
    ownedIndex record.document = ownedIndex other.document → record = other
  owns : ∀ record, held record → Owns record

theorem Distinct.mono {larger : Record → Prop} (distinct : Distinct larger)
    (inside : ∀ record, held record → larger record) : Distinct held where
  attachments record other holds also :=
    distinct.attachments record other (inside record holds) (inside other also)
  names record other holds also :=
    distinct.names record other (inside record holds) (inside other also)
  indices record other holds also :=
    distinct.indices record other (inside record holds) (inside other also)
  owns record holds := distinct.owns record (inside record holds)

/-- The numbers in use and the address index are those of the records held, and the
addresses are allocated. -/
structure Indexed (held : Record → Prop) (manager : Manager) : Prop where
  distinct : Distinct held
  ids : ∀ record other, held record → held other → record.id = other.id → record = other
  used : ∀ id, id ∈ manager.ids.used ↔ ∃ record, held record ∧ record.id = id
  readable : ∀ record, held record → ∃ ips, addresses record.document = .ok ips
  index : ∀ (address : IpAddr) (attachment : String),
    manager.addresses[address]? = some attachment ↔
      ∃ record ips, held record ∧ record.attachment = attachment ∧
        addresses record.document = .ok ips ∧ address ∈ ips
  sound : manager.ipam.Sound
  allocated : ∀ address ∈ manager.addresses, manager.ipam.isAllocated address = true

theorem Indexed.claim (indexed : Indexed held manager)
    (distinct : Distinct fun other => other = record ∨ held other)
    (fresh : record.id ∉ manager.ids.used) (readable : addresses record.document = .ok ips)
    (used : ∀ id, id ∈ after.ids.used ↔ record.id = id ∨ id ∈ manager.ids.used)
    (index : ∀ (address : IpAddr) (attachment : String),
      after.addresses[address]? = some attachment ↔
        address ∈ ips ∧ record.attachment = attachment ∨
          manager.addresses[address]? = some attachment) (sound : after.ipam.Sound)
    (allocated : ∀ address ∈ after.addresses, after.ipam.isAllocated address = true) :
    Indexed (fun other => other = record ∨ held other) after := by
  have others : ∀ other, held other → other.id ≠ record.id :=
    fun other holds same => fresh ((indexed.used record.id).mpr ⟨other, holds, same⟩)
  refine ⟨distinct, ?_, ?_, ?_, ?_, sound, allocated⟩
  · intro first second firstHeld secondHeld same
    rcases firstHeld with isFirst | firstHeld <;> rcases secondHeld with isSecond | secondHeld
    · rw [isFirst, isSecond]
    · exact absurd (isFirst ▸ same.symm) (others second secondHeld)
    · exact absurd (isSecond ▸ same) (others first firstHeld)
    · exact indexed.ids first second firstHeld secondHeld same
  · intro id
    rw [used, indexed.used]
    constructor
    · intro cases
      rcases cases with same | ⟨other, holds, same⟩
      · exact ⟨record, .inl rfl, same⟩
      · exact ⟨other, .inr holds, same⟩
    · intro found
      rcases found with ⟨other, same | holds, number⟩
      · exact .inl (same ▸ number)
      · exact .inr ⟨other, holds, number⟩
  · intro other holds
    rcases holds with same | holds
    · exact ⟨ips, same ▸ readable⟩
    · exact indexed.readable other holds
  · intro address attachment
    rw [index, indexed.index]
    constructor
    · intro cases
      rcases cases with ⟨member, same⟩ | ⟨other, listed, holds, rest⟩
      · exact ⟨record, ips, .inl rfl, same, readable, member⟩
      · exact ⟨other, listed, .inr holds, rest⟩
    · intro found
      rcases found with ⟨other, listed, same | holds, attached, found, member⟩
      · subst same
        rw [readable, Except.ok.injEq] at found
        exact .inl ⟨found ▸ member, attached⟩
      · exact .inr ⟨other, listed, holds, attached, found, member⟩

theorem Indexed.drop (indexed : Indexed held manager) (holds : held record)
    (readable : addresses record.document = .ok ips)
    (used : ∀ id, id ∈ after.ids.used ↔ record.id ≠ id ∧ id ∈ manager.ids.used)
    (index : ∀ (address : IpAddr) (attachment : String),
      after.addresses[address]? = some attachment ↔
        address ∉ ips ∧ manager.addresses[address]? = some attachment) (sound : after.ipam.Sound)
    (allocated : ∀ address ∈ after.addresses, after.ipam.isAllocated address = true) :
    Indexed (fun other => other ≠ record ∧ held other) after := by
  refine ⟨indexed.distinct.mono fun _ both => both.2, ?_, ?_, ?_, ?_, sound, allocated⟩
  · intro first second firstHeld secondHeld
    exact indexed.ids first second firstHeld.2 secondHeld.2
  · intro id
    rw [used, indexed.used]
    constructor
    · intro both
      rcases both with ⟨different, other, held, same⟩
      exact ⟨other, ⟨fun equal => different (equal ▸ same), held⟩, same⟩
    · intro found
      rcases found with ⟨other, ⟨different, held⟩, same⟩
      exact ⟨fun equal => different (indexed.ids other record held holds (same.trans equal.symm)),
        other, held, same⟩
  · intro other both
    exact indexed.readable other both.2
  · intro address attachment
    rw [index, indexed.index]
    constructor
    · intro both
      rcases both with ⟨absent, other, listed, held, attached, found, member⟩
      refine ⟨other, listed, ⟨fun equal => ?_, held⟩, attached, found, member⟩
      rw [equal, readable, Except.ok.injEq] at found
      exact absent (found ▸ member)
    · intro found
      rcases found with ⟨other, listed, ⟨different, held⟩, attached, found, member⟩
      refine ⟨fun own => ?_, other, listed, held, attached, found, member⟩
      -- An address of both is indexed under one attachment only.
      have first := (indexed.index address other.attachment).mpr
        ⟨other, listed, held, rfl, found, member⟩
      have second := (indexed.index address record.attachment).mpr
        ⟨record, ips, holds, rfl, readable, own⟩
      rw [first, Option.some.injEq] at second
      exact different (indexed.distinct.attachments other record held holds second)

def Manager.Holds (manager : Manager) (record : Record) : Prop :=
  manager.records[record.attachment]? = some record

structure Manager.Consistent (manager : Manager) : Prop where
  keyed : ∀ (attachment : String) (record : Record),
    manager.records[attachment]? = some record → record.attachment = attachment
  indexed : Indexed manager.Holds manager

/-- The manager without its note of unfinished work. -/
def Manager.core (manager : Manager) : Manager := { manager with deleting := ∅ }

theorem records_of_core (same : after.core = manager.core) : after.records = manager.records := by
  have fields := congrArg Manager.records same
  exact fields

theorem Manager.Consistent.of_core (consistent : manager.Consistent)
    (same : after.core = manager.core) : after.Consistent := by
  cases manager
  cases after
  simp only [Manager.core, Manager.mk.injEq] at same
  rcases same with ⟨rfl, rfl, rfl, _, rfl, rfl⟩
  exact ⟨consistent.keyed, consistent.indexed.1, consistent.indexed.2, consistent.indexed.3,
    consistent.indexed.4, consistent.indexed.5, consistent.indexed.6, consistent.indexed.7⟩

section Steps

variable {before : World → Prop} {part : Manager} {act : Manager → Manager}

theorem from_manager {read : Manager → α} {next : α → Task β}
    {after : Except (Halt String) β → World → Manager → Prop}
    (rest : From before part (next (read part)) after) :
    From before part (Endpoint.manager read >>= next) after :=
  .bind_view rest

theorem from_change {next : PUnit → Task β}
    {after : Except (Halt String) β → World → Manager → Prop}
    (rest : From before (act part) (next ⟨⟩) after) :
    From before part (change act >>= next) after :=
  .bind_modify rest

theorem from_changed {after : Except (Halt String) PUnit → World → Manager → Prop}
    (holds : ∀ world, before world → after (.ok ⟨⟩) world (act part)) :
    From before part (change act) after :=
  .modify holds

end Steps

/-! ## Creation -/

theorem getElem?_insertAll_fresh {map : BTreeMap IpAddr String}
    (fresh : ∀ address ∈ ips, address ∉ map) (attachment : String) (address : IpAddr)
    (found : String) :
    (insertAll map (ips.map (·, attachment)))[address]? = some found ↔
      address ∈ ips ∧ attachment = found ∨ map[address]? = some found := by
  by_cases member : address ∈ ips
  · have absent : map[address]? = none := Std.ExtTreeMap.getElem?_eq_none (fresh address member)
    have listed : (address, attachment) ∈ ips.map (·, attachment) :=
      List.mem_map.mpr ⟨address, member, rfl⟩
    rw [getElem?_insertAll_of_mem listed]
    · simp [member, absent]
    · intro other also
      rcases List.mem_map.mp also with ⟨_, _, same⟩
      exact (Prod.mk.inj same).2.symm
  · rw [getElem?_insertAll_of_not_mem]
    · simp [member]
    · intro pair listed
      rcases List.mem_map.mp listed with ⟨other, also, same⟩
      exact same ▸ fun equal => member (equal ▸ also)

theorem getElem?_eraseAll (map : BTreeMap IpAddr String) (ips : List IpAddr) (address : IpAddr)
    (found : String) :
    (ips.foldl (fun map address => map.erase address) map)[address]? = some found ↔
      address ∉ ips ∧ map[address]? = some found := by
  induction ips generalizing map with
  | nil => simp
  | cons head ips induction =>
      rw [List.foldl_cons, induction, List.mem_cons, not_or]
      by_cases same : head = address
      · subst same
        simp
      · rw [getElem?_erase_of_ne same]
        simp [Ne.symm same]

theorem unregister_register (fresh : record.attachment ∉ manager.records)
    (free : ∀ address ∈ ips, address ∉ manager.addresses) :
    ((manager.register record ips).unregister record ips).core = manager.core := by
  have addresses : ips.foldl (fun addresses address => addresses.erase address)
      (insertAll manager.addresses (ips.map (·, record.attachment))) = manager.addresses := by
    apply Std.ExtTreeMap.ext_getElem?
    intro address
    apply Option.ext
    intro found
    rw [getElem?_eraseAll, getElem?_insertAll_fresh free]
    constructor
    · intro both
      exact both.2.resolve_left fun own => both.1 own.1
    · intro kept
      refine ⟨fun own => ?_, .inr kept⟩
      exact free address own (mem_of_getElem? kept)
  unfold Manager.unregister Manager.register Manager.core
  simp only [addresses, erase_insert_of_not_mem record fresh]

def Registered (manager : Manager) (document : Json) (id : Nat) (after : Manager) : Prop :=
  ∃ record ips, manager.admit document id = .ok (record, ips) ∧
    after.core = (manager.register record ips).core

section Creation

variable {absent possible : Files → Prop}

/-- How a creation with a number ends: with the endpoint, or with an error and either
nothing of it or, as far as is known, all of it. -/
def Created (manager : Manager) (document : Json) (id : Nat) (absent possible : Files → Prop) :
    Except (Halt String) Nat → World → Manager → Prop
  | .ok number, world, after =>
      number = id ∧ Registered manager document id after ∧ OnDisk possible world
  | .error (.error _), world, after => after.core = manager.core ∧ OnDisk absent world ∨
      Registered manager document id after ∧ OnDisk possible world
  | .error .stopped, _, _ => True

theorem created_error {manager after : Manager} {document : Json} {id : Nat} {halt : Halt String}
    {world : World} (reached : after.core = manager.core ∧ OnDisk absent world ∨
      Registered manager document id after ∧ OnDisk possible world) :
    Created manager document id absent possible (.error halt) world after := by
  cases halt with
  | error error => exact reached
  | stopped => trivial

theorem rollBack_from {manager : Manager} {document : Json} {id : Nat} {record : Record}
    {ips : List IpAddr} (admitted : manager.admit document id = .ok (record, ips))
    (housing : Housing absent possible record) :
    From (OnDisk possible) (manager.register record ips) (rollBack record ips) fun _ world after =>
      after.core = manager.core ∧ OnDisk absent world ∨
        Registered manager document id after ∧ OnDisk possible world := by
  have retained : Registered manager document id (manager.register record ips) :=
    ⟨record, ips, admitted, rfl⟩
  refine .bind_attempt_within (ofKernel_uninstall record).keeps
    (fun _ kept => Or.inr ⟨retained, kept⟩)
    (fun _ => .pure fun _ kept => Or.inr ⟨retained, kept⟩) fun _ => ?_
  refine .bind_attempt_within housing.removed (fun _ kept => Or.inr ⟨retained, kept.1⟩)
    (fun _ => .pure fun _ kept => Or.inr ⟨retained, kept.1⟩) fun _ => ?_
  refine from_changed fun _ kept => Or.inl ⟨?_, kept.2 rfl⟩
  rcases admit_eq_ok admitted with ⟨_, _, fresh, _, _, checked⟩
  refine unregister_register fresh fun address member => ?_
  rcases checkAddress_eq_ok (checked address member) with ⟨_, _, free, _⟩
  exact free

theorem createWith_from (manager : Manager) (document : Json) (id : Nat)
    (housing : ∀ record, record.id = id → record.id < 2 ^ 16 → Housing absent possible record) :
    From (OnDisk absent) manager (createWith document id)
      (Created manager document id absent possible) := by
  unfold createWith
  refine from_manager
    (.bind_ofExcept (fun _ _ _ kept => Or.inl ⟨rfl, kept⟩) fun found admitted => ?_)
  rcases found with ⟨record, ips⟩
  rcases admit_eq_ok admitted with ⟨number, parsed, _⟩
  have housed := housing record number (id_lt_of_parse parsed).1
  have retained : Registered manager document id (manager.register record ips) :=
    ⟨record, ips, admitted, rfl⟩
  refine .bind_within (ofKernel_checkHost record ips).keeps
    (fun _ _ kept => created_error (Or.inl ⟨rfl, kept⟩)) fun _ => ?_
  refine .bind_within housed.staged (fun _ _ kept => created_error (Or.inl ⟨rfl, kept⟩)) fun _ => ?_
  refine from_change ?_
  have published : Triple (OnDisk absent) (Store.publish record.id)
      fun (_ : Except (Halt String) PUnit) => OnDisk possible :=
    housed.published.strengthen fun world => housed.weaker world.outside.files
  refine .bind_within published (fun _ _ kept => created_error (Or.inr ⟨retained, kept⟩))
    fun _ => ?_
  have installed : From (OnDisk possible) (manager.register record ips)
      (installOrRollBack record ips) fun result world after => match result with
        | .ok _ => Registered manager document id after ∧ OnDisk possible world
        | .error halt => Created manager document id absent possible (.error halt) world after := by
    refine from_manager
      (.bind_attempt_within (ofKernel_install record _).keeps (fun _ _ => trivial) ?_ ?_)
    · intro error
      exact .bind (rollBack_from admitted housed) (fun _ _ _ reached => created_error reached)
        fun _ left => .fail fun _ reached => reached
    · intro _
      exact from_changed fun _ kept => ⟨⟨record, ips, admitted, rfl⟩, kept⟩
  exact .bind installed (fun _ _ _ reached => reached)
    fun _ left => .pure fun _ reached => ⟨rfl, reached⟩

end Creation

theorem holdsId_iff :
    manager.holdsId id = true ↔ ∃ (attachment : String) (record : Record),
      manager.records[attachment]? = some record ∧ record.id = id := by
  unfold Manager.holdsId
  rw [List.any_eq_true]
  constructor
  · intro found
    rcases found with ⟨record, listed, same⟩
    rcases mem_values.mp listed with ⟨attachment, found⟩
    exact ⟨attachment, record, found, of_decide_eq_true same⟩
  · intro found
    rcases found with ⟨attachment, record, found, same⟩
    exact ⟨record, mem_values.mpr ⟨attachment, found⟩, decide_eq_true same⟩

theorem Manager.Consistent.holds (consistent : manager.Consistent)
    (found : manager.records[attachment]? = some record) : manager.Holds record := by
  unfold Manager.Holds
  rw [consistent.keyed attachment record found]
  exact found

/-- The manager has got the endpoint that was asked for under a number that was free. -/
def Appears (manager : Manager) (document : Json) (id : Nat) (after : Manager) : Prop :=
  ∃ ids, manager.ids.allocate = .ok (id, ids) ∧ Registered { manager with ids } document id after

/-- How a creation ends, besides in a stop. -/
def Ended (manager : Manager) (document : Json) (absent : Files → Prop)
    (possible : Nat → Files → Prop) : Except (Halt String) Nat → World → Manager → Prop
  | .ok id, world, after => Appears manager document id after ∧ OnDisk (possible id) world
  | .error (.error _), world, after => after.core = manager.core ∧ OnDisk absent world ∨
      ∃ id, Appears manager document id after ∧ OnDisk (possible id) world
  | .error .stopped, _, _ => True

theorem create_from (consistent : manager.Consistent) (document : Json) {absent : Files → Prop}
    {possible : Nat → Files → Prop}
    (housing : ∀ record, record.id < 2 ^ 16 → Housing absent (possible record.id) record) :
    From (OnDisk absent) manager (Manager.create document)
      (Ended manager document absent possible) := by
  unfold Manager.create
  refine from_manager
    (.bind_ofExcept (fun _ _ _ kept => Or.inl ⟨rfl, kept⟩) fun found allocated => ?_)
  rcases found with ⟨id, ids⟩
  refine from_change ?_
  unfold onError
  have numbered := createWith_from { manager with ids } document id
    fun record number small => number ▸ housing record small
  refine .bind_attempt numbered (fun _ _ _ => trivial) ?_ ?_
  · intro error left
    refine from_change (.fail fun world created => ?_)
    rcases created with ⟨same, kept⟩ | ⟨registered, kept⟩
    · -- No record has the number, so it goes back and nothing is left of the attempt.
      left
      refine ⟨?_, kept⟩
      rcases allocate_fresh allocated with ⟨fresh, pool⟩
      have records : left.records = manager.records := by rw [records_of_core same]
      have unheld : left.holdsId id = false := by
        rw [← Bool.not_eq_true, holdsId_iff, records]
        intro held
        rcases held with ⟨attachment, record, found, number⟩
        exact fresh ((consistent.indexed.used id).mpr ⟨record, consistent.holds found, number⟩)
      simp only [unheld, Bool.false_eq_true, if_false]
      cases left
      simp only [Manager.core, Manager.mk.injEq] at same ⊢
      rcases same with ⟨sameIds, rest⟩
      refine ⟨?_, rest⟩
      rw [sameIds, pool, IdPool.release]
      simp only [set_erase_insert_of_not_mem fresh]
    · right
      refine ⟨id, ⟨ids, allocated, ?_⟩, kept⟩
      rcases registered with ⟨record, ips, admitted, same⟩
      have held : left.holdsId id = true := by
        rw [holdsId_iff]
        refine ⟨record.attachment, record, ?_, (admit_eq_ok admitted).1⟩
        rw [records_of_core same]
        exact Std.ExtTreeMap.getElem?_insert_self
      simp only [held, if_true]
      exact ⟨record, ips, admitted, same⟩
  · intro value left
    refine .pure fun world created => ?_
    rcases created with ⟨same, registered, kept⟩
    subst same
    exact ⟨⟨ids, allocated, registered⟩, kept⟩

theorem holds_register {other : Record} (fresh : record.attachment ∉ manager.records) :
    (manager.register record ips).Holds other ↔ other = record ∨ manager.Holds other := by
  unfold Manager.Holds Manager.register
  simp only
  rw [getElem?_insert_eq_some_iff]
  constructor
  · exact Or.imp (·.2.symm) (·.2)
  · rintro (rfl | held)
    · exact .inl ⟨rfl, rfl⟩
    · exact .inr ⟨fun same => fresh (same ▸ mem_of_getElem? held), held⟩

theorem Manager.Consistent.appears (consistent : manager.Consistent)
    (appears : Appears manager document id after) : after.Consistent := by
  rcases appears with ⟨ids, allocated, record, ips, admitted, same⟩
  refine Manager.Consistent.of_core ?_ same
  rcases allocate_fresh allocated with ⟨freshId, pool⟩
  subst pool
  rcases admit_eq_ok admitted with ⟨number, _, fresh, owners, readable, checked⟩
  rcases validateInterfaceOwners_eq_ok owners with ⟨owns, apart⟩
  have free : ∀ address ∈ ips, address ∉ manager.addresses := fun address member => by
    rcases checkAddress_eq_ok (checked address member) with ⟨_, _, free, _⟩
    exact free
  have index := getElem?_insertAll_fresh free record.attachment
  have listed : ∀ other, other = record ∨ manager.Holds other →
      other ∈ manager.records.values ++ [record] := by
    intro other cases
    rcases cases with same | holds
    · exact List.mem_append.mpr (.inr (List.mem_singleton.mpr same))
    · exact List.mem_append.mpr (.inl (mem_values.mpr ⟨_, holds⟩))
  have separate : ∀ first second, (first = record ∨ manager.Holds first) →
      (second = record ∨ manager.Holds second) → first ≠ second → Apart first second :=
    fun first second firstHeld secondHeld different =>
      apart.forall (listed first firstHeld) (listed second secondHeld) different
  have distinct : Distinct fun other => other = record ∨ manager.Holds other := by
    refine ⟨?_, ?_, ?_, fun other holds => owns other (listed other holds)⟩
    · intro first second firstHeld secondHeld same
      have absent : ∀ other, manager.Holds other → other.attachment ≠ record.attachment :=
        fun other holds equal => fresh (equal ▸ mem_of_getElem? holds)
      rcases firstHeld with isFirst | firstHeld <;> rcases secondHeld with isSecond | secondHeld
      · rw [isFirst, isSecond]
      · exact absurd (isFirst ▸ same.symm) (absent second secondHeld)
      · exact absurd (isSecond ▸ same) (absent first firstHeld)
      · exact consistent.indexed.distinct.attachments first second firstHeld secondHeld same
    · intro first second firstHeld secondHeld same
      exact Classical.byContradiction fun different =>
        (separate first second firstHeld secondHeld different).1 same
    · intro first second firstHeld secondHeld same
      exact Classical.byContradiction fun different =>
        (separate first second firstHeld secondHeld different).2 same
  constructor
  · intro attachment other found
    change (manager.records.insert record.attachment record)[attachment]? = some other at found
    rcases getElem?_insert_eq_some_iff.mp found with ⟨same, rfl⟩ | ⟨_, before⟩
    · exact same
    · exact consistent.keyed attachment other before
  · have claimed : Indexed (fun other => other = record ∨ manager.Holds other) (Manager.register
          { manager with ids := { manager.ids with used := manager.ids.used.insert id } }
          record ips) := by
      refine consistent.indexed.claim distinct (number ▸ freshId) readable ?_ index
        consistent.indexed.sound ?_
      · intro other
        rw [number]
        exact mem_set_insert_iff
      · intro address indexed
        change manager.ipam.isAllocated address = true
        rcases exists_of_mem indexed with ⟨attachment, found⟩
        rcases (index address attachment).mp found with ⟨member, _⟩ | before
        · rcases checkAddress_eq_ok (checked address member) with ⟨scope, enabled, _, owned⟩
          refine (Ipam.isAllocated_iff consistent.indexed.sound).mpr ⟨scope, enabled, ?_⟩
          exact mem_of_getElem? owned
        · exact consistent.indexed.allocated address (mem_of_getElem? before)
    have same : Manager.Holds (Manager.register
        { manager with ids := { manager.ids with used := manager.ids.used.insert id } }
        record ips) =
        fun other => other = record ∨ manager.Holds other :=
      funext fun other => propext (holds_register fresh)
    rw [same]
    exact claimed

/-! ## Deletion -/

def releasedIpam (ipam : Ipam) (ips : List IpAddr) : Ipam :=
  ips.foldl (fun ipam address => (ipam.release address).2) ipam

theorem evolves_releasedIpam {ipam : Ipam} (sound : ipam.Sound) (ips : List IpAddr) :
    Ipam.Evolves (· ∈ ips) ipam (releasedIpam ipam ips) := by
  induction ips generalizing ipam with
  | nil => exact .refl sound _
  | cons head ips induction =>
      have first := Ipam.evolves_release sound head
      have rest := induction first.sound
      refine ⟨rest.sound, fun address allocated left => ?_⟩
      rw [List.mem_cons, not_or] at left
      exact rest.kept address (first.kept address allocated left.1) left.2

def Manager.releaseAll (manager : Manager) (ips : List IpAddr) : Manager :=
  { manager with
    ipam := releasedIpam manager.ipam ips
    addresses := ips.foldl (fun addresses address => addresses.erase address) manager.addresses }

theorem releaseAll_from {before : World → Prop}
    (enabled : ∀ address ∈ ips, (manager.ipam.family address).isSome) :
    From before manager (ips.forM releaseAddress) fun result world after =>
      result = .ok ⟨⟩ ∧ before world ∧ after = manager.releaseAll ips := by
  induction ips generalizing manager with
  | nil => exact .pure fun _ kept => ⟨rfl, kept, rfl⟩
  | cons head ips induction =>
      have released := Ipam.release_eq_ok (enabled head (List.mem_cons_self ..))
      have first : From before manager (releaseAddress head) fun result world after =>
          result = .ok ⟨⟩ ∧ before world ∧ after = manager.releaseAll [head] := by
        unfold releaseAddress
        refine from_manager (.bind_ofExcept ?_
          fun _ _ => from_changed fun _ kept => ⟨rfl, kept, rfl⟩)
        intro error failed
        rw [released] at failed
        cases failed
      refine .bind first (fun _ _ _ ended => nomatch ended.1) fun _ left world ended => ?_
      rw [ended.2.2]
      refine induction (fun address member => ?_) world ended.2.1
      have families : manager.ipam.SameFamilies (manager.ipam.release head).2 :=
        Ipam.sameFamilies_release head
      exact (families address.isIpv4).trans (enabled address (List.mem_cons_of_mem _ member))

/-- The manager has got rid of an endpoint and given back its addresses and its number. -/
def Deleted (manager : Manager) (attachment : String) (after : Manager) : Prop :=
  ∃ record ips, manager.records[attachment]? = some record ∧ addresses record.document = .ok ips ∧
    after.core = ((manager.releaseAll ips).forget record attachment).core

theorem delete_from (consistent : manager.Consistent) (attachment : String)
    {absent possible : Files → Prop}
    (removes : ∀ record, manager.records[attachment]? = some record →
      Removes absent possible record.id) :
    From (OnDisk possible) manager (Manager.delete attachment) fun _ world after =>
      after.core = manager.core ∧ OnDisk possible world ∨
        Deleted manager attachment after ∧ OnDisk absent world := by
  unfold Manager.delete
  refine from_manager ?_
  cases found : manager.records[attachment]? with
  | none => exact .pure fun _ kept => Or.inl ⟨rfl, kept⟩
  | some record =>
      have holds := consistent.holds found
      rcases consistent.indexed.readable record holds with ⟨ips, readable⟩
      have enabled : ∀ address ∈ ips, (manager.ipam.family address).isSome := by
        intro address member
        apply Ipam.isSome_family_of_isAllocated
        apply consistent.indexed.allocated address
        exact mem_of_getElem? ((consistent.indexed.index address _).mpr
          ⟨record, ips, holds, rfl, readable, member⟩)
      refine from_change (.bind_within (ofKernel_uninstall record).keeps
        (fun _ _ kept => Or.inl ⟨rfl, kept⟩) fun _ => ?_)
      refine .bind_within ofKernel_openConnector.keeps (fun _ _ kept => Or.inl ⟨rfl, kept⟩)
        fun _ => ?_
      refine .bind_within (ofKernel_deleteLink _).keeps (fun _ _ kept => Or.inl ⟨rfl, kept⟩)
        fun _ => ?_
      refine .bind_within (removes record found) (fun _ _ kept => Or.inl ⟨rfl, kept.1⟩) fun _ => ?_
      refine .bind_ofExcept (fun _ failed => nomatch readable.symm.trans failed)
        fun listed same => ?_
      rw [readable, Except.ok.injEq] at same
      subst same
      refine .bind (releaseAll_from enabled) (fun _ _ _ ended => nomatch ended.1)
        fun _ left world ended => ?_
      rw [ended.2.2]
      exact Or.inr ⟨⟨record, ips, found, readable, rfl⟩, ended.2.1.2 rfl⟩

theorem Manager.Consistent.deleted (consistent : manager.Consistent)
    (deleted : Deleted manager attachment after) : after.Consistent := by
  rcases deleted with ⟨record, ips, found, readable, same⟩
  refine Manager.Consistent.of_core ?_ same
  have holds := consistent.holds found
  have key := consistent.keyed attachment record found
  have sameHeld : ((manager.releaseAll ips).forget record attachment).Holds =
      fun other => other ≠ record ∧ manager.Holds other := by
    funext other
    apply propext
    change (manager.records.erase attachment)[other.attachment]? = some other ↔
      other ≠ record ∧ manager.records[other.attachment]? = some other
    rw [getElem?_erase_eq_some_iff]
    refine and_congr_left fun held => not_congr ⟨?_, ?_⟩
    · intro equal
      rw [← equal, found] at held
      exact (Option.some.inj held).symm
    · rintro rfl
      exact key.symm
  constructor
  · intro other record found
    change (manager.records.erase attachment)[other]? = some record at found
    exact consistent.keyed other record (getElem?_erase_eq_some_iff.mp found).2
  · rw [sameHeld]
    have released := evolves_releasedIpam consistent.indexed.sound ips
    refine consistent.indexed.drop holds readable (fun id => mem_set_erase_iff) ?_ released.sound ?_
    · intro address attachment
      exact getElem?_eraseAll manager.addresses ips address attachment
    · intro address indexed
      rcases exists_of_mem indexed with ⟨attachment, found⟩
      rcases (getElem?_eraseAll manager.addresses ips address attachment).mp found with ⟨left, kept⟩
      refine released.kept address (consistent.indexed.allocated address ?_) left
      exact mem_of_getElem? kept

end FlowSdn.Endpoint
