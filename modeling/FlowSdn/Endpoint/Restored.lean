import FlowSdn.Endpoint.Consistent

/-! # Restoration and runs

A restored manager is consistent with the records it keeps, and every run of creations,
deletions and address allocations from there keeps it so.
-/

namespace FlowSdn.Endpoint

open Net OrderedMap Fallible HostIpam Checked

/-! ## What the store gives back -/

variable {after records : BTreeMap Nat Record} {manager : Manager} {ipam : Ipam} {document : Json}
  {ips : List IpAddr} {record : Record} {entries : List (String × Entry)} {files : Files}
  {stale viable : List Record} {holds : Files → Prop}

/-- One directory entry adds at most one record, whose attachment is new. -/
theorem restoreEntry_eq_ok {entry : String × Entry}
    (restored : restoreEntry records entry = .ok after) :
    Text.parseUnsigned (2 ^ 16) entry.1 = none ∧ after = records ∨
    ∃ record, Text.parseUnsigned (2 ^ 16) entry.1 = some record.id ∧ record.id ≠ 0 ∧
      entry.1 = toString record.id ∧ readRecord entry.2 = .ok record ∧
      (∀ other ∈ records.values, other.attachment ≠ record.attachment) ∧
      after = records.insert record.id record := by
  unfold restoreEntry at restored
  split at restored
  · rename_i notNumber
    exact .inl ⟨notNumber, (Except.ok.inj restored).symm⟩
  · rename_i id number
    simp only [ite_error_eq_ok, bind_eq_ok, not_or, Decidable.not_not, List.any_eq_true,
      decide_eq_true_eq, not_exists, not_and] at restored
    rcases restored with ⟨⟨positive, canonical⟩, record, read, ⟨rfl, fresh⟩, restored⟩
    exact .inr ⟨record, number, positive, canonical, read, fresh, (Except.ok.inj restored).symm⟩

def OwnAttachments (records : BTreeMap Nat Record) : Prop :=
  ∀ record ∈ records.values, ∀ other ∈ records.values,
    record.attachment = other.attachment → record = other

theorem ownAttachments_insert {id : Nat} (own : OwnAttachments records)
    (fresh : ∀ other ∈ records.values, other.attachment ≠ record.attachment) :
    OwnAttachments (records.insert id record) := by
  have inserted : ∀ other ∈ (records.insert id record).values,
      other = record ∨ other ∈ records.values := by
    intro other listed
    rcases mem_values.mp listed with ⟨key, found⟩
    rcases getElem?_insert_eq_some_iff.mp found with ⟨_, same⟩ | ⟨_, before⟩
    · exact .inl same.symm
    · exact .inr (mem_values.mpr ⟨key, before⟩)
  intro first firstListed second secondListed same
  rcases inserted first firstListed with isFirst | firstListed <;>
    rcases inserted second secondListed with isSecond | secondListed
  · rw [isFirst, isSecond]
  · exact absurd (isFirst ▸ same.symm) (fresh second secondListed)
  · exact absurd (isSecond ▸ same) (fresh first firstListed)
  · exact own first firstListed second secondListed same

theorem ownAttachments_restoreFiles (own : OwnAttachments records)
    (restored : entries.foldlM restoreEntry records = .ok after) : OwnAttachments after := by
  induction entries generalizing records with
  | nil =>
      rw [List.foldlM_nil, pure_eq_ok] at restored
      exact restored ▸ own
  | cons head entries induction =>
      rcases foldlM_cons_eq_ok.mp restored with ⟨next, first, rest⟩
      refine induction ?_ rest
      rcases restoreEntry_eq_ok first with ⟨_, same⟩ | ⟨record, _, _, _, _, fresh, same⟩
      · exact same ▸ own
      · exact same ▸ ownAttachments_insert own fresh

theorem numbered_restoreEntries (restored : entries.foldlM restoreEntry records = .ok after)
    (keyed : ∀ (id : Nat) (record : Record), records[id]? = some record → record.id = id) :
    (∀ (id : Nat) (record : Record), after[id]? = some record → record.id = id) ∧
    (∀ id ∈ records, id ∈ after) ∧
    ∀ entry ∈ entries, ∀ id, Text.parseUnsigned (2 ^ 16) entry.1 = some id →
      entry.1 = destination id ∧ id ∈ after := by
  induction entries generalizing records with
  | nil =>
      rw [List.foldlM_nil, pure_eq_ok] at restored
      subst restored
      exact ⟨keyed, fun _ => id, List.forall_mem_nil _⟩
  | cons head entries induction =>
      rcases foldlM_cons_eq_ok.mp restored with ⟨next, first, rest⟩
      rcases restoreEntry_eq_ok first with ⟨noNumber, same⟩ | ⟨record, number, _, name, _, _, same⟩
      · subst same
        rcases induction rest keyed with ⟨keyedAfter, kept, named⟩
        refine ⟨keyedAfter, kept, fun entry member id parsed => ?_⟩
        rcases List.mem_cons.mp member with isHead | later
        · rw [isHead, noNumber] at parsed
          cases parsed
        · exact named entry later id parsed
      · subst same
        have keyedNext : ∀ (id : Nat) (found : Record),
            (records.insert record.id record)[id]? = some found → found.id = id := by
          intro id found listed
          rcases getElem?_insert_eq_some_iff.mp listed with ⟨same, rfl⟩ | ⟨_, before⟩
          · exact same
          · exact keyed id found before
        rcases induction rest keyedNext with ⟨keyedAfter, kept, named⟩
        refine ⟨keyedAfter, fun id before => kept id (mem_insert_iff.mpr (.inr before)), ?_⟩
        intro entry member id parsed
        rcases List.mem_cons.mp member with isHead | later
        · rw [isHead, number, Option.some.injEq] at parsed
          rw [isHead, ← parsed]
          exact ⟨name, kept record.id (mem_insert_iff.mpr (.inl rfl))⟩
        · exact named entry later id parsed

def NumberOf (records : List Record) (id : Nat) : Prop := ∃ record ∈ records, record.id = id

theorem numbered_restoreFiles (restored : restoreFiles files = .ok records) :
    Numbered (NumberOf records.values) files := by
  have start : ∀ (id : Nat) (record : Record),
      (∅ : BTreeMap Nat Record)[id]? = some record → record.id = id := by simp
  rcases numbered_restoreEntries restored start with ⟨keyed, _, named⟩
  intro name listed id number
  rcases exists_of_mem listed with ⟨entry, found⟩
  have member := Std.ExtTreeMap.mem_toList_iff_getElem?_eq_some.mpr found
  rcases named (name, entry) member id number with ⟨canonical, inside⟩
  refine ⟨canonical, ?_⟩
  rcases exists_of_mem inside with ⟨record, held⟩
  exact ⟨record, mem_values.mpr ⟨id, held⟩, keyed id record held⟩

theorem distinct_restored (restored : restoreFiles files = .ok records)
    (valid : validateInterfaceOwners records.values = .ok ()) : Distinct (· ∈ records.values) := by
  have start : OwnAttachments (∅ : BTreeMap Nat Record) := by
    intro record listed
    rcases mem_values.mp listed with ⟨key, found⟩
    simp at found
  have own := ownAttachments_restoreFiles start restored
  rcases validateInterfaceOwners_eq_ok valid with ⟨owns, apart⟩
  refine ⟨fun first second listed also => own first listed second also, ?_, ?_, owns⟩
  · intro first second listed also same
    exact Classical.byContradiction fun different => (apart.forall listed also different).1 same
  · intro first second listed also same
    exact Classical.byContradiction fun different => (apart.forall listed also different).2 same

section Sorting

variable {before : World → Prop}

theorem restoreAddress_from (manager : Manager) (record : Record) (address : IpAddr) :
    From before manager (restoreAddress record address) fun result world after => result = .ok ⟨⟩ →
      before world ∧ address ∉ manager.addresses ∧
      (manager.ipam.allocate address (owner record.document)).1 = .ok () ∧
      after = { manager with
        addresses := manager.addresses.insert address record.attachment
        ipam := (manager.ipam.allocate address (owner record.document)).2 } := by
  unfold restoreAddress
  refine from_manager (.bind_ofExcept nofun fun _ free => ?_)
  refine from_change (from_manager (.bind_ofExcept nofun ?_))
  intro _ allocated
  refine from_changed fun world start _ => ⟨start, ?_, ?_, rfl⟩
  · intro taken
    rw [Std.ExtTreeMap.contains_iff_mem.mpr taken] at free
    cases free
  · cases found : (manager.ipam.allocate address (owner record.document)).1 with
    | ok value => rfl
    | error error =>
        rw [found] at allocated
        cases allocated

/-- What restoring a record's addresses one by one comes to. -/
structure AddressesRestored (record : Record) (ips : List IpAddr) (manager after : Manager) :
    Prop where
  ids : after.ids = manager.ids
  records : after.records = manager.records
  fresh : ∀ address ∈ ips, address ∉ manager.addresses
  addresses : after.addresses = insertAll manager.addresses (ips.map (·, record.attachment))
  evolves : Ipam.Evolves (fun _ => False) manager.ipam after.ipam
  allocated : ∀ address ∈ ips, after.ipam.isAllocated address = true

variable {manager : Manager}

theorem restoreAddresses_from (sound : manager.ipam.Sound) (record : Record) (ips : List IpAddr) :
    From before manager (ips.forM (restoreAddress record)) fun result world after =>
      result = .ok ⟨⟩ → before world ∧ AddressesRestored record ips manager after := by
  induction ips generalizing manager with
  | nil =>
      exact .pure fun _ start _ => ⟨start, rfl, rfl, fun _ member => (nomatch member), rfl,
        .refl sound _, fun _ member => (nomatch member)⟩
  | cons head ips induction =>
      refine .bind (restoreAddress_from manager record head) nofun fun _ left world first => ?_
      rcases first rfl with ⟨start, free, allocated, same⟩
      subst same
      have evolved := Ipam.evolves_allocate sound head (owner record.document)
      intro succeeded
      rcases induction evolved.sound world start succeeded with ⟨kept, done⟩
      refine ⟨kept, done.ids, done.records, ?_, done.addresses, evolved.trans done.evolves, ?_⟩
      · intro address member
        rcases List.mem_cons.mp member with isHead | member
        · exact isHead ▸ free
        · exact fun taken => done.fresh address member (mem_insert_iff.mpr (.inr taken))
      · intro address member
        rcases List.mem_cons.mp member with isHead | member
        · subst isHead
          exact done.evolves.kept address (Ipam.allocate_eq_ok sound allocated).2 id
        · exact done.allocated address member

theorem reserve_eq_ok {pool after : IdPool} {id : Nat} (reserved : pool.reserve id = .ok after) :
    id ∉ pool.used ∧ after = { pool with used := pool.used.insert id } := by
  unfold IdPool.reserve at reserved
  split at reserved
  · cases reserved
  · rename_i free
    rw [not_or, Std.ExtTreeSet.contains_iff_mem] at free
    exact ⟨free.2, (Except.ok.inj reserved).symm⟩

theorem restoreViable_from {held : Record → Prop} {record : Record}
    (indexed : Indexed held manager) (distinct : Distinct fun other => other = record ∨ held other)
    (link : Link) :
    From before manager (restoreViable record link) fun result world after => result = .ok ⟨⟩ →
      before world ∧ Indexed (fun other => other = record ∨ held other) after ∧
        after.records = manager.records := by
  unfold restoreViable
  refine from_manager (.bind_ofExcept nofun fun ids reserved => ?_)
  refine from_change (.bind_ofExcept nofun fun endpoint _ => ?_)
  refine .bind_ofExcept nofun fun _ _ => ?_
  refine .bind_ofExcept nofun fun ips readable => ?_
  have sound : ({ manager with ids } : Manager).ipam.Sound := indexed.sound
  refine (restoreAddresses_from sound record ips).weaken
    fun result world after restored succeeded => ?_
  rcases restored succeeded with ⟨kept, done⟩
  refine ⟨kept, ?_, done.records⟩
  rcases reserve_eq_ok reserved with ⟨fresh, pool⟩
  have index : ∀ (address : IpAddr) (attachment : String),
      after.addresses[address]? = some attachment ↔ address ∈ ips ∧ record.attachment = attachment ∨
        manager.addresses[address]? = some attachment := by
    intro address attachment
    rw [done.addresses]
    exact getElem?_insertAll_fresh done.fresh record.attachment address attachment
  refine indexed.claim distinct fresh readable ?_ index done.evolves.sound ?_
  · intro id
    rw [done.ids]
    change id ∈ ids.used ↔ _
    rw [pool]
    exact mem_set_insert_iff
  · intro address indexedAfter
    rcases exists_of_mem indexedAfter with ⟨attachment, found⟩
    rcases (index address attachment).mp found with ⟨member, _⟩ | before
    · exact done.allocated address member
    · refine done.evolves.kept address (indexed.allocated address ?_) id
      exact mem_of_getElem? before

theorem sortRecords_from {held larger : Record → Prop} {records : List Record}
    {holds : Files → Prop} (indexed : Indexed held manager) (distinct : Distinct larger)
    (inside : ∀ record, held record → larger record) (listed : ∀ record ∈ records, larger record) :
    From (OnDisk holds) manager (sortRecords records) fun result world after => ∀ sorted,
      result = .ok sorted → OnDisk holds world ∧
        Indexed (fun other => other ∈ sorted.1 ∨ held other) after ∧
        after.records = manager.records ∧
        ∀ record ∈ records, record ∈ sorted.1 ∨ record ∈ sorted.2 := by
  induction records generalizing manager held with
  | nil =>
      refine .pure fun world start sorted same => ?_
      cases same
      have sameHeld : held = fun other => other ∈ ([] : List Record) ∨ held other := by simp
      rw [sameHeld] at indexed
      exact ⟨start, indexed, rfl, List.forall_mem_nil _⟩
  | cons head records induction =>
      have later := fun record member => listed record (List.mem_cons_of_mem head member)
      refine .bind_within (ofKernel_link _).keeps nofun fun found => ?_
      cases found with
      | none =>
          refine .bind_ofExcept nofun fun _ _ => ?_
          refine .bind (induction indexed inside later) nofun ?_
          intro rest left
          refine .pure fun world done result same => ?_
          cases same
          rcases done rest rfl with ⟨start, indexedRest, restRecords, everywhere⟩
          refine ⟨start, indexedRest, restRecords, fun record member => ?_⟩
          rcases List.mem_cons.mp member with isHead | member
          · exact .inr (isHead ▸ List.mem_cons_self ..)
          · exact (everywhere record member).imp_right (List.mem_cons_of_mem _)
      | some link =>
          have both : ∀ record, record = head ∨ held record → larger record := by
            intro record cases
            rcases cases with same | holds
            · exact same ▸ listed head (List.mem_cons_self ..)
            · exact inside record holds
          refine .bind (restoreViable_from indexed (distinct.mono both) link) nofun fun _ left => ?_
          refine .given (fun _ first => ⟨(first rfl).2, (first rfl).1⟩) fun restored => ?_
          rcases restored with ⟨indexedNow, sameRecords⟩
          refine .bind (induction indexedNow both later) nofun
            fun rest left => ?_
          refine .pure fun world done result same => ?_
          cases same
          rcases done rest rfl with ⟨start, indexedRest, restRecords, everywhere⟩
          refine ⟨start, ?_, restRecords.trans sameRecords, fun record member => ?_⟩
          · have sameHeld : (fun other => other ∈ head :: rest.1 ∨ held other) =
                fun other => other ∈ rest.1 ∨ other = head ∨ held other := by
              funext other
              apply propext
              rw [List.mem_cons]
              tauto
            exact sameHeld ▸ indexedRest
          · rcases List.mem_cons.mp member with isHead | member
            · exact .inl (isHead ▸ List.mem_cons_self ..)
            · exact (everywhere record member).imp_left (List.mem_cons_of_mem _)

end Sorting

/-! ## The whole restoration -/

theorem checkStale_from :
    From (OnDisk holds) manager (stale.forM fun record => within (checkStale record))
      fun _ world after => OnDisk holds world ∧ after = manager := by
  induction stale with
  | nil => exact .pure fun _ start => ⟨start, rfl⟩
  | cons head stale induction =>
      exact .bind_within (ofKernel_checkStale head).keeps (fun _ _ start => ⟨start, rfl⟩)
        fun _ => induction

theorem dropStale_from {ids : Nat → Prop} :
    From (OnDisk (Numbered fun id => ids id ∨ NumberOf stale id)) manager
      (stale.forM fun record => within (dropStale record)) fun result world after =>
        after = manager ∧ (result = .ok ⟨⟩ → OnDisk (Numbered ids) world) := by
  induction stale with
  | nil =>
      refine .pure fun world start => ⟨rfl, fun _ => start.mono fun id cases => ?_⟩
      rcases cases with held | ⟨_, member, _⟩
      · exact held
      · cases member
  | cons head stale induction =>
      have sameIds : (fun id => ids id ∨ NumberOf (head :: stale) id) =
          Added head.id fun id => ids id ∨ NumberOf stale id := by
        funext id
        apply propext
        simp only [NumberOf, Added, List.mem_cons, exists_eq_or_imp]
        tauto
      rw [sameIds]
      have dropped : Triple (OnDisk (Numbered (Added head.id fun id => ids id ∨ NumberOf stale id)))
          (dropStale head) fun result world =>
            result = .ok ⟨⟩ → OnDisk (Numbered fun id => ids id ∨ NumberOf stale id) world := by
        refine .bind (ofKernel_dropOwnPolicy head).keeps nofun fun _ => ?_
        refine .bind (keeps_onKernel _) nofun fun _ => ?_
        refine .bind_ofExcept nofun fun ips _ => ?_
        refine .bind (OfKernel.forM ofKernel_removeIfPresent).keeps nofun fun _ => ?_
        exact fun world start => (remove_triple head.id world start).2
      refine .bind_within dropped (fun _ _ _ => ⟨rfl, fun failed => nomatch failed⟩) fun _ => ?_
      exact fun world start => induction world (start rfl)

theorem installAll_from :
    From (OnDisk holds) manager (viable.forM installViable) fun result world after =>
      result = .ok ⟨⟩ → OnDisk holds world ∧ after = { manager with
        records :=
          insertAll manager.records (viable.map fun record => (record.attachment, record)) } := by
  induction viable generalizing manager with
  | nil => exact .pure fun _ start _ => ⟨start, rfl⟩
  | cons head viable induction =>
      have first : From (OnDisk holds) manager (installViable head) fun result world after =>
          result = .ok ⟨⟩ → OnDisk holds world ∧
            after = { manager with records := manager.records.insert head.attachment head } := by
        exact from_manager (.bind_within (ofKernel_install head _).keeps nofun
          fun _ => from_changed fun _ start _ => ⟨start, rfl⟩)
      refine .bind first nofun fun _ left world installed => ?_
      rcases installed rfl with ⟨start, same⟩
      subst same
      exact induction world start

theorem getElem?_installed (distinct : Distinct (· ∈ viable)) (attachment : String)
    (record : Record) :
    (insertAll (∅ : BTreeMap String Record)
        (viable.map fun record => (record.attachment, record)))[attachment]? = some record ↔
      record ∈ viable ∧ record.attachment = attachment := by
  constructor
  · intro found
    rcases getElem?_insertAll_eq_some found with listed | ⟨_, before⟩
    · rcases List.mem_map.mp listed with ⟨other, member, same⟩
      rcases Prod.mk.inj same with ⟨attached, same⟩
      exact ⟨same ▸ member, same ▸ attached⟩
    · simp at before
  · intro both
    apply getElem?_insertAll_of_mem (List.mem_map.mpr ⟨record, both.1, by rw [both.2]⟩)
    intro other also
    rcases List.mem_map.mp also with ⟨held, member, same⟩
    rcases Prod.mk.inj same with ⟨attached, same⟩
    subst same
    exact distinct.attachments held record member both.1 (attached.trans both.2.symm)

theorem indexed_fresh (sound : ipam.Sound) (ids : IdPool) (egress : Egress)
    (unused : ids.used = ∅) : Indexed (fun _ => False) { ids, ipam, egress } := by
  refine ⟨⟨?_, ?_, ?_, ?_⟩, ?_, ?_, ?_, ?_, sound, ?_⟩
  · exact fun _ _ held => held.elim
  · exact fun _ _ held => held.elim
  · exact fun _ _ held => held.elim
  · exact fun _ held => held.elim
  · exact fun _ _ held => held.elim
  · simp [unused]
  · exact fun _ held => held.elim
  · simp
  · simp

theorem new_unused {max : Nat} {ids : IdPool} (made : IdPool.new max = .ok ids) : ids.used = ∅ := by
  unfold IdPool.new at made
  split at made
  · cases made
  · cases made
    rfl

theorem restore_triple : Triple (fun _ => True) Store.restore fun result world => ∀ records,
    result = .ok records → ∃ map, restoreFiles world.outside.files = .ok map ∧
      records = map.values := by
  intro world _ records ran
  rcases external_eq_ok ran with ⟨outside, read, left⟩
  rw [show (Store.restore world).2 = _ from left]
  cases found : restoreFiles world.outside.files with
  | error error =>
      simp only [found, Except.map] at read
      cases read
  | ok map =>
      simp only [found, Except.map, Except.ok.injEq, Prod.mk.injEq] at read
      rw [← read.2, found]
      exact ⟨map, rfl, read.1.symm⟩

/-- A restoration that succeeds gives a consistent manager, with the numbers of the
directory in use. -/
theorem restore_from (sound : ipam.Sound) (before : Manager) (idMax : Nat) (egress : Egress) :
    From (fun _ => True) before (Manager.restore ipam idMax egress) fun result world after =>
      result = .ok ⟨⟩ → after.Consistent ∧ OnDisk (Numbered (· ∈ after.ids.used)) world := by
  unfold Manager.restore
  refine .bind_ofExcept nofun fun ids made => ?_
  refine .bind_within restore_triple nofun fun records => ?_
  have known : ∀ world : World, (∀ found, (Except.ok records : Except (Halt String) _) = .ok found →
      ∃ map, restoreFiles world.outside.files = .ok map ∧ found = map.values) →
      (∃ files map, restoreFiles files = .ok map ∧ records = map.values) ∧
        OnDisk (Numbered (NumberOf records)) world := by
    intro world restored
    rcases restored records rfl with ⟨map, restored, same⟩
    exact ⟨⟨_, map, restored, same⟩, same ▸ numbered_restoreFiles restored⟩
  refine .given known fun restored => ?_
  rcases restored with ⟨files, map, restored, same⟩
  refine .bind_ofExcept nofun fun _ valid => ?_
  have distinct := distinct_restored restored (same ▸ valid)
  refine .bind_ofExcept nofun fun _ _ => ?_
  refine from_change (.bind_within ofKernel_openConnector.keeps nofun fun _ => ?_)
  have fresh := indexed_fresh sound ids egress (new_unused made)
  refine .bind (sortRecords_from fresh distinct (fun _ held => held.elim)
      fun _ member => same ▸ member)
    nofun fun sorted left => ?_
  refine .given (fun _ done => ⟨(done sorted rfl).2, (done sorted rfl).1⟩) fun done => ?_
  rcases done with ⟨indexed, noRecords, everywhere⟩
  have held : (fun other => other ∈ sorted.1 ∨ False) = (· ∈ sorted.1) := by simp
  rw [held] at indexed
  refine .bind checkStale_from nofun fun _ _ => ?_
  refine .given (fun _ done => ⟨done.2, done.1⟩) fun same => same ▸ ?_
  have sortedNames : ∀ world, OnDisk (Numbered (NumberOf records)) world →
      OnDisk (Numbered fun id => NumberOf sorted.1 id ∨ NumberOf sorted.2 id) world := by
    intro world numbered
    refine Numbered.mono numbered fun id found => ?_
    rcases found with ⟨record, member, number⟩
    exact (everywhere record member).imp (fun viable => ⟨record, viable, number⟩)
      fun stale => ⟨record, stale, number⟩
  refine .given (fun world numbered => ⟨trivial, sortedNames world numbered⟩) fun _ => ?_
  refine .bind dropStale_from nofun fun _ _ => ?_
  refine .given (fun _ done => ⟨done.1, done.2 rfl⟩) fun same => same ▸ ?_
  refine installAll_from.weaken fun result world after installed succeeded => ?_
  rcases installed succeeded with ⟨numbered, same⟩
  rw [same, noRecords]
  have found := getElem?_installed indexed.distinct
  refine ⟨⟨?_, ?_⟩, ?_⟩
  · intro attachment record there
    exact ((found attachment record).mp there).2
  · have sameHeld : Manager.Holds { left with
        records := insertAll ∅ (sorted.1.map fun record => (record.attachment, record)) } =
        (· ∈ sorted.1) := by
      funext record
      apply propext
      exact (found record.attachment record).trans ⟨fun both => both.1, fun member => ⟨member, rfl⟩⟩
    rw [sameHeld]
    exact ⟨indexed.1, indexed.2, indexed.3, indexed.4, indexed.5, indexed.6, indexed.7⟩
  · exact Numbered.mono numbered fun id held => (indexed.used id).mpr held

/-! ## Runs -/

/-- Changes of the address pools that release no address a record has. -/
inductive Manager.Pooled : Manager → Manager → Prop
  | allocate (manager : Manager) (address : IpAddr) (owner : String) :
      Manager.Pooled manager { manager with ipam := (manager.ipam.allocate address owner).2 }
  | allocateNextFamily (manager : Manager) (ipv6 : Bool) (owner : String)
      (result : Except Error IpAddr) (ipam : Ipam)
      (allocated : manager.ipam.allocateNextFamily ipv6 owner = some (result, ipam)) :
      Manager.Pooled manager { manager with ipam }
  | allocateNext (manager : Manager) (owner : String) (result : Except Error AddressPair)
      (ipam : Ipam)
      (allocated : manager.ipam.allocateNext owner = some (result, ipam)) :
      Manager.Pooled manager { manager with ipam }
  | release (manager : Manager) (address : IpAddr)
      (unheld : ∀ record ∈ manager.records.values, ∀ ips,
        Endpoint.addresses record.document = .ok ips → address ∉ ips) :
      Manager.Pooled manager { manager with ipam := (manager.ipam.release address).2 }

/-- What can happen to a manager between two restarts: a creation or a deletion in any
world, with any of its steps failing, and changes of the address pools. -/
inductive Manager.Step : Manager → Manager → Prop
  | create (manager : Manager) (world : World) (document : Json)
      (ended : (Manager.create document (world, manager)).1 ≠ .error .stopped) :
      Manager.Step manager (Manager.create document (world, manager)).2.2
  | delete (manager : Manager) (world : World) (attachment : String)
      (ended : (Manager.delete attachment (world, manager)).1 ≠ .error .stopped) :
      Manager.Step manager (Manager.delete attachment (world, manager)).2.2
  | pool {manager after : Manager} (pooled : manager.Pooled after) : Manager.Step manager after

/-- The managers that runs from a restart come to. -/
inductive Manager.Reachable : Manager → Prop
  | restored (before : Manager) (world : World) (ipam : Ipam) (idMax : Nat) (egress : Egress)
      (made : ipam.Made)
      (ended : (Manager.restore ipam idMax egress (world, before)).1 = .ok ⟨⟩) :
      Manager.Reachable (Manager.restore ipam idMax egress (world, before)).2.2
  | step {manager after : Manager} (reached : manager.Reachable) (step : manager.Step after) :
      after.Reachable

section

variable (consistent : manager.Consistent)

include consistent

theorem Manager.Consistent.evolves {gone : IpAddr → Prop}
    (evolves : Ipam.Evolves gone manager.ipam ipam)
    (kept : ∀ address ∈ manager.addresses, ¬gone address) :
    ({ manager with ipam } : Manager).Consistent := by
  refine ⟨consistent.keyed, ?_⟩
  have indexed := consistent.indexed
  refine ⟨indexed.distinct, indexed.ids, indexed.used, indexed.readable, indexed.index,
    evolves.sound, fun address listed => ?_⟩
  exact evolves.kept address (indexed.allocated address listed) (kept address listed)

theorem Manager.Consistent.exists_of_mem {address : IpAddr} (listed : address ∈ manager.addresses) :
    ∃ record ips, manager.Holds record ∧ Endpoint.addresses record.document = .ok ips ∧
      address ∈ ips := by
  rcases OrderedMap.exists_of_mem listed with ⟨attachment, found⟩
  rcases (consistent.indexed.index address attachment).mp found with
    ⟨record, ips, holds, _, readable, member⟩
  exact ⟨record, ips, holds, readable, member⟩

theorem Manager.Consistent.ended {after : Manager} {absent : Files → Prop}
    {possible : Nat → Files → Prop} {result : Except (Halt String) Nat} {world : World}
    (ended : Ended manager document absent possible result world after)
    (live : result ≠ .error .stopped) : after.Consistent := by
  cases result with
  | ok id => exact consistent.appears ended.1
  | error halt =>
      cases halt with
      | error error =>
          rcases ended with ⟨same, _⟩ | ⟨id, appears, _⟩
          · exact consistent.of_core same
          · exact consistent.appears appears
      | stopped => exact absurd rfl live

theorem Manager.Consistent.pooled {after : Manager}
    (pooled : manager.Pooled after) : after.Consistent := by
  have sound := consistent.indexed.sound
  cases pooled with
  | allocate address owner =>
      exact consistent.evolves (Ipam.evolves_allocate sound address owner) fun _ _ => id
  | allocateNextFamily ipv6 owner result ipam allocated =>
      exact consistent.evolves (Ipam.evolves_allocateNextFamily sound allocated).1 fun _ _ => id
  | allocateNext owner result ipam allocated =>
      exact consistent.evolves (Ipam.evolves_allocateNext sound allocated).1 fun _ _ => id
  | release address unheld =>
      refine consistent.evolves (Ipam.evolves_release sound address) ?_
      intro other listed same
      rcases consistent.exists_of_mem listed with ⟨record, ips, holds, readable, member⟩
      exact unheld record (mem_values.mpr ⟨_, holds⟩) ips readable (same ▸ member)

theorem Manager.Consistent.step {after : Manager}
    (step : manager.Step after) : after.Consistent := by
  cases step with
  | create world document ended =>
      have created : From (OnDisk fun _ => True) manager (Manager.create document)
          (Ended manager document (fun _ => True) fun _ _ => True) :=
        create_from consistent document fun record _ => housing_any record
      exact consistent.ended (created world trivial) ended
  | delete world attachment ended =>
      rcases delete_from consistent attachment (fun record _ => (housing_any record).removed)
        world trivial with ⟨same, _⟩ | ⟨deleted, _⟩
      · exact consistent.of_core same
      · exact consistent.deleted deleted
  | pool pooled => exact consistent.pooled pooled

end

theorem consistent_of_reachable (reached : manager.Reachable) : manager.Consistent := by
  induction reached with
  | restored before world ipam idMax egress made ended =>
      exact (restore_from (Ipam.sound_of_made made) before idMax egress world trivial ended).1
  | step _ step induction => exact induction.step step

/-! ## The indices of a reachable manager -/

def recordAddresses (record : Record) : List IpAddr :=
  (addresses record.document).toOption.getD []

theorem recordAddresses_eq (readable : addresses record.document = .ok ips) :
    recordAddresses record = ips := by
  rw [recordAddresses, readable]
  rfl

theorem addressOf_cases {ipv4 : Bool} (read : addressOf document ipv4 = .ok ips) :
    ips = [] ∨ ∃ address, address.isIpv4 = ipv4 ∧ ips = [address] := by
  unfold addressOf at read
  generalize text document (if ipv4 then "IPv4" else "IPv6") = raw at read
  simp only at read
  split at read
  · exact .inl (Except.ok.inj read).symm
  · split at read
    · cases read
    · rename_i address _
      split at read
      · cases read
      · rename_i family
        exact .inr ⟨address, Decidable.not_not.mp family, (Except.ok.inj read).symm⟩

theorem nodup_addresses (readable : addresses document = .ok ips) : ips.Nodup := by
  unfold addresses at readable
  simp only [bind_eq_ok] at readable
  rcases readable with ⟨ipv6, read6, ipv4, read4, joined⟩
  split at joined
  · cases joined
  · cases joined
    rcases addressOf_cases read6 with none6 | ⟨first, family6, one6⟩ <;>
      rcases addressOf_cases read4 with none4 | ⟨second, family4, one4⟩
    · simp [none6, none4]
    · simp [none6, one4]
    · simp [one6, none4]
    · have different : first ≠ second := by
        intro same
        rw [same, family4] at family6
        cases family6
      simp [one6, one4, different]

theorem nodup_map_values (consistent : manager.Consistent) {feature : Record → γ}
    (distinct : ∀ record other, manager.Holds record → manager.Holds other →
      feature record = feature other → record = other) :
    (manager.records.values.map feature).Nodup := by
  have attachments : (manager.records.values.map Record.attachment).Nodup := by
    rw [values_map_key consistent.keyed]
    exact Std.ExtTreeMap.nodup_keys
  refine List.Nodup.map_on ?_ attachments.of_map
  intro record listed other also
  rcases mem_values.mp listed with ⟨_, found⟩
  rcases mem_values.mp also with ⟨_, otherFound⟩
  exact distinct record other (consistent.holds found) (consistent.holds otherFound)

/-- Under every run of creations and deletions with failing steps: the records have numbers,
attachments, host interface names and indices, and addresses of their own; the numbers in
use are theirs; and the address index has exactly their addresses. -/
theorem manager_indices_agree {manager : Manager} (reached : manager.Reachable) :
    (manager.records.values.map Record.id).Nodup ∧
    (manager.records.values.map Record.attachment).Nodup ∧
    (manager.records.values.map fun record => ifName record.document).Nodup ∧
    (manager.records.values.map fun record => ifindex record.document).Nodup ∧
    (manager.records.values.flatMap recordAddresses).Nodup ∧
    (∀ id, id ∈ manager.ids.used ↔ id ∈ manager.records.values.map Record.id) ∧
    (∀ record ∈ manager.records.values,
      addresses record.document = .ok (recordAddresses record)) ∧
    ∀ (address : IpAddr) (attachment : String), manager.addresses[address]? = some attachment ↔
      ∃ record ∈ manager.records.values,
        record.attachment = attachment ∧ address ∈ recordAddresses record := by
  have consistent := consistent_of_reachable reached
  have indexed := consistent.indexed
  have held : ∀ record ∈ manager.records.values, manager.Holds record := by
    intro record listed
    rcases mem_values.mp listed with ⟨_, found⟩
    exact consistent.holds found
  have readable : ∀ record ∈ manager.records.values,
      addresses record.document = .ok (recordAddresses record) := by
    intro record listed
    rcases indexed.readable record (held record listed) with ⟨ips, readable⟩
    rw [recordAddresses_eq readable]
    exact readable
  refine ⟨nodup_map_values consistent indexed.ids,
    nodup_map_values consistent indexed.distinct.attachments,
    nodup_map_values consistent indexed.distinct.names, ?_, ?_, ?_, readable, ?_⟩
  · apply nodup_map_values consistent
    intro record other holds also same
    apply indexed.distinct.indices record other holds also
    rw [ownedIndex, same, ← ownedIndex]
  · rw [List.nodup_flatMap]
    refine ⟨fun record listed => nodup_addresses (readable record listed), ?_⟩
    have separate := nodup_map_values consistent indexed.distinct.attachments
    rw [List.nodup_iff_pairwise_ne, List.pairwise_map] at separate
    refine separate.imp_of_mem ?_
    intro record other listed also different address member otherMember
    have first := (indexed.index address record.attachment).mpr
      ⟨record, _, held record listed, rfl, readable record listed, member⟩
    have second := (indexed.index address other.attachment).mpr
      ⟨other, _, held other also, rfl, readable other also, otherMember⟩
    rw [first, Option.some.injEq] at second
    exact different second
  · intro id
    rw [indexed.used, List.mem_map]
    constructor
    · intro found
      rcases found with ⟨record, holds, same⟩
      exact ⟨record, mem_values.mpr ⟨_, holds⟩, same⟩
    · intro found
      rcases found with ⟨record, listed, same⟩
      exact ⟨record, held record listed, same⟩
  · intro address attachment
    rw [indexed.index]
    constructor
    · intro found
      rcases found with ⟨record, ips, holds, attached, read, member⟩
      exact ⟨record, mem_values.mpr ⟨_, holds⟩, attached, (recordAddresses_eq read).symm ▸ member⟩
    · intro found
      rcases found with ⟨record, listed, attached, member⟩
      exact ⟨record, _, held record listed, attached, readable record listed, member⟩

def smallIpam : Ipam := { ipv4 := some HostScope.smallScope, ipv6 := none }

theorem made_smallIpam : smallIpam.Made := by
  refine ⟨some HostScope.smallScope, none, rfl, ?_, fun _ absent => nomatch absent⟩
  intro scope same
  cases same
  exact ⟨_, _, _, _, _, [], HostScope.new_smallScope, rfl⟩

def startedManager : Manager :=
  (Manager.restore smallIpam 10 .fib
    ({}, { ids := { max := 10 }, ipam := smallIpam, egress := .fib })).2.2

def assignedManager : Manager :=
  { startedManager with
    ipam := (startedManager.ipam.allocate (.v4 0x0a000001) "web/one").2 }

def podDocument : Json :=
  .object [("ContainerIfName", .string "eth0"), ("IPv4", .string "10.0.0.1"),
    ("IfIndex", .number (.natural 7)), ("IfName", .string "lxc1"), ("K8sNamespace", .string "web"),
    ("K8sPodName", .string "one"), ("LXCMAC", .string "02:00:00:00:00:01"),
    ("NodeMAC", .string "02:00:00:00:00:02"), ("dockerID", .string "c1")]

/-- A host whose kernel refuses everything once the record has been published. -/
def refusingWorld : World where
  outside :=
    { kernel := { links := (∅ : BTreeMap String Link).insert "lxc1" ⟨7, [2, 0, 0, 0, 0, 2]⟩ } }
  mishaps clock := if clock < 10 then none else some (.refused "refused")

def retainedManager : Manager := (Manager.create podDocument (refusingWorld, assignedManager)).2.2

theorem reachable_retainedManager : retainedManager.Reachable := by
  have started : startedManager.Reachable :=
    .restored _ _ _ _ _ made_smallIpam (by decide +kernel)
  have assigned : assignedManager.Reachable :=
    started.step (.pool (.allocate startedManager (.v4 0x0a000001) "web/one"))
  exact assigned.step (.create assignedManager refusingWorld podDocument (by decide +kernel))

theorem retainedManager_indices_agree :
    (Manager.create podDocument (refusingWorld, assignedManager)).1 = .error (.error "refused") ∧
    retainedManager.records.values.map (fun record => (record.id, recordAddresses record)) =
      [(1, [.v4 0x0a000001])] ∧
    ∀ id, id ∈ retainedManager.ids.used ↔ id ∈ retainedManager.records.values.map Record.id := by
  refine ⟨by decide +kernel, by decide +kernel, ?_⟩
  exact (manager_indices_agree reachable_retainedManager).2.2.2.2.2.1

end FlowSdn.Endpoint
