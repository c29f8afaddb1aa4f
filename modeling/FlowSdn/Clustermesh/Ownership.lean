import FlowSdn.Foundation.Checked
import FlowSdn.Foundation.JsonText
import FlowSdn.Foundation.OrderedMap

/-! # Cluster ownership

The guarded plan by which an instance claims its cluster's name, and the shared
store whose transactions carry such plans out. What an instance observed before it
plans is not tied to the store: a stale reading is any reading.
-/

namespace FlowSdn.Clustermesh

open OrderedMap JsonText
open Text (asBytes)

abbrev Bytes := List UInt8

/-! ## Plans -/

def validateCluster (name : String) : Except String Unit :=
  if name.isEmpty || 63 < name.utf8ByteSize ||
      !(name.toList.all fun char => char.isLower || char.isDigit || char = '-') ||
      name.toList.head? = some '-' || name.toList.getLast? = some '-' then
    .error "invalid cluster name"
  else .ok ()

/-- Lowercase hexadecimal groups of 8, 4, 4, 4 and 12 digits, not all zero. -/
def canonicalUuid (text : String) : Bool :=
  text.utf8ByteSize = 36 && (text.toList.zipIdx.all fun (char, index) =>
      if index = 8 ∨ index = 13 ∨ index = 18 ∨ index = 23 then char = '-'
      else char.isDigit || ('a' ≤ char ∧ char ≤ 'f')) &&
    text.toList.any fun char => char ≠ '0' ∧ char ≠ '-'

structure InstanceUuid where
  text : String
  canonical : canonicalUuid text

def InstanceUuid.parse (text : String) : Except String InstanceUuid :=
  if canonical : canonicalUuid text then .ok ⟨text, canonical⟩
  else .error "instance UUID must be nonzero canonical lowercase UUID text"

structure Record where
  value : Bytes
  modRevision : Nat
  leaseId : Option Int
  deriving DecidableEq

/-- What a transaction compares: no version of the key, or exactly this record. -/
structure Guard where
  key : String
  expected : Option Record
  deriving DecidableEq

inductive Lease
  | none
  | config (id : Int)
  deriving DecidableEq

def Lease.id : Lease → Option Int
  | .none => Option.none
  | .config id => some id

structure Put where
  key : String
  value : Bytes
  lease : Lease
  deriving DecidableEq

structure ClaimPlan where
  guards : List Guard
  puts : List Put
  deriving DecidableEq

def ownerKey (cluster : String) : String := "flowsdn/cluster-owners/" ++ cluster

def configKey (cluster : String) : String := "cilium/cluster-config/" ++ cluster

/-- Where a configuration carries its owner. -/
def stampPath : List String := ["capabilities", "flowsdnInstanceUUID"]

/-- The JSON library. It may refuse to read a document that it wrote, such as one that is nested
too deep; what it does read of such a document has the same stamp. -/
structure Codec where
  encode : Json → Except String Bytes
  decode : Bytes → Option Json
  keepsStamp : ∀ (value read : Json) (bytes : Bytes) (stamp : String),
    encode value = .ok bytes → value.pointer stampPath = some (.string stamp) →
    decode bytes = some read → read.pointer stampPath = some (.string stamp)

def validateRecord : Option Record → Except String Unit
  | none => .ok ()
  | some record =>
      if record.modRevision = 0 ∨ record.leaseId = some 0 then
        .error "existing record requires positive mod_revision and a nonzero lease ID when leased"
      else .ok ()

/-- What an instance wants and what it has read when it plans. -/
structure Attempt where
  cluster : String
  claimant : InstanceUuid
  owner : Option Record
  config : Option Record
  desired : Json
  desiredLeaseId : Int

def stampOf (codec : Codec) (value : Bytes) : Option String :=
  ((codec.decode value).bind (Json.pointer stampPath)).bind Json.asStr

def checkLease (desiredLeaseId : Int) : Except String Unit :=
  if desiredLeaseId = 0 then .error "config requires a nonzero lease ID" else .ok ()

def checkOwner (claimant : InstanceUuid) : Option Record → Except String Unit
  | none => .ok ()
  | some owner =>
      if owner.leaseId.isSome ∨ owner.value ≠ asBytes claimant.text then
        .error "cluster name owned by a different instance or unsafe leased guard"
      else .ok ()

def checkConfig (codec : Codec) (claimant : InstanceUuid) (owner : Option Record) :
    Option Record → Except String Unit
  | none => .ok ()
  | some config =>
      if (codec.decode config.value).isNone then .error "invalid existing cluster config"
      else if stampOf codec config.value ≠ some claimant.text then
        .error "foreign or unstamped cluster config; explicit offline migration required"
      else if owner.isNone then
        .error "stamped config lacks durable owner; explicit recovery required"
      else .ok ()

/-- The desired configuration with the instance's stamp among its capabilities. -/
def stamped (claimant : InstanceUuid) (desired : Json) : Except String Json :=
  match desired with
  | .object fields =>
      if ((Json.field "id" fields).bind Json.asU64).any fun id => 1 ≤ id ∧ id ≤ 511 then
        match (Json.field "capabilities" fields).getD (.object []) with
        | .object capabilities =>
            .ok (.object (Json.insertField "capabilities"
              (.object (Json.insertField "flowsdnInstanceUUID" (.string claimant.text)
                capabilities)) fields))
        | _ => .error "capabilities must be an object"
      else .error "cluster config requires a valid nonzero ID"
  | _ => .error "cluster config must be an object"

/-- Whether the stored configuration is already the wanted one under the wanted lease. -/
def Attempt.settled (attempt : Attempt) (value : Bytes) : Bool :=
  attempt.config.any fun config =>
    config.value = value && config.leaseId = some attempt.desiredLeaseId

def Attempt.puts (attempt : Attempt) (value : Bytes) : List Put :=
  (if attempt.owner.isNone then
    [⟨ownerKey attempt.cluster, asBytes attempt.claimant.text, .none⟩] else []) ++
  (if attempt.settled value then []
    else [⟨configKey attempt.cluster, value, .config attempt.desiredLeaseId⟩])

/-- Both keys as they were read, and what is missing. -/
def Attempt.plan (attempt : Attempt) (value : Bytes) : ClaimPlan where
  guards := [⟨ownerKey attempt.cluster, attempt.owner⟩, ⟨configKey attempt.cluster, attempt.config⟩]
  puts := attempt.puts value

def planClaim (codec : Codec) (attempt : Attempt) : Except String ClaimPlan := do
  validateCluster attempt.cluster
  checkLease attempt.desiredLeaseId
  validateRecord attempt.owner
  validateRecord attempt.config
  checkOwner attempt.claimant attempt.owner
  checkConfig codec attempt.claimant attempt.owner attempt.config
  let config ← stamped attempt.claimant attempt.desired
  let value ← codec.encode config
  pure (attempt.plan value)

structure Etcd where
  revision : Nat := 0
  records : BTreeMap String Record := ∅

namespace Etcd

def holds (store : Etcd) (guards : List Guard) : Bool :=
  guards.all fun guard => store.records[guard.key]? = guard.expected

def record (revision : Nat) (put : Put) : String × Record :=
  (put.key, ⟨put.value, revision, put.lease.id⟩)

/-- A whole plan as one transaction: every comparison holds, or nothing is written. -/
def commit (store : Etcd) (plan : ClaimPlan) : Etcd :=
  if store.holds plan.guards ∧ plan.puts ≠ [] then
    { revision := store.revision + 1
      records := insertAll store.records (plan.puts.map (record (store.revision + 1))) }
  else store

/-- A lease runs out: the keys under it go. -/
def expire (store : Etcd) (lease : Int) : Etcd :=
  { store with records := store.records.filter fun _ record => record.leaseId ≠ some lease }

end Etcd

inductive Event
  /-- An instance plans from what it once read, and its plan reaches the store. -/
  | attempt (attempt : Attempt)
  | expire (lease : Int)

def Etcd.step (codec : Codec) (store : Etcd) : Event → Etcd
  | .attempt attempt =>
      match planClaim codec attempt with
      | .ok plan => store.commit plan
      | .error _ => store
  | .expire lease => store.expire lease

def run (codec : Codec) (events : List Event) : Etcd := events.foldl (Etcd.step codec) {}

variable {codec : Codec}

/-! ## What a plan says -/

variable {attempt : Attempt} {plan : ClaimPlan} {claimant : InstanceUuid} {store : Etcd}
  {value : Bytes} {record : Record}

theorem planClaim_eq_ok :
    planClaim codec attempt = .ok plan ↔
      validateCluster attempt.cluster = .ok () ∧ checkLease attempt.desiredLeaseId = .ok () ∧
      validateRecord attempt.owner = .ok () ∧ validateRecord attempt.config = .ok () ∧
      checkOwner attempt.claimant attempt.owner = .ok () ∧
      checkConfig codec attempt.claimant attempt.owner attempt.config = .ok () ∧
      ∃ config, stamped attempt.claimant attempt.desired = .ok config ∧
        ∃ value, codec.encode config = .ok value ∧ plan = attempt.plan value := by
  simp only [planClaim, Checked.check_eq_ok]
  simp only [Checked.bind_eq_ok, Checked.pure_eq_ok, eq_comm (a := plan)]

theorem checkOwner_some {owner : Record} :
    checkOwner claimant (some owner) = .ok () ↔
      owner.leaseId = none ∧ owner.value = asBytes claimant.text := by
  simp [checkOwner]

/-- The bytes of a document with the stamp, and whatever is read of them has it too. -/
structure CarriesStamp (codec : Codec) (value : Bytes) (uuid : String) : Prop where
  written : ∃ document, codec.encode document = .ok value ∧
    document.pointer stampPath = some (.string uuid)
  reads : ∀ read, codec.decode value = some read → read.pointer stampPath = some (.string uuid)

theorem checkConfig_of_decoded {owner config : Record} {read : Json}
    (carries : CarriesStamp codec config.value claimant.text)
    (decoded : codec.decode config.value = some read) :
    checkConfig codec claimant (some owner) (some config) = .ok () := by
  simp [checkConfig, stampOf, decoded, carries.reads read decoded, Json.asStr]

theorem stamped_eq_ok {desired config : Json} (made : stamped claimant desired = .ok config) :
    ∃ fields capabilities, config = .object (Json.insertField "capabilities"
      (.object (Json.insertField "flowsdnInstanceUUID" (.string claimant.text) capabilities))
      fields) := by
  unfold stamped at made
  split at made
  · next fields =>
      split at made
      · split at made
        · next capabilities found => exact ⟨fields, capabilities, (Except.ok.inj made).symm⟩
        · cases made
      · cases made
  · cases made

theorem carriesStamp_of_encode {desired config : Json}
    (made : stamped claimant desired = .ok config) (written : codec.encode config = .ok value) :
    CarriesStamp codec value claimant.text := by
  have pointed : config.pointer stampPath = some (.string claimant.text) := by
    rcases stamped_eq_ok made with ⟨fields, capabilities, rfl⟩
    simp [stampPath, Json.pointer, Json.get, Json.asObject]
  exact ⟨⟨config, written, pointed⟩, fun read => codec.keepsStamp config read _ _ written pointed⟩

theorem ownerKey_ne_configKey (cluster other : String) : ownerKey cluster ≠ configKey other := by
  have first : "flowsdn/cluster-owners/".toList = 'f' :: "lowsdn/cluster-owners/".toList := by
    simp
  have second : "cilium/cluster-config/".toList = 'c' :: "ilium/cluster-config/".toList := by
    simp
  unfold ownerKey configKey
  rw [Ne, ← String.toList_inj, String.toList_append, String.toList_append, first, second,
    List.cons_append, List.cons_append, List.cons.injEq]
  intro same
  exact absurd same.1 (by decide)

theorem ownerKey_injective {cluster other : String} (same : ownerKey cluster = ownerKey other) :
    cluster = other :=
  (String.append_right_inj _).mp same

theorem configKey_injective {cluster other : String}
    (same : configKey cluster = configKey other) : cluster = other :=
  (String.append_right_inj _).mp same

/-! ## What a transaction leaves -/

/-- What stands under a cluster's keys once an attempt on it has gone through. -/
structure Claimed (attempt : Attempt) (value : Bytes) (store : Etcd) : Prop where
  owner : ∃ owner, store.records[ownerKey attempt.cluster]? = some owner ∧
    owner.value = asBytes attempt.claimant.text ∧ owner.leaseId = none ∧ owner.modRevision ≠ 0
  config : ∃ record, store.records[configKey attempt.cluster]? = some record ∧
    record.value = value ∧ record.leaseId = some attempt.desiredLeaseId ∧ record.modRevision ≠ 0

theorem modRevision_ne_zero (valid : validateRecord (some record) = .ok ()) :
    record.modRevision ≠ 0 := by
  intro zero
  simp [validateRecord, zero] at valid

theorem Attempt.settled_eq_true (settled : attempt.settled value = true) :
    ∃ config, attempt.config = some config ∧
      config.value = value ∧ config.leaseId = some attempt.desiredLeaseId := by
  rw [Attempt.settled, Option.any_eq_true] at settled
  rcases settled with ⟨config, known, same⟩
  simp only [Bool.and_eq_true, decide_eq_true_eq] at same
  exact ⟨config, known, same⟩

theorem Etcd.holds_plan :
    store.holds (attempt.plan value).guards = true ↔
      store.records[ownerKey attempt.cluster]? = attempt.owner ∧
      store.records[configKey attempt.cluster]? = attempt.config := by
  simp [Etcd.holds, Attempt.plan]

def Etcd.written (store : Etcd) (puts : List Put) : BTreeMap String Record :=
  insertAll store.records (puts.map (Etcd.record (store.revision + 1)))

theorem Etcd.commit_records (held : store.holds plan.guards) :
    (store.commit plan).records = store.written plan.puts := by
  unfold Etcd.commit
  split
  · rfl
  · rename_i idle
    have nothing : plan.puts = [] := by
      by_contra some
      exact idle ⟨held, some⟩
    rw [Etcd.written, nothing, List.map_nil, insertAll_nil]

def Etcd.withOwner (store : Etcd) (attempt : Attempt) : BTreeMap String Record :=
  if attempt.owner.isNone then
    store.records.insert (ownerKey attempt.cluster)
      ⟨asBytes attempt.claimant.text, store.revision + 1, none⟩
  else store.records

theorem Etcd.written_puts (store : Etcd) (attempt : Attempt) (value : Bytes) :
    store.written (attempt.puts value) =
      if attempt.settled value then store.withOwner attempt
      else (store.withOwner attempt).insert (configKey attempt.cluster)
        ⟨value, store.revision + 1, some attempt.desiredLeaseId⟩ := by
  cases owner : attempt.owner <;> cases settled : attempt.settled value <;>
    simp [Etcd.written, Etcd.withOwner, Attempt.puts, owner, settled, Etcd.record, Lease.id]

theorem getElem?_commit_of_ne {key : String}
    (planned : planClaim codec attempt = .ok plan) (notOwner : ownerKey attempt.cluster ≠ key)
    (notConfig : configKey attempt.cluster ≠ key) :
    (store.commit plan).records[key]? = store.records[key]? := by
  rcases planClaim_eq_ok.mp planned with ⟨_, _, _, _, _, _, _, _, value, _, same⟩
  subst same
  unfold Etcd.commit
  split
  · apply getElem?_insertAll_of_not_mem
    cases owner : attempt.owner <;> cases settled : attempt.settled value <;>
      simp [Attempt.plan, Attempt.puts, owner, settled, Etcd.record, notOwner, notConfig]
  · rfl

/-- What holds in the shared store whatever was tried: an owner has no lease to lose,
and a configuration is its owner's. -/
structure Owned (codec : Codec) (store : Etcd) : Prop where
  durable : ∀ (cluster : String) (owner : Record),
    store.records[ownerKey cluster]? = some owner → owner.leaseId = none
  stamped : ∀ (cluster : String) (config : Record),
    store.records[configKey cluster]? = some config → ∃ (owner : Record) (uuid : String),
      store.records[ownerKey cluster]? = some owner ∧ owner.value = asBytes uuid ∧
      CarriesStamp codec config.value uuid

def KeepsOwners (before after : Etcd) : Prop :=
  ∀ (cluster : String) (owner : Record), before.records[ownerKey cluster]? = some owner →
    ∃ still, after.records[ownerKey cluster]? = some still ∧ still.value = owner.value

def Attempt.reread (attempt : Attempt) (store : Etcd) : Attempt :=
  { attempt with
    owner := store.records[ownerKey attempt.cluster]?
    config := store.records[configKey attempt.cluster]? }

theorem validateRecord_some (positive : record.modRevision ≠ 0) (leased : record.leaseId ≠ some 0) :
    validateRecord (some record) = .ok () := by
  simp [validateRecord, positive, leased]

section

variable (planned : planClaim codec attempt = .ok plan) (held : store.holds plan.guards)

include planned held

theorem claimed_commit :
    ∃ config value, stamped attempt.claimant attempt.desired = .ok config ∧
      codec.encode config = .ok value ∧ Claimed attempt value (store.commit plan) := by
  rcases planClaim_eq_ok.mp planned with
    ⟨_, _, ownerValid, configValid, ours, _, config, made, value, written, same⟩
  subst same
  rcases Etcd.holds_plan.mp held with ⟨ownerRead, configRead⟩
  have keys := ownerKey_ne_configKey attempt.cluster attempt.cluster
  refine ⟨config, value, made, written, ?_, ?_⟩
  · -- The configuration's put leaves the owner alone.
    have untouched : (store.commit (attempt.plan value)).records[ownerKey attempt.cluster]? =
        (store.withOwner attempt)[ownerKey attempt.cluster]? := by
      rw [Etcd.commit_records held, Attempt.plan, Etcd.written_puts]
      split
      · rfl
      · exact getElem?_insert_of_ne keys.symm
    rw [untouched]
    cases owner : attempt.owner with
    | none =>
        refine ⟨⟨asBytes attempt.claimant.text, store.revision + 1, none⟩, ?_, rfl, rfl,
          Nat.succ_ne_zero _⟩
        rw [Etcd.withOwner, owner, Option.isNone_none, if_pos rfl,
          Std.ExtTreeMap.getElem?_insert_self]
    | some record =>
        rw [owner] at ownerRead ownerValid ours
        rcases checkOwner_some.mp ours with ⟨leaseless, value⟩
        refine ⟨record, ?_, value, leaseless, modRevision_ne_zero ownerValid⟩
        rw [Etcd.withOwner, owner, Option.isNone_some, if_neg Bool.false_ne_true, ownerRead]
  · rw [Etcd.commit_records held, Attempt.plan, Etcd.written_puts]
    split
    · rename_i settled
      rcases Attempt.settled_eq_true settled with ⟨record, known, value, leased⟩
      rw [known] at configRead configValid
      refine ⟨record, ?_, value, leased, modRevision_ne_zero configValid⟩
      unfold Etcd.withOwner
      split
      · rw [getElem?_insert_of_ne keys, configRead]
      · exact configRead
    · exact ⟨⟨value, store.revision + 1, some attempt.desiredLeaseId⟩,
        Std.ExtTreeMap.getElem?_insert_self, rfl, rfl, Nat.succ_ne_zero _⟩

theorem keepsOwners_commit : KeepsOwners store (store.commit plan) := by
  intro cluster owner found
  by_cases same : attempt.cluster = cluster
  · subst same
    rcases claimed_commit planned held with ⟨_, _, _, _, ⟨still, there, value, _⟩, _⟩
    rcases planClaim_eq_ok.mp planned with ⟨_, _, _, _, ours, _, _, _, _, _, same⟩
    subst same
    rw [← (Etcd.holds_plan.mp held).1, found] at ours
    exact ⟨still, there, value.trans (checkOwner_some.mp ours).2.symm⟩
  · have different : ownerKey attempt.cluster ≠ ownerKey cluster :=
      fun equal => same (ownerKey_injective equal)
    have unchanged : (store.commit plan).records[ownerKey cluster]? =
        store.records[ownerKey cluster]? :=
      getElem?_commit_of_ne planned different (ownerKey_ne_configKey cluster attempt.cluster).symm
    exact ⟨owner, unchanged.trans found, rfl⟩

theorem owned_commit (owned : Owned codec store) : Owned codec (store.commit plan) := by
  rcases claimed_commit planned held with ⟨config, bytes, made, encoded, claimed⟩
  constructor
  · intro cluster owner found
    by_cases same : attempt.cluster = cluster
    · subst same
      rcases claimed.owner with ⟨known, there, _, leaseless, _⟩
      rw [there, Option.some.injEq] at found
      exact found ▸ leaseless
    · rw [getElem?_commit_of_ne planned (fun equal => same (ownerKey_injective equal))
        (ownerKey_ne_configKey cluster attempt.cluster).symm] at found
      exact owned.durable cluster owner found
  · intro cluster record found
    by_cases same : attempt.cluster = cluster
    · subst same
      rcases claimed.owner with ⟨owner, there, value, _⟩
      rcases claimed.config with ⟨known, placed, written, _⟩
      rw [placed, Option.some.injEq] at found
      refine ⟨owner, attempt.claimant.text, there, value, ?_⟩
      rw [← found, written]
      exact carriesStamp_of_encode made encoded
    · rw [getElem?_commit_of_ne planned (ownerKey_ne_configKey attempt.cluster cluster)
        (fun equal => same (configKey_injective equal))] at found
      rcases owned.stamped cluster record found with ⟨owner, uuid, there, value, stamp⟩
      rcases keepsOwners_commit planned held cluster owner there with ⟨still, kept, sameValue⟩
      exact ⟨still, uuid, kept, sameValue.trans value, stamp⟩

/-- Planned once more right after its transaction, a claim has nothing left to write: it is refused
when the document that was written cannot be read. -/
theorem planClaim_reread :
    ∃ config value, stamped attempt.claimant attempt.desired = .ok config ∧
      codec.encode config = .ok value ∧
      (∀ read, codec.decode value = some read →
        ∃ again, planClaim codec (attempt.reread (store.commit plan)) = .ok again ∧
          again.puts = []) ∧
      (codec.decode value = none →
        planClaim codec (attempt.reread (store.commit plan)) =
          .error "invalid existing cluster config") := by
  rcases claimed_commit planned held with ⟨config, value, made, encoded,
    ⟨owner, there, ownerValue, leaseless, positive⟩, ⟨record, placed, written, leased, stampedAt⟩⟩
  rcases planClaim_eq_ok.mp planned with ⟨named, lease, _⟩
  have nonzero : attempt.desiredLeaseId ≠ 0 := by
    intro zero
    simp [checkLease, zero] at lease
  have ownerRead : (attempt.reread (store.commit plan)).owner = some owner := there
  have configRead : (attempt.reread (store.commit plan)).config = some record := placed
  have ownerValid : validateRecord (some owner) = .ok () :=
    validateRecord_some positive (by simp [leaseless])
  have configValid : validateRecord (some record) = .ok () :=
    validateRecord_some stampedAt (by simpa [leased] using nonzero)
  have ours : checkOwner attempt.claimant (some owner) = .ok () :=
    checkOwner_some.mpr ⟨leaseless, ownerValue⟩
  refine ⟨config, value, made, encoded, ?_, ?_⟩
  · intro read decoded
    have carries : CarriesStamp codec record.value attempt.claimant.text :=
      written ▸ carriesStamp_of_encode made encoded
    have settled : (attempt.reread (store.commit plan)).settled value = true := by
      rw [Attempt.settled, configRead]
      simp [written, leased, Attempt.reread]
    refine ⟨_, planClaim_eq_ok.mpr ⟨named, lease, ownerRead ▸ ownerValid,
      configRead ▸ configValid, ownerRead ▸ ours, ?_, config, made, value, encoded, rfl⟩, ?_⟩
    · rw [ownerRead, configRead]
      exact checkConfig_of_decoded carries (written ▸ decoded)
    · simp [Attempt.plan, Attempt.puts, settled, ownerRead]
  · intro unread
    have refused : checkConfig codec attempt.claimant (some owner) (some record) =
        .error "invalid existing cluster config" := by
      simp [checkConfig, written, unread]
    rw [planClaim, ownerRead, configRead, ownerValid, configValid]
    simp only [Attempt.reread, named, lease, ours, refused]
    rfl

end

/-! ## Runs -/

theorem Etcd.step_cases (codec : Codec) (store : Etcd) (event : Event) :
    store.step codec event = store ∨
    (∃ attempt plan, planClaim codec attempt = .ok plan ∧ store.holds plan.guards ∧
      store.step codec event = store.commit plan) ∨
    ∃ lease, store.step codec event = store.expire lease := by
  cases event with
  | expire lease => exact .inr (.inr ⟨lease, rfl⟩)
  | attempt attempt =>
      cases planned : planClaim codec attempt with
      | error error => simp [Etcd.step, planned]
      | ok plan =>
          by_cases held : store.holds plan.guards
          · exact .inr (.inl ⟨attempt, plan, planned, held, by simp [Etcd.step, planned]⟩)
          · exact .inl (by simp [Etcd.step, planned, Etcd.commit, held])

theorem getElem?_expire (store : Etcd) (lease : Int) (key : String) :
    (store.expire lease).records[key]? =
      store.records[key]?.filter fun record => record.leaseId ≠ some lease :=
  Std.ExtTreeMap.getElem?_filter'

theorem keepsOwners_expire (owned : Owned codec store) (lease : Int) :
    KeepsOwners store (store.expire lease) := by
  intro cluster owner found
  refine ⟨owner, ?_, rfl⟩
  rw [getElem?_expire, found]
  simp [owned.durable cluster owner found]

theorem owned_expire (owned : Owned codec store) (lease : Int) :
    Owned codec (store.expire lease) := by
  constructor
  · intro cluster owner found
    rw [getElem?_expire, Option.filter_eq_some_iff] at found
    exact owned.durable cluster owner found.1
  · intro cluster config found
    rw [getElem?_expire, Option.filter_eq_some_iff] at found
    rcases owned.stamped cluster config found.1 with ⟨owner, uuid, there, value, stamp⟩
    rcases keepsOwners_expire owned lease cluster owner there with ⟨still, kept, sameValue⟩
    exact ⟨still, uuid, kept, sameValue.trans value, stamp⟩

theorem owned_step (owned : Owned codec store) (event : Event) :
    Owned codec (store.step codec event) ∧ KeepsOwners store (store.step codec event) := by
  rcases store.step_cases codec event with
    same | ⟨attempt, plan, planned, held, same⟩ | ⟨lease, same⟩
  · rw [same]
    exact ⟨owned, fun cluster owner found => ⟨owner, found, rfl⟩⟩
  · rw [same]
    exact ⟨owned_commit planned held owned, keepsOwners_commit planned held⟩
  · rw [same]
    exact ⟨owned_expire owned lease, keepsOwners_expire owned lease⟩

theorem owned_empty : Owned codec {} := by
  constructor <;> intro cluster record found <;> simp at found

theorem owned_run (codec : Codec) (events : List Event) : Owned codec (run codec events) :=
  List.foldlRecOn events _ owned_empty fun _ owned event _ => (owned_step owned event).1

theorem keepsOwners_foldl (owned : Owned codec store) (events : List Event) :
    KeepsOwners store (events.foldl (Etcd.step codec) store) := by
  induction events generalizing store with
  | nil => exact fun cluster owner found => ⟨owner, found, rfl⟩
  | cons event events induction =>
      intro cluster owner found
      rcases (owned_step owned event).2 cluster owner found with ⟨next, there, same⟩
      rcases induction (owned_step owned event).1 cluster next there with ⟨still, kept, equal⟩
      exact ⟨still, kept, equal.trans same⟩

/-- Ownership is exclusive and stable: in a store that begins empty and that only such
transactions and the ends of leases change, an owner once set keeps its value, a
configuration there is stamped with the owner there, and an instance whose transaction
has just gone through plans nothing more, or is refused when it cannot read what it wrote. -/
theorem ownership_stable (codec : Codec) (earlier later : List Event) :
    KeepsOwners (run codec earlier) (run codec (earlier ++ later)) ∧
    (∀ (cluster : String) (config : Record),
      (run codec earlier).records[configKey cluster]? = some config →
      ∃ (owner : Record) (uuid : String),
        (run codec earlier).records[ownerKey cluster]? = some owner ∧
        owner.value = asBytes uuid ∧ CarriesStamp codec config.value uuid) ∧
    ∀ (attempt : Attempt) (plan : ClaimPlan), planClaim codec attempt = .ok plan →
      (run codec earlier).holds plan.guards →
      ∃ config value, stamped attempt.claimant attempt.desired = .ok config ∧
        codec.encode config = .ok value ∧
        (∀ read, codec.decode value = some read →
          ∃ again, planClaim codec (attempt.reread ((run codec earlier).commit plan)) =
            .ok again ∧ again.puts = []) ∧
        (codec.decode value = none →
          planClaim codec (attempt.reread ((run codec earlier).commit plan)) =
            .error "invalid existing cluster config") := by
  refine ⟨?_, (owned_run codec earlier).stamped, fun attempt plan => planClaim_reread⟩
  rw [run, run, List.foldl_append]
  exact keepsOwners_foldl (owned_run codec earlier) later

/-- JSON text in UTF-8. -/
def serdeJson : Codec where
  encode := toVec
  decode := fromSlice
  keepsStamp := by
    intro value read bytes stamp written pointed decoded
    rw [fromSlice_toVec written] at decoded
    cases decoded
    exact pointed

def eastAttempt : Attempt where
  cluster := "east"
  claimant := ⟨"0f1e2d3c-4b5a-4678-9abc-def012345678", by decide +kernel⟩
  owner := none
  config := none
  desired := .object [("id", .number (.natural 7))]
  desiredLeaseId := 5

def eastPlan : ClaimPlan :=
  eastAttempt.plan (asBytes ("\x7b\"capabilities\":\x7b\"flowsdnInstanceUUID\":" ++
    "\"0f1e2d3c-4b5a-4678-9abc-def012345678\"\x7d,\"id\":7\x7d"))

theorem eastPlan_settles :
    planClaim serdeJson eastAttempt = .ok eastPlan ∧ eastPlan.puts.length = 2 ∧
    ∃ again, planClaim serdeJson (eastAttempt.reread ((run serdeJson []).commit eastPlan)) =
      .ok again ∧ again.puts = [] := by
  have planned : planClaim serdeJson eastAttempt = .ok eastPlan := by decide +kernel
  rcases (ownership_stable serdeJson [] []).2.2 eastAttempt eastPlan planned (by decide +kernel)
    with ⟨config, value, made, written, settles, -⟩
  exact ⟨planned, by decide +kernel, settles config (fromSlice_toVec written)⟩

end FlowSdn.Clustermesh
