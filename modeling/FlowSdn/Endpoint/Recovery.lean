import FlowSdn.Endpoint.Restored

/-! # Creation after a restart

Between restarts the numbers in the state directory stay among those in use. A creation whose
kernel steps succeed then depends on one name alone: the staging name of the number it gets.
-/

namespace FlowSdn.Endpoint

open Net OrderedMap Fallible HostIpam Checked

/-! ## Running agents -/

/-- A running agent and what is outside of it, from any restart that succeeded. The kernel
changes as it likes; every other change is one of the agent's own. -/
inductive Alive : Outside → Manager → Prop
  | restarted (before : Manager) (world : World) (ipam : Ipam) (idMax : Nat) (egress : Egress)
      (made : ipam.Made) (ended : (Manager.restore ipam idMax egress (world, before)).1 = .ok ⟨⟩) :
      Alive (Manager.restore ipam idMax egress (world, before)).2.1.outside
        (Manager.restore ipam idMax egress (world, before)).2.2
  | created {world : World} {manager : Manager} (alive : Alive world.outside manager)
      (document : Json) (ended : (Manager.create document (world, manager)).1 ≠ .error .stopped) :
      Alive (Manager.create document (world, manager)).2.1.outside
        (Manager.create document (world, manager)).2.2
  | deleted {world : World} {manager : Manager} (alive : Alive world.outside manager)
      (attachment : String)
      (ended : (Manager.delete attachment (world, manager)).1 ≠ .error .stopped) :
      Alive (Manager.delete attachment (world, manager)).2.1.outside
        (Manager.delete attachment (world, manager)).2.2
  | pooled {outside : Outside} {manager after : Manager} (alive : Alive outside manager)
      (pooled : manager.Pooled after) : Alive outside after
  | kernel {outside : Outside} {manager : Manager} (alive : Alive outside manager)
      (kernel : Kernel) :
      Alive { outside with kernel } manager

/-- The manager is consistent, and the numbers in the directory are in use. -/
def Housed (files : Files) (manager : Manager) : Prop :=
  manager.Consistent ∧ Numbered (· ∈ manager.ids.used) files

variable {manager : Manager} {after : Manager} {world : World}

theorem ids_of_core (same : after.core = manager.core) : after.ids = manager.ids := by
  have fields := congrArg Manager.ids same
  exact fields

theorem housed_pooled {files : Files} (housed : Housed files manager)
    (pooled : manager.Pooled after) : Housed files after := by
  refine ⟨housed.1.pooled pooled, ?_⟩
  cases pooled <;> exact housed.2

theorem housed_create (housed : Housed world.outside.files manager) (document : Json)
    (live : (Manager.create document (world, manager)).1 ≠ .error .stopped) :
    Housed (Manager.create document (world, manager)).2.1.outside.files
      (Manager.create document (world, manager)).2.2 := by
  have created : From (OnDisk (Numbered (· ∈ manager.ids.used))) manager (Manager.create document)
      (Ended manager document (Numbered (· ∈ manager.ids.used))
        fun id => Numbered (Added id (· ∈ manager.ids.used))) :=
    create_from housed.1 document fun record small => housing_numbered small
  have ended := created world housed.2
  refine ⟨housed.1.ended ended live, ?_⟩
  have appeared : ∀ {id : Nat} {after : Manager} {files : Files},
      Appears manager document id after →
      Numbered (Added id (· ∈ manager.ids.used)) files → Numbered (· ∈ after.ids.used) files := by
    intro id after files appears numbered
    rcases appears with ⟨ids, allocated, record, ips, _, same⟩
    rw [ids_of_core same]
    refine numbered.mono fun other added => ?_
    change other ∈ ids.used
    rw [(allocate_fresh allocated).2]
    exact mem_set_insert_iff.mpr (added.imp_left Eq.symm)
  revert ended live
  generalize Manager.create document (world, manager) = ran
  intro live ended
  rcases ran with ⟨halt | id, left⟩
  · cases halt with
    | error error =>
        rcases ended with ⟨same, numbered⟩ | ⟨id, appears, numbered⟩
        · rw [ids_of_core same]
          exact numbered
        · exact appeared appears numbered
    | stopped => exact absurd rfl live
  · exact appeared ended.1 ended.2

theorem housed_delete (housed : Housed world.outside.files manager) (attachment : String) :
    Housed (Manager.delete attachment (world, manager)).2.1.outside.files
      (Manager.delete attachment (world, manager)).2.2 := by
  cases found : manager.records[attachment]? with
  | none =>
      have unchanged :
          Manager.delete attachment (world, manager) = (.ok false, (world, manager)) := by
        unfold Manager.delete
        rw [bind_of_ok (show Endpoint.manager (fun manager => manager.records[attachment]?)
          (world, manager) = (.ok none, (world, manager)) by rw [← found]; rfl)]
        rfl
      rw [unchanged]
      exact housed
  | some record =>
      have inUse : record.id ∈ manager.ids.used :=
        (housed.1.indexed.used record.id).mpr ⟨record, housed.1.holds found, rfl⟩
      -- The record's own number is split off from the others in use.
      have split : (· ∈ manager.ids.used) =
          Added record.id fun id => record.id ≠ id ∧ id ∈ manager.ids.used := by
        funext id
        apply propext
        constructor
        · intro used
          by_cases same : id = record.id
          · exact .inl same
          · exact .inr ⟨Ne.symm same, used⟩
        · intro added
          rcases added with same | other
          · exact same ▸ inUse
          · exact other.2
      have numbered := housed.2
      rw [split] at numbered
      have removes : ∀ other, manager.records[attachment]? = some other →
          Removes (Numbered fun id => record.id ≠ id ∧ id ∈ manager.ids.used)
            (Numbered (Added record.id fun id => record.id ≠ id ∧ id ∈ manager.ids.used))
              other.id := by
        intro other same
        rw [found, Option.some.injEq] at same
        exact same ▸ remove_triple record.id
      rcases delete_from housed.1 attachment removes world numbered with
        ⟨same, kept⟩ | ⟨deleted, gone⟩
      · refine ⟨housed.1.of_core same, ?_⟩
        rw [ids_of_core same, split]
        exact kept
      · refine ⟨housed.1.deleted deleted, ?_⟩
        rcases deleted with ⟨other, ips, otherFound, _, same⟩
        rw [found, Option.some.injEq] at otherFound
        subst otherFound
        rw [ids_of_core same]
        exact Numbered.mono gone fun id both => mem_set_erase_iff.mpr both

theorem housed_of_alive {outside : Outside} (alive : Alive outside manager) :
    Housed outside.files manager := by
  induction alive with
  | restarted before world ipam idMax egress made ended =>
      exact restore_from (Ipam.sound_of_made made) before idMax egress world trivial ended
  | created _ document ended housed => exact housed_create housed document ended
  | deleted _ attachment _ housed => exact housed_delete housed attachment
  | pooled _ pooled housed => exact housed_pooled housed pooled
  | kernel _ _ housed => exact housed

/-! ## Steps when nothing goes wrong -/

def calm (files : Files) (kernel : Kernel) (clock : Nat) : World :=
  { outside := { files, kernel }, clock }

/-- A step that neither reads nor changes the directory. -/
def KernelOnly (step : Step α) : Prop :=
  ∀ kernel, ∃ result after, ∀ files clock, ∃ later,
    step (calm files kernel clock) = (result, calm files after later)

namespace KernelOnly

theorem pure (value : α) : KernelOnly (pure value : Step α) :=
  fun kernel => ⟨.ok value, kernel, fun _ clock => ⟨clock, rfl⟩⟩

theorem fail (error : String) : KernelOnly (fail error : Step α) :=
  fun kernel => ⟨.error (.error error), kernel, fun _ clock => ⟨clock, rfl⟩⟩

theorem bind {first : Step α} {next : α → Step β} (only : KernelOnly first)
    (rest : ∀ value, KernelOnly (next value)) : KernelOnly (first >>= next) := by
  intro kernel
  rcases only kernel with ⟨result, after, ran⟩
  cases result with
  | error halt =>
      refine ⟨.error halt, after, fun files clock => ?_⟩
      rcases ran files clock with ⟨later, ran⟩
      exact ⟨later, bind_of_error ran⟩
  | ok value =>
      rcases rest value after with ⟨final, last, ranNext⟩
      refine ⟨final, last, fun files clock => ?_⟩
      rcases ran files clock with ⟨later, ran⟩
      rcases ranNext files later with ⟨latest, ranNext⟩
      exact ⟨latest, (bind_of_ok ran).trans ranNext⟩

theorem attempt {step : Step α} (only : KernelOnly step) : KernelOnly (attempt step) := by
  intro kernel
  rcases only kernel with ⟨result, after, ran⟩
  cases result with
  | ok value =>
      refine ⟨.ok (.ok value), after, fun files clock => ?_⟩
      rcases ran files clock with ⟨later, ran⟩
      exact ⟨later, by rw [Fallible.attempt, ran]⟩
  | error halt =>
      cases halt with
      | error error =>
          refine ⟨.ok (.error error), after, fun files clock => ?_⟩
          rcases ran files clock with ⟨later, ran⟩
          exact ⟨later, by rw [Fallible.attempt, ran]⟩
      | stopped =>
          refine ⟨.error .stopped, after, fun files clock => ?_⟩
          rcases ran files clock with ⟨later, ran⟩
          exact ⟨later, by rw [Fallible.attempt, ran]⟩

theorem observe {read : Outside → Except String α}
    (only : ∀ files kernel, read { files, kernel } = read { kernel }) :
    KernelOnly (observe read) := by
  intro kernel
  cases found : read { kernel } with
  | error error =>
      refine ⟨.error (.error error), kernel, fun files clock => ⟨clock + 1, ?_⟩⟩
      simp only [Endpoint.observe, external, calm, only files kernel, found, Except.map]
  | ok value =>
      refine ⟨.ok value, kernel, fun files clock => ⟨clock + 1, ?_⟩⟩
      simp only [Endpoint.observe, external, calm, only files kernel, found, Except.map]

theorem onKernel (act : Kernel → Except String Kernel) : KernelOnly (onKernel act) := by
  intro kernel
  cases found : act kernel with
  | error error =>
      refine ⟨.error (.error error), kernel, fun files clock => ⟨clock + 1, ?_⟩⟩
      simp only [Endpoint.onKernel, external, calm, found, Except.map]
  | ok after =>
      refine ⟨.ok ⟨⟩, after, fun files clock => ⟨clock + 1, ?_⟩⟩
      simp only [Endpoint.onKernel, external, calm, found, Except.map]

end KernelOnly

theorem OfKernel.kernelOnly {step : Step α} (ofKernel : OfKernel step) : KernelOnly step := by
  induction ofKernel with
  | pure value => exact .pure value
  | fail error => exact .fail error
  | bind _ _ first rest => exact .bind first rest
  | attempt _ only => exact only.attempt
  | observe only => exact .observe only
  | onKernel act => exact .onKernel act

/-! ## The store when nothing goes wrong -/

theorem destination_ne_staging (id other : Nat) : destination id ≠ staging other := by
  intro same
  have inside : '_' ∈ (destination id).toList := by
    rw [same, staging, String.toList_append, List.mem_append]
    exact .inr (by decide)
  have digit := Text.isDigit_of_mem_toString inside
  cases digit

section Store

variable {files : Files} {kernel : Kernel} {clock : Nat} {act : Files → Except String Files}
  {name : String}

theorem requireFree_calm {id : Nat} (free : destination id ∉ files) :
    requireFree id (calm files kernel clock) = (.ok ⟨⟩, calm files kernel (clock + 1)) := by
  have absent : files.contains (destination id) = false := by
    rw [← Bool.not_eq_true, Std.ExtTreeMap.contains_iff_mem]
    exact free
  have looked : tryExists (destination id) (calm files kernel clock) =
      (.ok false, calm files kernel (clock + 1)) := by
    rw [← absent]
    rfl
  exact bind_of_ok looked

theorem onFiles_calm {after : Files} (acted : act files = .ok after) :
    onFiles act (calm files kernel clock) = (.ok ⟨⟩, calm after kernel (clock + 1)) := by
  simp only [onFiles, external, calm, acted, Except.map]

theorem onFiles_calm_error {error : String} (acted : act files = .error error) :
    onFiles act (calm files kernel clock) =
      (.error (.error error), calm files kernel (clock + 1)) := by
  simp only [onFiles, external, calm, acted, Except.map]

def withStaged (files : Files) (record : Record) : Files :=
  files.insert (staging record.id)
    (.directory ((∅ : BTreeMap String Content).insert configFile (.document record.document)))

theorem makeDirectory_calm (absent : name ∉ files) :
    makeDirectory name (calm files kernel clock) =
      (.ok ⟨⟩, calm (files.insert name (.directory ∅)) kernel (clock + 1)) := by
  apply onFiles_calm
  rw [if_neg]
  rw [Std.ExtTreeMap.contains_iff_mem]
  exact absent

theorem inDirectory_calm {entries after : BTreeMap String Content}
    {act : BTreeMap String Content → Except String (BTreeMap String Content)}
    (acted : act entries = .ok after) :
    inDirectory name act (calm (files.insert name (.directory entries)) kernel clock) =
      (.ok ⟨⟩, calm (files.insert name (.directory after)) kernel (clock + 1)) := by
  apply onFiles_calm
  simp only [Std.ExtTreeMap.getElem?_insert_self, acted, Except.map, insert_insert_self]

theorem writeStaged_calm (record : Record) :
    writeStaged record (calm (files.insert (staging record.id) (.directory ∅)) kernel clock) =
      (.ok ⟨⟩, calm (withStaged files record) kernel (clock + 3)) := by
  have created : createFile (staging record.id)
      (calm (files.insert (staging record.id) (.directory ∅)) kernel clock) =
      (.ok ⟨⟩, calm (files.insert (staging record.id)
        (.directory ((∅ : BTreeMap String Content).insert configFile .torn))) kernel (clock + 1)) :=
    inDirectory_calm (by simp)
  have written : writeFile (staging record.id) record.document
      (calm (files.insert (staging record.id)
        (.directory ((∅ : BTreeMap String Content).insert configFile .torn))) kernel (clock + 1)) =
      (.ok ⟨⟩, calm (withStaged files record) kernel (clock + 2)) :=
    inDirectory_calm (by simp [insert_insert_self])
  exact (bind_of_ok created).trans (bind_of_ok written)

variable {record : Record}

section

variable (parsed : Record.parse record.document = .ok record) (free : destination record.id ∉ files)

include parsed free

theorem stage_eq :
    Store.stage record (calm files kernel clock) =
      (do
        makeDirectory (staging record.id)
        onError (dropStaged record.id) (writeStaged record) : Step PUnit)
        (calm files kernel (clock + 1)) := by
  unfold Store.stage
  rw [parsed, bind_of_ok (ofExcept_ok _ _)]
  simp only [ne_eq, not_true_eq_false, or_self, if_false]
  rw [bind_of_ok (ofExcept_ok _ _)]
  exact bind_of_ok (requireFree_calm free)

theorem stage_calm (unstaged : staging record.id ∉ files) :
    Store.stage record (calm files kernel clock) =
      (.ok ⟨⟩, calm (withStaged files record) kernel (clock + 5)) := by
  rw [stage_eq parsed free, bind_of_ok (makeDirectory_calm unstaged)]
  exact onError_of_ok (writeStaged_calm record)

theorem stage_calm_error (leftover : staging record.id ∈ files) :
    Store.stage record (calm files kernel clock) =
      (.error (.error "File exists"), calm files kernel (clock + 2)) := by
  rw [stage_eq parsed free]
  refine bind_of_error (onFiles_calm_error ?_)
  rw [if_pos (Std.ExtTreeMap.contains_iff_mem.mpr leftover)]

end

def withPublished (files : Files) (record : Record) : Files :=
  ((withStaged files record).erase (staging record.id)).insert (destination record.id)
    (.directory ((∅ : BTreeMap String Content).insert configFile (.document record.document)))

theorem publish_calm (free : destination record.id ∉ files) :
    Store.publish record.id (calm (withStaged files record) kernel clock) =
      (.ok ⟨⟩, calm (withPublished files record) kernel (clock + 2)) := by
  have stillFree : destination record.id ∉ withStaged files record := by
    intro listed
    rcases mem_insert_iff.mp listed with same | before
    · exact destination_ne_staging _ _ same.symm
    · exact free before
  have renamed : rename (staging record.id) (destination record.id)
      (calm (withStaged files record) kernel (clock + 1)) =
      (.ok ⟨⟩, calm (withPublished files record) kernel (clock + 2)) := by
    apply onFiles_calm
    rw [withStaged, Std.ExtTreeMap.getElem?_insert_self]
    rfl
  exact onError_of_ok ((bind_of_ok (requireFree_calm stillFree)).trans renamed)

end Store

/-! ## Creation -/

def kernelSteps (record : Record) (ips : List IpAddr) (egress : Egress) : Step PUnit := do
  checkHost record ips
  install record egress

theorem createWith_calm {files : Files} {kernel : Kernel} {document : Json}
    {id : Nat} {record : Record} {ips : List IpAddr}
    (admitted : manager.admit document id = .ok (record, ips)) (free : destination id ∉ files)
    (willing : (kernelSteps record ips manager.egress (calm files kernel 0)).1 = .ok ⟨⟩) :
    (createWith document id (calm files kernel 0, manager)).1 =
      if staging id ∈ files then .error (.error "File exists") else .ok id := by
  rcases admit_eq_ok admitted with ⟨number, parsed, _⟩
  rcases (ofKernel_checkHost record ips).kernelOnly kernel with ⟨checkResult, checked, ranCheck⟩
  rcases ranCheck files 0 with ⟨clock, ranCheck⟩
  rcases (ofKernel_install record manager.egress).kernelOnly checked with
    ⟨installResult, installed, ranInstall⟩
  have checkOk : checkResult = .ok ⟨⟩ := by
    cases checkResult with
    | ok value => rfl
    | error halt =>
        rw [kernelSteps, bind_of_error ranCheck] at willing
        cases willing
  subst checkOk
  have installOk : installResult = .ok ⟨⟩ := by
    rw [kernelSteps, bind_of_ok ranCheck] at willing
    rcases ranInstall files clock with ⟨_, ran⟩
    rw [ran] at willing
    exact willing
  subst installOk
  rw [← number] at free ⊢
  have begun : createWith document record.id (calm files kernel 0, manager) =
      (do
        within (Store.stage record)
        change fun manager => manager.register record ips
        within (Store.publish record.id)
        installOrRollBack record ips
        pure record.id : Task Nat) (calm files checked clock, manager) := by
    unfold createWith
    have read : Endpoint.manager (fun manager => manager.admit document record.id)
        (calm files kernel 0, manager) =
          (.ok (.ok (record, ips)), (calm files kernel 0, manager)) := by
      rw [number, ← admitted]
      rfl
    rw [bind_of_ok read, bind_of_ok (ofExcept_ok _ _)]
    exact bind_of_ok (within_run ranCheck)
  rw [begun]
  by_cases leftover : staging record.id ∈ files
  · rw [if_pos leftover, bind_of_error (within_run (stage_calm_error parsed free leftover))]
  · rw [if_neg leftover, bind_of_ok (within_run (stage_calm parsed free leftover))]
    have registered : change (fun manager => manager.register record ips)
        (calm (withStaged files record) checked (clock + 5), manager) =
        (.ok ⟨⟩,
          (calm (withStaged files record) checked (clock + 5), manager.register record ips)) :=
      rfl
    rw [bind_of_ok registered, bind_of_ok (within_run (publish_calm free))]
    rcases ranInstall (withPublished files record) (clock + 5 + 2) with ⟨later, ranInstall⟩
    have done : installOrRollBack record ips
        (calm (withPublished files record) checked (clock + 5 + 2), manager.register record ips) =
        (.ok ⟨⟩, (calm (withPublished files record) installed later,
          (manager.register record ips).settle record)) := by
      have tried : attempt (within (install record manager.egress))
          (calm (withPublished files record) checked (clock + 5 + 2), manager.register record ips) =
          (.ok (.ok ⟨⟩), (calm (withPublished files record) installed later,
            manager.register record ips)) := by
        rw [attempt, within_run ranInstall]
      exact bind_of_ok tried
    rw [bind_of_ok done]
    rfl

/-- In every state that runs and restarts come to: with a number free, a creation for a
fresh attachment whose kernel steps succeed is created exactly when nothing has the
staging name of the number it gets. -/
theorem create_succeeds_iff_unstaged {files : Files} {kernel : Kernel} {manager : Manager}
    (alive : Alive { files, kernel } manager) {document : Json} {id : Nat} {ids : IdPool}
    {record : Record} {ips : List IpAddr} (numbered : manager.ids.allocate = .ok (id, ids))
    (admitted : Manager.admit { manager with ids } document id = .ok (record, ips))
    (willing : (kernelSteps record ips manager.egress
      { outside := { files, kernel } }).1 = .ok ⟨⟩) :
    (Manager.create document ({ outside := { files, kernel } }, manager)).1 = .ok id ↔
      staging id ∉ files := by
  have housed := housed_of_alive alive
  rcases admit_eq_ok admitted with ⟨number, parsed, _⟩
  have free : destination id ∉ files := by
    intro listed
    have small : id < 2 ^ 16 := number ▸ (id_lt_of_parse parsed).1
    have used := (housed.2 (destination id) listed id (Text.parseUnsigned_toString small)).2
    exact (allocate_fresh numbered).1 used
  have created := createWith_calm admitted free willing
  have run : (Manager.create document ({ outside := { files, kernel } }, manager)).1 =
      (createWith document id (calm files kernel 0, { manager with ids })).1 := by
    have allocated : Endpoint.manager (fun manager => manager.ids.allocate)
        (calm files kernel 0, manager) = (.ok (.ok (id, ids)), (calm files kernel 0, manager)) := by
      rw [← numbered]
      rfl
    have changed : change (fun manager => { manager with ids }) (calm files kernel 0, manager) =
        (.ok ⟨⟩, (calm files kernel 0, { manager with ids })) := rfl
    have begun : Manager.create document (calm files kernel 0, manager) =
        onError (releaseUnheld id) (createWith document id)
          (calm files kernel 0, { manager with ids }) := by
      unfold Manager.create
      rw [bind_of_ok allocated, bind_of_ok (ofExcept_ok _ _)]
      exact bind_of_ok changed
    change (Manager.create document (calm files kernel 0, manager)).1 = _
    rw [begun]
    exact onError_fst (fun _ => rfl) _ _
  rw [run, created]
  by_cases leftover : staging id ∈ files
  · rw [if_pos leftover]
    exact ⟨fun same => (nomatch same), fun absent => absurd leftover absent⟩
  · rw [if_neg leftover]
    exact ⟨fun _ => leftover, fun _ => rfl⟩

def podKernel : Kernel :=
  { links := (∅ : BTreeMap String Link).insert "lxc1" ⟨7, [2, 0, 0, 0, 0, 2]⟩ }

def stoppingWorld : World where
  outside := { kernel := podKernel }
  mishaps clock := if clock = 5 then some .stop else none

def leftFiles : Files :=
  (Manager.create podDocument (stoppingWorld, assignedManager)).2.1.outside.files

def restartedManager : Manager :=
  (Manager.restore smallIpam 10 .fib
    ({ outside := { files := leftFiles, kernel := podKernel } }, startedManager)).2.2

def readyManager : Manager :=
  { restartedManager with
    ipam := (restartedManager.ipam.allocate (.v4 0x0a000001) "web/one").2 }

def retry (machine : World × Manager) : Except (Halt String) Nat × World × Manager :=
  Manager.create podDocument machine

theorem create_blocked_by_leftover :
    (Manager.create podDocument (stoppingWorld, assignedManager)).1 = .error .stopped ∧
    (Manager.restore smallIpam 10 .fib
      ({ outside := { files := leftFiles, kernel := podKernel } }, startedManager)).1 = .ok ⟨⟩ ∧
    (readyManager.ids.allocate).toOption.map Prod.fst = some 1 ∧
    (retry ({ outside := { kernel := podKernel } }, readyManager)).1 = .ok 1 ∧
    (retry ({ outside := { files := leftFiles, kernel := podKernel } }, readyManager)).1 =
      .error (.error "File exists") ∧
    (retry (retry ({ outside := { files := leftFiles, kernel := podKernel } }, readyManager)).2).1 =
      .error (.error "File exists") := by
  decide +kernel

def restartedOutside : Outside :=
  (Manager.restore smallIpam 10 .fib
    ({ outside := { files := leftFiles, kernel := podKernel } }, startedManager)).2.1.outside

def numberedManager : Manager :=
  { readyManager with ids := { readyManager.ids with used := readyManager.ids.used.insert 1 } }

theorem alive_readyManager : Alive restartedOutside readyManager := by
  have restarted : Alive restartedOutside restartedManager :=
    .restarted startedManager { outside := { files := leftFiles, kernel := podKernel } }
      smallIpam 10
      .fib made_smallIpam (by decide +kernel)
  exact restarted.pooled (.allocate restartedManager (.v4 0x0a000001) "web/one")

theorem readyManager_create_iff :
    ∃ record ips, numberedManager.admit podDocument 1 = .ok (record, ips) ∧
      ((Manager.create podDocument ({ outside := restartedOutside }, readyManager)).1 = .ok 1 ↔
        staging 1 ∉ restartedOutside.files) := by
  have lowest : readyManager.ids.lowest = some 1 := by decide +kernel
  have numbered : readyManager.ids.allocate = .ok (1, numberedManager.ids) := by
    rw [IdPool.allocate, lowest]
    rfl
  have willing : Option.any (fun admitted => decide
      ((kernelSteps admitted.1 admitted.2 readyManager.egress { outside := restartedOutside }).1 =
        .ok ⟨⟩)) (Except.toOption <| numberedManager.admit podDocument 1) = true := by
    decide +kernel
  cases admitted : numberedManager.admit podDocument 1 with
  | error error =>
      rw [admitted] at willing
      cases willing
  | ok found =>
      rw [admitted] at willing
      exact ⟨found.1, found.2, rfl, create_succeeds_iff_unstaged alive_readyManager numbered
        admitted (of_decide_eq_true willing)⟩

end FlowSdn.Endpoint
