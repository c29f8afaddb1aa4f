import FlowSdn.Agent.Routes
import FlowSdn.Foundation.Fallible

/-! # The loop that owns the direct routes

The agent remembers the routes it has installed, in memory and in a file. The kernel and the
file system answer every call with success or failure, and the process stops where the answers
end. Sets are lists here: nothing depends on their order.
-/

namespace FlowSdn.Agent.Routes

open Net Fallible

abbrev Key := IpAddr × U8 × IpAddr

def key (route : DesiredRoute) : Key := (route.destination, route.prefixLength, route.gateway)

inductive Reply
  | done
  | other
  | failed
  deriving DecidableEq

inductive Refusal
  | lookup
  | unreachable
  | listing
  | conflict
  | save
  | replace
  | delete
  deriving DecidableEq

/-- The routes in memory, in the file and in the kernel, and the answers to come: those of the
kernel, and those to the saves before an installation. -/
structure World where
  installed : List Key
  file : List Key
  kernel : List Key
  netlink : List Reply := []
  saves : List Reply := []
  deriving DecidableEq

abbrev Program := Fallible World Refusal

def kernelReply : Program Reply := fun world =>
  match world.netlink with
  | [] => (.error .stopped, world)
  | reply :: rest => (.ok reply, { world with netlink := rest })

/-- The file is replaced by renaming a complete one, so a save that fails leaves it. -/
def saveRoutes : Program PUnit := fun world =>
  match world.saves with
  | [] => (.error .stopped, world)
  | .done :: rest => (.ok ⟨⟩, { world with saves := rest, file := world.installed })
  | _ :: rest => (.error (.error .save), { world with saves := rest })

/-- A route is saved only when the memory did not have it. -/
def remember (key : Key) : Program PUnit := do
  let known ← view fun world => decide (key ∈ world.installed)
  modify fun world => { world with installed := world.installed.insert key }
  if known then pure ⟨⟩ else saveRoutes

def replaceGatewayRoute (key : Key) : Program PUnit := do
  match ← kernelReply with
  | .done => modify fun world => { world with kernel := world.kernel.insert key }
  | _ => fail .replace

def install (skipUnreachable : Bool) (key : Key) : Program PUnit := do
  match ← kernelReply with
  | .failed => fail .lookup
  | .other => if skipUnreachable then pure ⟨⟩ else fail .unreachable
  | .done => do
      match ← kernelReply with
      | .failed => fail .listing
      | .other => fail .conflict
      | .done => do
          remember key
          replaceGatewayRoute key

def deleteStale (key : Key) : Program PUnit := do
  match ← kernelReply with
  | .done => modify fun world => { world with
      installed := world.installed.filter (· ≠ key), kernel := world.kernel.filter (· ≠ key) }
  | _ => fail .delete

/-- The failure of one route is reported, and the others go on. -/
def reported (program : Program PUnit) : Program PUnit := do
  let _ ← attempt program
  pure ⟨⟩

/-- The save that ends a round, unless the process stops before it. -/
def closeRound (closing : Option Reply) : Program PUnit := fun world =>
  match closing with
  | none => (.error .stopped, world)
  | some .done => (.ok ⟨⟩, { world with file := world.installed })
  | some _ => (.ok ⟨⟩, world)

def reconcile (skipUnreachable : Bool) (desired : List DesiredRoute) (closing : Option Reply) :
    Program PUnit := do
  let stale ← view fun world => world.installed.filter (· ∉ desired.map key)
  stale.forM fun key => reported (deleteStale key)
  desired.forM fun route => reported (install skipUnreachable (key route))
  closeRound closing

inductive Event
  | start (readable : Bool)
  | round (desired : List DesiredRoute) (netlink saves : List Reply) (closing : Option Reply)

abbrev System := World × Bool

def step (skipUnreachable : Bool) (system : System) : Event → System
  | .start readable =>
      ({ system.1 with installed := if readable then system.1.file else [] }, true)
  | .round desired netlink saves closing =>
      if ¬system.2 then system
      else
        let ended := reconcile skipUnreachable desired closing { system.1 with netlink, saves }
        (ended.2, ended.1 != .error .stopped)

def run (skipUnreachable : Bool) (system : System) (events : List Event) : System :=
  events.foldl (step skipUnreachable) system

def Recorded (world : World) : Prop := ∀ key ∈ world.kernel, key ∈ world.file

/-! ## What a program keeps -/

/-- The memory lies between the kernel and the file, and no save is going to fail. -/
structure Backed (world : World) : Prop where
  owned : ∀ key ∈ world.kernel, key ∈ world.installed
  written : ∀ key ∈ world.installed, key ∈ world.file
  saves : ∀ reply ∈ world.saves, reply = .done

theorem Backed.recorded {world : World} (backed : Backed world) : Recorded world :=
  fun key member => backed.written key (backed.owned key member)

/-- Where a program stops, the routes are recorded; otherwise the memory is backed again. -/
def Left (result : Except (Halt Refusal) α) (world : World) : Prop :=
  Recorded world ∧ (result ≠ .error .stopped → Backed world)

def Sound (program : Program α) : Prop := Triple Backed program Left

variable {world : World}

theorem Backed.left (backed : Backed world) (result : Except (Halt Refusal) α) :
    Left result world :=
  ⟨backed.recorded, fun _ => backed⟩

theorem Sound.bind {program : Program α} {next : α → Program β} (first : Sound program)
    (rest : ∀ value, Sound (next value)) : Sound (program >>= next) := by
  refine Triple.bind first ?_ fun value => (rest value).strengthen fun _ left => left.2 nofun
  intro halt world left
  exact ⟨left.1, fun going => left.2 fun same => going (by cases same; rfl)⟩

theorem Sound.fail (error : Refusal) : Sound (fail error : Program α) :=
  fun _ backed => backed.left _

theorem Sound.pure (value : α) : Sound (pure value : Program α) := fun _ backed => backed.left _

theorem Sound.reported {program : Program PUnit} (sound : Sound program) :
    Sound (reported program) := by
  refine .bind (Triple.attempt sound (fun _ left => ⟨left.1, nofun⟩) ?_ ?_) fun _ => .pure _
  · exact fun _ _ left => (left.2 nofun).left _
  · exact fun _ _ left => (left.2 nofun).left _

theorem Sound.forM {items : List α} {program : α → Program PUnit}
    (sound : ∀ item, Sound (program item)) : Sound (items.forM program) := by
  induction items with
  | nil => exact .pure _
  | cons head items induction => exact .bind (sound head) fun _ => induction

theorem sound_kernelReply : Sound kernelReply := by
  intro world backed
  unfold kernelReply
  split
  · exact backed.left _
  · next rest _ =>
      have next : Backed { world with netlink := rest } :=
        ⟨backed.owned, backed.written, backed.saves⟩
      exact next.left _

theorem remember_spec (key : Key) : Triple Backed (remember key) fun result world =>
    Left result world ∧ (result = .ok ⟨⟩ → key ∈ world.installed) := by
  intro world backed
  have ran : remember key world =
      (if decide (key ∈ world.installed) = true then pure ⟨⟩ else saveRoutes : Program PUnit)
        { world with installed := world.installed.insert key } := rfl
  rw [ran]
  by_cases known : key ∈ world.installed
  · rw [if_pos (decide_eq_true known), List.insert_of_mem known]
    exact ⟨backed.left _, fun _ => known⟩
  · rw [if_neg (mt of_decide_eq_true known), saveRoutes]
    cases saves : world.saves with
    | nil => exact ⟨⟨backed.recorded, fun going => absurd rfl going⟩, nofun⟩
    | cons reply rest =>
        have accepted := backed.saves
        rw [saves] at accepted
        cases accepted reply List.mem_cons_self
        have next : Backed { world with
            installed := world.installed.insert key, file := world.installed.insert key,
            saves := rest } :=
          ⟨fun other member => List.mem_insert_of_mem (backed.owned other member),
            fun _ member => member,
            fun found member => accepted found (List.mem_cons_of_mem _ member)⟩
        exact ⟨next.left _, fun _ => List.mem_insert_self⟩

theorem sound_deleteStale (key : Key) : Sound (deleteStale key) := by
  refine .bind sound_kernelReply fun reply => ?_
  cases reply with
  | other => exact .fail _
  | failed => exact .fail _
  | done =>
      intro world backed
      have next : Backed { world with
          installed := world.installed.filter (· ≠ key),
          kernel := world.kernel.filter (· ≠ key) } := by
        refine ⟨fun other member => ?_, fun other member => ?_, backed.saves⟩
        · have kept := List.mem_filter.mp member
          exact List.mem_filter.mpr ⟨backed.owned other kept.1, kept.2⟩
        · exact backed.written other (List.mem_of_mem_filter member)
      exact next.left _

theorem replaceGatewayRoute_spec (key : Key) :
    Triple (fun world => Backed world ∧ key ∈ world.installed) (replaceGatewayRoute key) Left := by
  rintro world ⟨backed, known⟩
  simp only [replaceGatewayRoute, bind_run, kernelReply]
  cases world.netlink with
  | nil => exact backed.left _
  | cons reply rest =>
      have next : Backed { world with netlink := rest } :=
        ⟨backed.owned, backed.written, backed.saves⟩
      cases reply with
      | other => exact next.left _
      | failed => exact next.left _
      | done =>
          have added : Backed { world with
              netlink := rest, kernel := world.kernel.insert key } := by
            refine ⟨fun other member => ?_, backed.written, backed.saves⟩
            rcases List.mem_insert_iff.mp member with rfl | member
            · exact known
            · exact backed.owned other member
          exact added.left _

theorem sound_install (skipUnreachable : Bool) (key : Key) :
    Sound (install skipUnreachable key) := by
  refine .bind sound_kernelReply fun reply => ?_
  cases reply with
  | failed => exact .fail _
  | other => cases skipUnreachable <;> first | exact .fail _ | exact .pure _
  | done =>
      refine .bind sound_kernelReply fun reply => ?_
      cases reply with
      | failed => exact .fail _
      | other => exact .fail _
      | done =>
          refine Triple.bind (remember_spec key) (fun halt world left => ?_) fun _ => ?_
          · exact ⟨left.1.1, fun going => left.1.2 fun same => going (by cases same; rfl)⟩
          · exact (replaceGatewayRoute_spec key).strengthen
              fun world left => ⟨left.1.2 nofun, left.2 rfl⟩

theorem sound_reconcile (skipUnreachable : Bool) (desired : List DesiredRoute)
    (closing : Option Reply) : Sound (reconcile skipUnreachable desired closing) := by
  refine .bind (fun _ backed => backed.left _) fun stale => ?_
  refine .bind (.forM fun key => (sound_deleteStale key).reported) fun _ => ?_
  refine .bind (.forM fun route => (sound_install skipUnreachable (key route)).reported) fun _ => ?_
  intro world backed
  have saved : Backed { world with file := world.installed } :=
    ⟨backed.owned, fun _ member => member, backed.saves⟩
  rcases closing with _ | _ | _ | _
  · exact backed.left _
  · exact saved.left _
  · exact backed.left _
  · exact backed.left _

/-! ## Runs -/

/-- The file can be read at a start, and no save before an installation fails. -/
def Event.Persists : Event → Prop
  | .start readable => readable = true
  | .round _ _ saves _ => ∀ reply ∈ saves, reply = .done

def Kept (system : System) : Prop :=
  Recorded system.1 ∧ (system.2 = true →
    (∀ key ∈ system.1.kernel, key ∈ system.1.installed) ∧
      ∀ key ∈ system.1.installed, key ∈ system.1.file)

theorem Kept.step {system : System} (kept : Kept system) (skipUnreachable : Bool) {event : Event}
    (persists : event.Persists) : Kept (step skipUnreachable system event) := by
  cases event with
  | start readable =>
      cases persists
      exact ⟨kept.1, fun _ => ⟨kept.1, fun _ member => member⟩⟩
  | round desired netlink saves closing =>
      by_cases running : system.2 = true
      · rcases kept.2 running with ⟨owned, written⟩
        have left := sound_reconcile skipUnreachable desired closing
          { system.1 with netlink, saves } ⟨owned, written, persists⟩
        rw [Routes.step, if_neg (not_not.mpr running)]
        refine ⟨left.1, fun going => ?_⟩
        have backed := left.2 (by simpa using going)
        exact ⟨backed.owned, backed.written⟩
      · rw [Routes.step, if_pos running]
        exact kept

/-- From an agent that has installed nothing, whatever fails apart from reading the file and
saving before an installation, and wherever the process stops. -/
theorem routes_recorded (skipUnreachable : Bool) (file : List Key) (events : List Event)
    (persists : ∀ event ∈ events, event.Persists) :
    Recorded (run skipUnreachable ({ installed := [], file, kernel := [] }, false) events).1 := by
  have kept : ∀ system, Kept system → Kept (run skipUnreachable system events) := by
    induction events with
    | nil => exact fun _ kept => kept
    | cons event events induction =>
        rw [List.forall_mem_cons] at persists
        exact fun system kept => induction persists.2 _ (kept.step skipUnreachable persists.1)
  exact (kept _ ⟨by simp [Recorded], by simp⟩).1

def sample : DesiredRoute := ⟨.v4 0x0a070000, 16, .v4 0xc0a80307, "c"⟩

theorem routes_recorded_sample :
    let events := [.start true, .round [sample] [.done, .done, .done] [.done] none]
    (run false ({ installed := [], file := [], kernel := [] }, false) events).1.kernel =
        [key sample] ∧
      Recorded (run false ({ installed := [], file := [], kernel := [] }, false) events).1 :=
  ⟨by decide, routes_recorded false [] _ (by simp [Event.Persists])⟩

/-- The save fails and the route is not installed, but the memory keeps it: the next round
installs it without a save. -/
theorem installed_unsaved :
    ¬Recorded (run false ({ installed := [], file := [], kernel := [] }, false)
      [.start true, .round [sample] [.done, .done] [.failed] (some .failed),
        .round [sample] [.done, .done, .done] [] none]).1 :=
  fun recorded => absurd (recorded (key sample) (by decide)) (by decide)

end FlowSdn.Agent.Routes
