import FlowSdn.Foundation.FiniteMap
import FlowSdn.Net.Address

/-! # The acknowledgement barrier of a proxy

An endpoint is regenerated only after the proxy has acknowledged every resource the new
policy needs. The clock is the caller's: every method is told the time.
-/

namespace FlowSdn.Proxy

open OrderedMap
open Net

inductive State
  | pending
  | ready
  | committed
  | rejected
  | timedOut
  | cancelled
  deriving DecidableEq

inductive Error
  | invalidRequirement
  | invalidResponse
  | terminal
  | notReady
  | epochExhausted
  deriving DecidableEq

structure CommitPermit where
  attempt : U64
  policyRevision : U64
  deriving DecidableEq

structure Observation where
  node : IpAddr
  epoch : U64
  kind : String
  nonce : U64
  version : U64
  nack : Bool
  deriving DecidableEq

structure Barrier where
  node : IpAddr
  attempt : U64
  policyRevision : U64
  deadline : U64
  epoch : U64
  required : BTreeMap String U64
  sent : BTreeMap String U64
  acked : BTreeSet String
  state : State

def new (node : IpAddr) (attempt policyRevision deadline : U64) (required : BTreeMap String U64) :
    Except Error Barrier :=
  if required.isEmpty || required.toList.any (fun entry => entry.1.isEmpty || entry.2 == 0) then
    .error .invalidRequirement
  else
    .ok
      { node, attempt, policyRevision, deadline, epoch := 0, required, sent := ∅, acked := ∅,
        state := .pending }

def Barrier.Open (barrier : Barrier) : Prop :=
  barrier.state = .pending ∨ barrier.state = .ready

instance (barrier : Barrier) : Decidable barrier.Open :=
  inferInstanceAs (Decidable (_ ∨ _))

def live (now : U64) (barrier : Barrier) : Except Error Unit × Barrier :=
  if ¬barrier.Open then
    (.error .terminal, barrier)
  else if barrier.deadline ≤ now then
    (.error .terminal, { barrier with state := .timedOut })
  else
    (.ok ⟨⟩, barrier)

/-- What follows the check that the barrier is live. -/
def whenLive (now : U64) (barrier : Barrier) (next : Except Error α × Barrier) :
    Except Error α × Barrier :=
  match live now barrier with
  | (.error error, left) => (.error error, left)
  | (.ok _, _) => next

def sent (kind : String) (version now : U64) (barrier : Barrier) : Except Error Unit × Barrier :=
  whenLive now barrier <|
    match barrier.required[kind]? with
    | none => (.error .invalidResponse, barrier)
    | some minimum =>
        if version < minimum ∨ ((barrier.sent[kind]?).any fun old => decide (version ≤ old)) then
          (.error .invalidResponse, barrier)
        else
          (.ok ⟨⟩,
            { barrier with
              sent := barrier.sent.insert kind version
              acked := barrier.acked.erase kind
              state := .pending })

def observe (event : Observation) (now : U64) (barrier : Barrier) : Except Error Bool × Barrier :=
  whenLive now barrier <|
    if event.node ≠ barrier.node ∨ event.epoch ≠ barrier.epoch ∨
        barrier.sent[event.kind]? ≠ some event.nonce then
      (.ok false, barrier)
    else if event.nonce < event.version then
      (.error .invalidResponse, { barrier with state := .rejected })
    else if event.nack ∨ event.version < event.nonce then
      (.ok true, { barrier with state := .rejected })
    else
      let acked := barrier.acked.insert event.kind
      (.ok true,
        { barrier with
          acked
          state := if acked.size = barrier.required.size then .ready else barrier.state })

def reconnect (now : U64) (barrier : Barrier) : Except Error U64 × Barrier :=
  whenLive now barrier <|
    if barrier.epoch.toNat + 1 < 2 ^ 64 then
      (.ok (barrier.epoch + 1),
        { barrier with
          epoch := barrier.epoch + 1
          sent := ∅
          acked := ∅
          state := .pending })
    else
      (.error .epochExhausted, barrier)

def cancel (barrier : Barrier) : Barrier :=
  if barrier.Open then { barrier with state := .cancelled } else barrier

def commit (now : U64) (barrier : Barrier) : Except Error CommitPermit × Barrier :=
  whenLive now barrier <|
    if barrier.state ≠ .ready then
      (.error .notReady, barrier)
    else
      (.ok ⟨barrier.attempt, barrier.policyRevision⟩, { barrier with state := .committed })

/-! ## Histories

A caller may call the methods in any order and at any times. A history keeps every call with
its answer, the latest first.
-/

inductive Call
  | sent (kind : String) (version now : U64)
  | observe (event : Observation) (now : U64)
  | reconnect (now : U64)
  | cancel
  | commit (now : U64)
  deriving DecidableEq

inductive Answer
  | sent
  | observed (current : Bool)
  | reconnected (epoch : U64)
  | cancelled
  | granted (permit : CommitPermit)
  | refused (error : Error)
  deriving DecidableEq

structure Entry where
  call : Call
  answer : Answer
  deriving DecidableEq

def answered (answer : α → Answer) : Except Error α × Barrier → Answer × Barrier
  | (.ok value, barrier) => (answer value, barrier)
  | (.error error, barrier) => (.refused error, barrier)

def perform (barrier : Barrier) : Call → Answer × Barrier
  | .sent kind version now => answered (fun _ => .sent) (sent kind version now barrier)
  | .observe event now => answered .observed (observe event now barrier)
  | .reconnect now => answered .reconnected (reconnect now barrier)
  | .cancel => (.cancelled, cancel barrier)
  | .commit now => answered .granted (commit now barrier)

def record (past : List Entry × Barrier) (call : Call) : List Entry × Barrier :=
  (⟨call, (perform past.2 call).1⟩ :: past.1, (perform past.2 call).2)

def run (barrier : Barrier) (calls : List Call) : List Entry × Barrier :=
  calls.foldl record ([], barrier)

namespace Entry

def sends (kind : String) : Entry → Bool
  | ⟨.sent other _ _, .sent⟩ => other = kind
  | _ => false

def reconnects : Entry → Bool
  | ⟨.reconnect _, .reconnected _⟩ => true
  | _ => false

/-- An answer to the response outstanding has been an error, or not for its version. -/
def rejects : Entry → Bool
  | ⟨.observe _ _, .refused .invalidResponse⟩ => true
  | ⟨.observe event _, .observed true⟩ => event.nack || event.version ≠ event.nonce
  | _ => false

def grants : Entry → Bool
  | ⟨.commit _, .granted _⟩ => true
  | _ => false

/-- An entry that says nothing about responses, epochs, rejections or permits. -/
structure Quiet (entry : Entry) : Prop where
  sends : ∀ kind, entry.sends kind = false
  reconnects : entry.reconnects = false
  rejects : entry.rejects = false
  grants : entry.grants = false

end Entry

/-- The entries after the latest response of the kind that was sent in this epoch. -/
def Since (kind : String) (version : U64) (later history : List Entry) : Prop :=
  (∃ now earlier, history = later ++ ⟨.sent kind version now, .sent⟩ :: earlier) ∧
    ∀ entry ∈ later, entry.sends kind = false ∧ entry.reconnects = false

/-- One of the entries acknowledges the version, in time. -/
def Acknowledged (node : IpAddr) (epoch : Nat) (deadline : U64) (kind : String) (version : U64)
    (later : List Entry) : Prop :=
  ∃ event now, ⟨.observe event now, .observed true⟩ ∈ later ∧ now < deadline ∧
    event.node = node ∧ event.epoch.toNat = epoch ∧ event.kind = kind ∧
    event.nonce = version ∧ event.version = version ∧ event.nack = false

/-- What a permit that is granted after a history rests on. -/
structure Justified (created : Barrier) (now : U64) (permit : CommitPermit)
    (history : List Entry) : Prop where
  permit : permit = ⟨created.attempt, created.policyRevision⟩
  inTime : now < created.deadline
  acknowledged : ∀ kind minimum, created.required[kind]? = some minimum →
    ∃ version later, minimum ≤ version ∧ Since kind version later history ∧
      Acknowledged created.node (history.countP Entry.reconnects) created.deadline kind version
        later
  calm : ∀ entry ∈ history, entry.rejects = false ∧ entry.grants = false

/-! ## Moves -/

inductive Move (barrier : Barrier) : Entry → Barrier → Prop
  | stay {entry : Entry} (quiet : entry.Quiet) : Move barrier entry barrier
  | close {entry : Entry} {state : State} (sends : ∀ kind, entry.sends kind = false)
      (reconnects : entry.reconnects = false) (grants : entry.grants = false)
      (pending : state ≠ .pending) (ready : state ≠ .ready) :
      Move barrier entry { barrier with state := state }
  | register {kind : String} {version now minimum : U64} (opened : barrier.Open)
      (needed : barrier.required[kind]? = some minimum) (least : minimum ≤ version) :
      Move barrier ⟨.sent kind version now, .sent⟩
        { barrier with
          sent := barrier.sent.insert kind version
          acked := barrier.acked.erase kind
          state := .pending }
  | acknowledge {event : Observation} {now : U64}
      (opened : barrier.Open) (inTime : now < barrier.deadline)
      (node : event.node = barrier.node) (epoch : event.epoch = barrier.epoch)
      (outstanding : barrier.sent[event.kind]? = some event.nonce)
      (version : event.version = event.nonce) (accepted : event.nack = false) :
      Move barrier ⟨.observe event now, .observed true⟩
        { barrier with
          acked := barrier.acked.insert event.kind
          state := if (barrier.acked.insert event.kind).size = barrier.required.size then .ready
            else barrier.state }
  | reconnect {now : U64} (opened : barrier.Open) (fits : barrier.epoch.toNat + 1 < 2 ^ 64) :
      Move barrier ⟨.reconnect now, .reconnected (barrier.epoch + 1)⟩
        { barrier with epoch := barrier.epoch + 1, sent := ∅, acked := ∅, state := .pending }
  | grant {now : U64} (ready : barrier.state = .ready) (inTime : now < barrier.deadline) :
      Move barrier ⟨.commit now, .granted ⟨barrier.attempt, barrier.policyRevision⟩⟩
        { barrier with state := .committed }

theorem quiet_terminal (call : Call) : Entry.Quiet ⟨call, .refused .terminal⟩ := by
  cases call <;> exact ⟨fun _ => rfl, rfl, rfl, rfl⟩

variable {now : U64} {created : Barrier}

/-- A method behind the check is refused, or goes on in an open barrier before its deadline. -/
theorem move_whenLive {barrier : Barrier} {call : Call} {answer : α → Answer}
    {next : Except Error α × Barrier}
    (moves : barrier.Open → now < barrier.deadline →
      Move barrier ⟨call, (answered answer next).1⟩ (answered answer next).2) :
    Move barrier ⟨call, (answered answer (whenLive now barrier next)).1⟩
      (answered answer (whenLive now barrier next)).2 := by
  have quiet := quiet_terminal call
  unfold whenLive live
  by_cases opened : barrier.Open
  · rw [if_neg (not_not.mpr opened)]
    by_cases late : barrier.deadline ≤ now
    · rw [if_pos late]
      exact .close quiet.sends quiet.reconnects quiet.grants (by decide) (by decide)
    · rw [if_neg late]
      exact moves opened (BitVec.not_le.mp late)
  · rw [if_pos opened]
    exact .stay quiet

theorem move_perform (barrier : Barrier) (call : Call) :
    Move barrier ⟨call, (perform barrier call).1⟩ (perform barrier call).2 := by
  cases call with
  | sent kind version now =>
      refine move_whenLive fun opened _ => ?_
      cases needed : barrier.required[kind]? with
      | none => exact .stay ⟨fun _ => rfl, rfl, rfl, rfl⟩
      | some minimum =>
          dsimp only
          split_ifs with refused
          · exact .stay ⟨fun _ => rfl, rfl, rfl, rfl⟩
          · exact .register opened needed (BitVec.not_lt.mp fun below => refused (.inl below))
  | observe event now =>
      refine move_whenLive fun opened inTime => ?_
      split_ifs with stale later refused
      · exact .stay ⟨fun _ => rfl, rfl, rfl, rfl⟩
      · exact .close (fun _ => rfl) rfl rfl (by decide) (by decide)
      · exact .close (fun _ => rfl) rfl rfl (by decide) (by decide)
      · have current : event.node = barrier.node ∧ event.epoch = barrier.epoch ∧
            barrier.sent[event.kind]? = some event.nonce := by
          simpa only [not_or, not_not] using stale
        have accepted : event.nack = false := by
          simpa using fun nack => refused (.inl nack)
        have version : event.version = event.nonce :=
          BitVec.le_antisymm (BitVec.not_lt.mp later)
            (BitVec.not_lt.mp fun below => refused (.inr below))
        exact .acknowledge opened inTime current.1 current.2.1 current.2.2 version accepted
  | reconnect now =>
      refine move_whenLive fun opened _ => ?_
      split_ifs with fits
      · exact .reconnect opened fits
      · exact .stay ⟨fun _ => rfl, rfl, rfl, rfl⟩
  | cancel =>
      change Move barrier ⟨.cancel, .cancelled⟩ (cancel barrier)
      unfold cancel
      split_ifs with opened
      · exact .close (fun _ => rfl) rfl rfl (by decide) (by decide)
      · exact .stay ⟨fun _ => rfl, rfl, rfl, rfl⟩
  | commit now =>
      refine move_whenLive fun _ inTime => ?_
      split_ifs with unready
      · exact .stay ⟨fun _ => rfl, rfl, rfl, rfl⟩
      · exact .grant (not_not.mp unready) inTime

/-! ## What a barrier remembers of its history -/

def Barrier.terms (barrier : Barrier) : IpAddr × U64 × U64 × U64 × BTreeMap String U64 :=
  (barrier.node, barrier.attempt, barrier.policyRevision, barrier.deadline, barrier.required)

variable {barrier next : Barrier} {history : List Entry} {entry : Entry}
  {required : BTreeMap String U64}

theorem Move.terms (move : Move barrier entry next) : next.terms = barrier.terms := by
  cases move <;> rfl

/-- The response outstanding for a kind is the latest in the history, and the barrier takes it
for acknowledged only if the history says so. -/
structure Outstanding (barrier : Barrier) (history : List Entry) (kind : String) (version : U64) :
    Prop where
  needed : ∃ minimum, barrier.required[kind]? = some minimum ∧ minimum ≤ version
  since : ∃ later, Since kind version later history ∧
    (kind ∈ barrier.acked →
      Acknowledged barrier.node barrier.epoch.toNat barrier.deadline kind version later)

structure Tracks (barrier : Barrier) (history : List Entry) : Prop where
  epoch : barrier.epoch.toNat = history.countP Entry.reconnects
  sent : ∀ kind version, barrier.sent[kind]? = some version →
    Outstanding barrier history kind version
  acked : ∀ kind ∈ barrier.acked, kind ∈ barrier.sent
  ready : barrier.state = .ready → ∀ kind ∈ barrier.required, kind ∈ barrier.acked
  calm : barrier.Open → ∀ entry ∈ history, entry.rejects = false ∧ entry.grants = false

theorem Since.cons {kind : String} {version : U64} {later : List Entry}
    (since : Since kind version later history) (sends : entry.sends kind = false)
    (reconnects : entry.reconnects = false) :
    Since kind version (entry :: later) (entry :: history) := by
  rcases since with ⟨⟨now, earlier, same⟩, quiet⟩
  exact ⟨⟨now, earlier, by rw [same, List.cons_append]⟩,
    List.forall_mem_cons.mpr ⟨⟨sends, reconnects⟩, quiet⟩⟩

/-- An entry that is no response of the kind leaves it outstanding, as long as the barrier
takes no more for acknowledged. -/
theorem Outstanding.cons {kind : String} {version : U64}
    (outstanding : Outstanding barrier history kind version)
    (terms : next.terms = barrier.terms) (epoch : next.epoch = barrier.epoch)
    (acked : kind ∈ next.acked → kind ∈ barrier.acked) (sends : entry.sends kind = false)
    (reconnects : entry.reconnects = false) : Outstanding next (entry :: history) kind version := by
  simp only [Barrier.terms, Prod.mk.injEq] at terms
  rcases terms with ⟨node, -, -, deadline, required⟩
  rcases outstanding.since with ⟨later, since, acknowledged⟩
  refine ⟨by rw [required]; exact outstanding.needed, entry :: later,
    since.cons sends reconnects, ?_⟩
  intro member
  rw [node, deadline, epoch]
  rcases acknowledged (acked member) with ⟨event, now, found, rest⟩
  exact ⟨event, now, List.mem_cons_of_mem _ found, rest⟩

section

variable (tracks : Tracks barrier history)

include tracks

theorem Tracks.epoch_cons (reconnects : entry.reconnects = false) :
    barrier.epoch.toNat = (entry :: history).countP Entry.reconnects := by
  rw [List.countP_cons_of_neg (by simp [reconnects]), tracks.epoch]

theorem Tracks.stay (quiet : entry.Quiet) : Tracks barrier (entry :: history) := by
  refine ⟨tracks.epoch_cons quiet.reconnects, ?_, tracks.acked, tracks.ready, ?_⟩
  · intro kind version found
    exact (tracks.sent kind version found).cons rfl rfl id (quiet.sends kind) quiet.reconnects
  · intro opened
    exact List.forall_mem_cons.mpr ⟨⟨quiet.rejects, quiet.grants⟩, tracks.calm opened⟩

theorem Tracks.close {state : State}
    (sends : ∀ kind, entry.sends kind = false) (reconnects : entry.reconnects = false)
    (pending : state ≠ .pending) (ready : state ≠ .ready) :
    Tracks { barrier with state := state } (entry :: history) := by
  refine ⟨tracks.epoch_cons reconnects, ?_, tracks.acked, fun same => absurd same ready, ?_⟩
  · intro kind version found
    exact (tracks.sent kind version found).cons rfl rfl id (sends kind) reconnects
  · rintro (same | same)
    · exact absurd same pending
    · exact absurd same ready

theorem Tracks.register {kind : String} {version minimum : U64} (opened : barrier.Open)
    (needed : barrier.required[kind]? = some minimum) (least : minimum ≤ version) :
    Tracks { barrier with
        sent := barrier.sent.insert kind version
        acked := barrier.acked.erase kind
        state := .pending }
      (⟨.sent kind version now, .sent⟩ :: history) := by
  refine ⟨tracks.epoch_cons rfl, ?_, ?_, nofun, fun _ =>
    List.forall_mem_cons.mpr ⟨⟨rfl, rfl⟩, tracks.calm opened⟩⟩
  · intro other found sent
    by_cases same : other = kind
    · subst same
      cases Option.some.inj (Std.ExtTreeMap.getElem?_insert_self.symm.trans sent)
      refine ⟨⟨minimum, needed, least⟩, [], ⟨⟨now, history, rfl⟩, by simp⟩, ?_⟩
      intro acked
      exact absurd acked (by simp)
    · have sent : barrier.sent[other]? = some found := by
        rw [← sent]
        exact (getElem?_insert_of_ne (Ne.symm same)).symm
      exact (tracks.sent other found sent).cons rfl rfl Std.ExtTreeSet.mem_of_mem_erase
        (decide_eq_false (Ne.symm same)) rfl
  · intro other acked
    exact Std.ExtTreeMap.mem_insert.mpr
      (.inr (tracks.acked other (Std.ExtTreeSet.mem_of_mem_erase acked)))

end

/-- A set of required kinds that is as large as the requirement is all of it. -/
theorem mem_of_size_eq {acked : BTreeSet String} (within : ∀ kind ∈ acked, kind ∈ required)
    (size : acked.size = required.size) : ∀ kind ∈ required, kind ∈ acked := by
  have subset : elements acked ⊆ keySet required := by
    intro kind member
    exact mem_keySet.mpr (within kind (mem_elements.mp member))
  have same : elements acked = keySet required := by
    refine Finset.eq_of_subset_of_card_le subset ?_
    rw [card_elements, card_keySet, size]
  intro kind member
  rw [← mem_elements, same]
  exact mem_keySet.mpr member

theorem Tracks.acknowledge {event : Observation} (tracks : Tracks barrier history)
    (opened : barrier.Open) (inTime : now < barrier.deadline)
    (node : event.node = barrier.node) (epoch : event.epoch = barrier.epoch)
    (outstanding : barrier.sent[event.kind]? = some event.nonce)
    (version : event.version = event.nonce) (accepted : event.nack = false) :
    Tracks { barrier with
        acked := barrier.acked.insert event.kind
        state := if (barrier.acked.insert event.kind).size = barrier.required.size then .ready
          else barrier.state }
      (⟨.observe event now, .observed true⟩ :: history) := by
  have sentAll : ∀ kind ∈ barrier.acked.insert event.kind, kind ∈ barrier.sent := by
    intro kind member
    rcases Std.ExtTreeSet.mem_insert.mp member with same | member
    · rw [← Std.LawfulEqOrd.eq_of_compare same]
      exact mem_of_getElem? outstanding
    · exact tracks.acked kind member
  refine ⟨tracks.epoch_cons rfl, ?_, sentAll, ?_, fun _ => List.forall_mem_cons.mpr
    ⟨⟨by simp [Entry.rejects, accepted, version], rfl⟩, tracks.calm opened⟩⟩
  · intro kind found sent
    by_cases same : kind = event.kind
    · subst same
      cases Option.some.inj (outstanding.symm.trans sent)
      rcases (tracks.sent _ _ outstanding).since with ⟨later, since, _⟩
      exact ⟨(tracks.sent _ _ outstanding).needed, _, since.cons rfl rfl, fun _ => ⟨event, now,
        List.mem_cons_self, inTime, node, congrArg _ epoch, rfl, rfl, version, accepted⟩⟩
    · refine (tracks.sent kind found sent).cons rfl rfl (fun acked => ?_) rfl rfl
      rcases Std.ExtTreeSet.mem_insert.mp acked with equal | acked
      · exact absurd (Std.LawfulEqOrd.eq_of_compare equal).symm same
      · exact acked
  · intro ready kind needed
    by_cases full : (barrier.acked.insert event.kind).size = barrier.required.size
    · refine mem_of_size_eq (fun other member => ?_) full kind needed
      rcases exists_of_mem (sentAll other member) with ⟨value, sent⟩
      rcases (tracks.sent other value sent).needed with ⟨minimum, needed, -⟩
      exact mem_of_getElem? needed
    · have before : barrier.state = .ready := by
        rw [← ready]
        exact (if_neg full).symm
      exact Std.ExtTreeSet.mem_insert.mpr (.inr (tracks.ready before kind needed))

theorem Tracks.reconnect (tracks : Tracks barrier history) (opened : barrier.Open)
    (fits : barrier.epoch.toNat + 1 < 2 ^ 64) :
    Tracks { barrier with epoch := barrier.epoch + 1, sent := ∅, acked := ∅, state := .pending }
      (⟨.reconnect now, .reconnected (barrier.epoch + 1)⟩ :: history) := by
  refine ⟨?_, ?_, ?_, nofun, fun _ =>
    List.forall_mem_cons.mpr ⟨⟨rfl, rfl⟩, tracks.calm opened⟩⟩
  · rw [List.countP_cons_of_pos rfl, ← tracks.epoch, BitVec.toNat_add]
    exact Nat.mod_eq_of_lt fits
  · intro kind version sent
    exact absurd sent (by simp)
  · intro kind acked
    exact absurd acked (by simp)

theorem Move.tracks (move : Move barrier entry next) (tracks : Tracks barrier history) :
    Tracks next (entry :: history) := by
  cases move with
  | stay quiet => exact tracks.stay quiet
  | close sends reconnects _ pending ready => exact tracks.close sends reconnects pending ready
  | register opened needed least => exact tracks.register opened needed least
  | acknowledge opened inTime node epoch outstanding version accepted =>
      exact tracks.acknowledge opened inTime node epoch outstanding version accepted
  | reconnect opened fits => exact tracks.reconnect opened fits
  | grant ready inTime => exact tracks.close (fun _ => rfl) rfl (by decide) (by decide)

/-- A ready barrier has what a permit rests on in its history. -/
theorem Tracks.justified (tracks : Tracks barrier history)
    (terms : barrier.terms = created.terms) (ready : barrier.state = .ready)
    (inTime : now < barrier.deadline) :
    Justified created now ⟨barrier.attempt, barrier.policyRevision⟩ history := by
  simp only [Barrier.terms, Prod.mk.injEq] at terms
  rcases terms with ⟨node, attempt, revision, deadline, required⟩
  refine ⟨by rw [attempt, revision], deadline ▸ inTime, ?_, tracks.calm (.inr ready)⟩
  intro kind minimum needed
  rw [← required] at needed
  have acked : kind ∈ barrier.acked := tracks.ready ready kind (mem_of_getElem? needed)
  rcases exists_of_mem (tracks.acked kind acked) with ⟨version, sent⟩
  rcases tracks.sent kind version sent with ⟨⟨least, found, order⟩, later, since, acknowledged⟩
  cases Option.some.inj (needed.symm.trans found)
  refine ⟨version, later, order, since, ?_⟩
  rw [← node, ← deadline, ← tracks.epoch]
  exact acknowledged acked

/-! ## Runs -/

def AllJustified (created : Barrier) (history : List Entry) : Prop :=
  ∀ later now permit earlier, history = later ++ ⟨.commit now, .granted permit⟩ :: earlier →
    Justified created now permit earlier

structure Sound (created : Barrier) (past : List Entry × Barrier) : Prop where
  terms : past.2.terms = created.terms
  tracks : Tracks past.2 past.1
  justified : AllJustified created past.1

theorem Move.justified (move : Move barrier entry next)
    (sound : Sound created (history, barrier)) : AllJustified created (entry :: history) := by
  intro later now permit earlier same
  cases later with
  | nil =>
      rcases List.cons.inj same with ⟨first, rest⟩
      subst rest first
      cases move with
      | stay quiet => cases quiet.grants
      | close _ _ grants => cases grants
      | grant ready inTime => exact sound.tracks.justified sound.terms ready inTime
  | cons head later =>
      exact sound.justified later now permit earlier (List.cons.inj same).2

theorem sound_record {past : List Entry × Barrier} (sound : Sound created past)
    (call : Call) : Sound created (record past call) :=
  have move := move_perform past.2 call
  ⟨move.terms.trans sound.terms, move.tracks sound.tracks, move.justified sound⟩

theorem sound_foldl (calls : List Call) (past : List Entry × Barrier)
    (sound : Sound created past) : Sound created (calls.foldl record past) := by
  induction calls generalizing past with
  | nil => exact sound
  | cons call calls induction => exact induction _ (sound_record sound call)

theorem sound_new {node : IpAddr} {attempt policyRevision deadline : U64}
    (accepted : new node attempt policyRevision deadline required = .ok created) :
    Sound created ([], created) := by
  rw [new] at accepted
  split_ifs at accepted
  cases accepted
  refine ⟨rfl, ⟨rfl, ?_, ?_, nofun, by simp⟩, ?_⟩
  · intro kind version sent
    exact absurd sent (by simp)
  · intro kind acked
    exact absurd acked (by simp)
  · intro later now permit earlier same
    simp at same

/-- Of two permits the later would not be the first. -/
theorem AllJustified.pairwise (justified : AllJustified created history) :
    history.Pairwise fun later earlier => ¬(later.grants ∧ earlier.grants) := by
  induction history with
  | nil => exact List.Pairwise.nil
  | cons entry history induction =>
      refine List.pairwise_cons.mpr ⟨?_, induction fun later now permit earlier same => ?_⟩
      · rintro earlier member ⟨latest, grants⟩
        unfold Entry.grants at latest
        split at latest
        · next now permit =>
            rw [((justified [] now permit history rfl).calm earlier member).2] at grants
            cases grants
        · cases latest
      · exact justified (entry :: later) now permit earlier (congrArg (entry :: ·) same)

/-- Whatever is called, every permit rests on an acknowledgement of the latest response of each
required kind in the current epoch, and there is at most one permit. -/
theorem permits_justified (node : IpAddr) (attempt policyRevision deadline : U64)
    (required : BTreeMap String U64) (created : Barrier)
    (accepted : new node attempt policyRevision deadline required = .ok created)
    (calls : List Call) :
    AllJustified created (run created calls).1 ∧
      (run created calls).1.Pairwise fun later earlier => ¬(later.grants ∧ earlier.grants) := by
  have justified : AllJustified created (run created calls).1 :=
    (sound_foldl calls ([], created) (sound_new accepted)).justified
  exact ⟨justified, justified.pairwise⟩

/-- Clusters and listeners. -/
def twoKinds : BTreeMap String U64 := ((∅ : BTreeMap String U64).insert "cds" 3).insert "lds" 5

/-- A barrier for two kinds. The first response of one is superseded before it is acknowledged, so
the permit waits for a second acknowledgement of this kind after the one of the other. -/
def clusters : Barrier :=
  { node := .v4 0x0a000001, attempt := 1, policyRevision := 7, deadline := 10, epoch := 0,
    required := twoKinds, sent := ∅, acked := ∅, state := .pending }

def superseded : List Call :=
  let acknowledge (kind : String) (version : U64) : Observation :=
    { node := .v4 0x0a000001, epoch := 0, kind, nonce := version, version, nack := false }
  [.sent "cds" 3 1, .sent "lds" 5 1, .sent "cds" 4 2, .observe (acknowledge "cds" 3) 3,
    .observe (acknowledge "lds" 5) 4, .commit 5, .observe (acknowledge "cds" 4) 6, .commit 7,
    .commit 8]

theorem permits_justified_clusters :
    new (.v4 0x0a000001) 1 7 10 twoKinds = .ok clusters ∧
      (run clusters superseded).1.map (·.answer) =
        [.refused .terminal, .granted ⟨1, 7⟩, .observed true, .refused .notReady, .observed true,
          .observed false, .sent, .sent, .sent] ∧
      AllJustified clusters (run clusters superseded).1 :=
  ⟨rfl, rfl, (permits_justified (.v4 0x0a000001) 1 7 10 twoKinds clusters rfl superseded).1⟩

end FlowSdn.Proxy
