import FlowSdn.Bgp.Session

/-! # The session as a machine of nine moves

Whatever a call does, it does by moves of one small machine: the attempts to connect, the three
steps towards an established session, the upkeep of its deadlines, and the reset. Each function is
specified by the moves it can make and the faults it can end in.
-/

namespace FlowSdn.Bgp

open Buffer Words Checked

/-! ## Consistent sessions -/

structure Config.Accepted (config : Config) : Prop where
  encodes : ∃ bytes, config.localOpen.encode = .ok bytes
  retry : config.retryMs ≠ 0
  keepalive : config.keepaliveMs ≠ 0

/-- Both deadlines of a connection that is kept alive are armed. -/
def Deadlines.KeepAlive (deadlines : Deadlines) (negotiated : Negotiated) : Prop :=
  negotiated.holdTime ≠ 0 → deadlines.hold.isSome ∧ deadlines.keepalive.isSome

namespace Session

structure Consistent (session : Session) : Prop where
  accepted : session.config.Accepted
  negotiated : session.negotiated.isSome ↔
    session.state = .openConfirm ∨ session.state = .established
  idle : session.running → session.state = .idle → session.deadlines.idle.isSome
  retry : session.state = .connect ∨ session.state = .active → session.deadlines.retry.isSome
  hold : session.state = .openSent → session.deadlines.hold.isSome
  alive : ∀ negotiated, session.negotiated = some negotiated →
    session.deadlines.KeepAlive negotiated
  idleOnly : session.deadlines.idle.isSome → session.state = .idle

/-- Actions that neither notify the peer nor close the connection. -/
def Quiet (actions : List Action) : Prop :=
  Action.close ∉ actions ∧ ∀ body, Action.send .notification body ∉ actions

/-- The NOTIFICATION before a close, if any, is a message. -/
def Farewell (sent : List Action) : Prop :=
  sent = [] ∨ ∃ body, sent = [.send .notification body] ∧ Fits .notification body

/-- What a session may do at once, and the actions that go with it. -/
inductive Move (session : Session) : Session → List Action → Prop
  | stay (actions : List Action) (quiet : Quiet actions) : Move session session actions
  | start (waits : ¬(session.state = .idle ∧ session.deadlines.idle = none)) :
      Move session { session with running := true } []
  | connect (running : Bool) (state : State) (retry : Nat) (actions : List Action)
      (apart : ¬session.state.Connected) (attempt : state = .connect ∨ state = .active)
      (silent : ∀ body, Action.send .notification body ∉ actions) :
      Move session
        { session with
          running, state, generation := session.generation + 1
          deadlines := { retry := some retry } }
        actions
  | retry (deadlines : Deadlines) (retry : deadlines.retry.isSome) (idle : deadlines.idle = none)
      (trying : session.state = .connect ∨ session.state = .active ∨ session.state = .openSent) :
      Move session
        { session with state := .active, generation := session.generation + 1, deadlines } []
  | send (hold : Nat) (body : Bytes)
      (trying : session.state = .connect ∨ session.state = .active) :
      Move session { session with state := .openSent, deadlines := { hold := some hold } }
        [.send .openMessage body]
  | confirm (negotiated : Negotiated) (deadlines : Deadlines)
      (sent : session.state = .openSent) (alive : deadlines.KeepAlive negotiated)
      (idle : deadlines.idle = none) :
      Move session
        { session with negotiated := some negotiated, state := .openConfirm, deadlines }
        [.send .keepalive []]
  | establish (deadlines : Deadlines) (actions : List Action)
      (confirmed : session.state = .openConfirm)
      (alive : ∀ negotiated, session.negotiated = some negotiated → deadlines.KeepAlive negotiated)
      (idle : deadlines.idle = none) (quiet : Quiet actions) :
      Move session { session with state := .established, deadlines } actions
  | refresh (deadlines : Deadlines) (actions : List Action)
      (up : session.state = .openConfirm ∨ session.state = .established)
      (alive : ∀ negotiated, session.negotiated = some negotiated → deadlines.KeepAlive negotiated)
      (idle : deadlines.idle = none) (quiet : Quiet actions) :
      Move session { session with deadlines } actions
  | reset (running : Bool) (idle : Option Nat) (lastClose : CloseDisposition)
      (sent : List Action) (armed : running → idle.isSome) (farewell : Farewell sent) :
      Move session
        { session with
          running, lastClose, state := .idle, negotiated := none
          generation := session.generation + 1, deadlines := { idle } }
        (sent ++ [.close])

section Move

variable {session next : Session} {actions : List Action}

theorem Consistent.negotiated_eq_none (consistent : session.Consistent)
    (apart : session.state ≠ .openConfirm) (below : session.state ≠ .established) :
    session.negotiated = none := by
  have missing : ¬session.negotiated.isSome := by
    rw [consistent.negotiated]
    simp [apart, below]
  simpa using missing

section

variable (move : Move session next actions)

include move

theorem Move.consistent (consistent : session.Consistent) : next.Consistent := by
  cases move with
  | stay _ quiet => exact consistent
  | start waits =>
      refine { consistent with idle := ?_ }
      intro _ idle
      by_contra unarmed
      exact waits ⟨idle, by simpa using unarmed⟩
  | connect running state retry _ apart attempt silent =>
      have none : session.negotiated = none := consistent.negotiated_eq_none
        (fun equal => apart (.inr (.inl equal))) (fun equal => apart (.inr (.inr equal)))
      constructor <;> rcases attempt with rfl | rfl <;> simp [none, consistent.accepted]
  | retry deadlines retry idle trying =>
      have none : session.negotiated = none := by
        apply consistent.negotiated_eq_none <;> rcases trying with equal | equal | equal <;>
          simp [equal]
      constructor <;> simp [none, consistent.accepted, retry, idle]
  | send hold body trying =>
      have none : session.negotiated = none := by
        apply consistent.negotiated_eq_none <;> rcases trying with equal | equal <;> simp [equal]
      constructor <;> simp [none, consistent.accepted]
  | confirm negotiated deadlines sent alive idle =>
      constructor <;> simp [consistent.accepted, idle]
      exact alive
  | establish deadlines _ confirmed alive idle quiet =>
      have present := consistent.negotiated.mpr (.inl confirmed)
      constructor <;> simp [consistent.accepted, idle, present]
      exact alive
  | refresh deadlines _ up alive idle quiet =>
      have present := consistent.negotiated.mpr up
      constructor
      · exact consistent.accepted
      · exact consistent.negotiated
      · intro _ equal
        rcases up with state | state <;> simp [state] at equal
      · intro equal
        rcases up with state | state <;> simp [state] at equal
      · intro equal
        rcases up with state | state <;> simp [state] at equal
      · exact alive
      · simp [idle]
  | reset running idle lastClose sent armed farewell =>
      constructor <;> simp [consistent.accepted]
      exact armed

theorem Move.generation_le : session.generation ≤ next.generation := by
  cases move <;> simp

theorem Move.forward (up : session.state.Connected) (same : next.generation = session.generation) :
    next.state = session.state ∨ (session.state = .openSent ∧ next.state = .openConfirm) ∨
      (session.state = .openConfirm ∧ next.state = .established) := by
  cases move with
  | stay => exact .inl rfl
  | start => exact .inl rfl
  | connect running state retry _ apart => exact absurd up apart
  | retry => simp at same
  | send hold body trying =>
      rcases trying with state | state <;> simp [State.Connected, state] at up
  | confirm negotiated deadlines sent => exact .inr (.inl ⟨sent, rfl⟩)
  | establish deadlines _ confirmed => exact .inr (.inr ⟨confirmed, rfl⟩)
  | refresh => exact .inl rfl
  | reset => simp at same

theorem Move.closed (up : session.state.Connected) (closes : Action.close ∈ actions) :
    next.state = .idle ∧ next.negotiated = none ∧ next.generation = session.generation + 1 := by
  cases move with
  | stay _ quiet => exact absurd closes quiet.1
  | start => simp at closes
  | connect running state retry _ apart => exact absurd up apart
  | retry => simp at closes
  | send => simp at closes
  | confirm => simp at closes
  | establish deadlines _ confirmed alive idle quiet => exact absurd closes quiet.1
  | refresh deadlines _ up alive idle quiet => exact absurd closes quiet.1
  | reset => exact ⟨rfl, rfl, rfl⟩

end

/-- Every NOTIFICATION is a message, and the next action closes the connection. -/
def Announced (actions : List Action) : Prop :=
  ∀ index body, actions[index]? = some (.send .notification body) →
    Fits .notification body ∧ actions[index + 1]? = some .close

theorem announced_of_silent (silent : ∀ body, Action.send .notification body ∉ actions) :
    Announced actions :=
  fun _ body found => absurd (List.mem_of_getElem? found) (silent body)

theorem Announced.append {first second : List Action} (left : Announced first)
    (right : Announced second) : Announced (first ++ second) := by
  intro index body found
  by_cases inside : index < first.length
  · rw [List.getElem?_append_left inside] at found
    have answered := left index body found
    have next : index + 1 < first.length := (List.getElem?_eq_some_iff.mp answered.2).1
    rw [List.getElem?_append_left next]
    exact answered
  · rw [List.getElem?_append_right (by omega)] at found
    have answered := right _ body found
    rw [List.getElem?_append_right (by omega), Nat.sub_add_comm (by omega)]
    exact answered

theorem Farewell.announced {sent : List Action} (farewell : Farewell sent) :
    Announced (sent ++ [.close]) := by
  rcases farewell with rfl | ⟨sentBody, rfl, fits⟩
  · apply announced_of_silent
    simp
  · intro index body found
    match index, found with
    | 0, found =>
        cases found
        exact ⟨fits, rfl⟩
    | 1, found => cases found
    | _ + 2, found => cases found

theorem Move.announced (move : Move session next actions) : Announced actions := by
  cases move with
  | stay _ quiet => exact announced_of_silent quiet.2
  | start => exact announced_of_silent (by simp)
  | connect running state retry _ apart attempt silent => exact announced_of_silent silent
  | retry => exact announced_of_silent (by simp)
  | send => exact announced_of_silent (by simp)
  | confirm => exact announced_of_silent (by simp)
  | establish deadlines _ confirmed alive idle quiet => exact announced_of_silent quiet.2
  | refresh deadlines _ up alive idle quiet => exact announced_of_silent quiet.2
  | reset running idle lastClose sent armed farewell => exact farewell.announced

end Move

def Benign : Halt Error → Prop
  | .error error => error ≠ .invalidConfig
  | .stopped => False

theorem checkedAdd_ends (left right : Nat) {failure : Error} (benign : failure ≠ .invalidConfig) :
    Ends (fun sum => sum = left + right) Benign (checkedAdd left right failure) := by
  have faulty : Benign (.error failure) := benign
  apply Ends.bind (Ends.refuse fun _ => faulty)
  intro _ _
  exact Ends.pure rfl

theorem deadline_ends (now delay : Nat) : Ends (fun _ => True) Benign (deadline now delay) :=
  (checkedAdd_ends now delay (by simp)).weaken fun _ _ => trivial

theorem retryDelay_ends {base : Nat} (entropy : Nat) (positive : base ≠ 0) :
    Ends (fun _ => True) Benign (retryDelay base entropy) := by
  apply Ends.bind (Ends.refuse fun zero => absurd zero positive)
  intro _ _
  exact (checkedAdd_ends _ _ (by simp)).weaken fun _ _ => trivial

theorem newGeneration_ends (session : Session) :
    Ends (fun next => next = { session with generation := session.generation + 1 }) Benign
      session.newGeneration := by
  apply Ends.bind (checkedAdd_ends session.generation 1 (by simp))
  intro generation equal
  rw [equal]
  exact Ends.pure rfl

theorem configured_ends {result : Except ProtocolError α} {value : α}
    (succeeds : result = .ok value) :
    Ends (fun returned => returned = value) Benign (configured result) := by
  rw [succeeds]
  exact Ends.pure rfl

theorem expected_ends {value : Option α} (present : value.isSome) :
    Ends (fun _ => True) Benign (expected value) := by
  rcases Option.isSome_iff_exists.mp present with ⟨inner, rfl⟩
  exact .ok trivial

/-- The computation makes one move of the session, or fails in a benign way. -/
def Moves (session : Session) (computation : Outcome (Session × List Action)) : Prop :=
  Ends (fun result => Move session result.1 result.2) Benign computation

theorem moves_stay (session : Session) {actions : List Action} (quiet : Quiet actions) :
    session.Moves (.ok (session, actions)) :=
  .ok (.stay actions quiet)

section Functions

variable {session : Session} {cause : Notification}

theorem connect_ends (accepted : session.config.Accepted) (now entropy : Nat) :
    Ends (fun result => ∃ state retry, (state = .connect ∨ state = .active) ∧
        result.1 = { session with
          state, generation := session.generation + 1, deadlines := { retry := some retry } } ∧
        ∀ body, Action.send .notification body ∉ result.2)
      Benign (session.connect now entropy) := by
  apply Ends.bind session.newGeneration_ends
  intro next equal
  subst equal
  apply Ends.bind (retryDelay_ends entropy accepted.retry)
  intro delay _
  apply Ends.bind (deadline_ends now delay)
  intro retry _
  apply Ends.pure
  refine ⟨_, retry, ?_, rfl, ?_⟩
  · cases session.config.passive <;> simp
  · cases session.config.passive <;> simp

/-- The causes whose NOTIFICATION fits into a message, also when it is wrapped. -/
def Encodable (cause : Notification) : Prop :=
  cause.data.length ≤ 4075 ∧ (cause.code = 6 → cause.data.length ≤ 4073)

theorem wrap_ends {hard : Bool} (notifications : Bool) (encodable : Encodable cause)
    (cease : hard → cause.code = 6) :
    Ends (fun wrapped => wrapped.data.length ≤ 4075) Benign (wrap hard notifications cause) := by
  cases hard with
  | false => exact .ok encodable.1
  | true =>
      rcases Notification.hardReset_of_length notifications (encodable.2 (cease rfl)) with
        ⟨wrapped, made, short⟩
      apply (configured_ends made).weaken
      intro returned equal
      rw [equal]
      exact short

variable {notification : Option Notification} {negotiated : Negotiated}

theorem farewell_ends {hard : Bool} (notifications : Bool)
    (encodable : ∀ cause, notification = some cause → Encodable cause)
    (cease : ∀ cause, notification = some cause → hard → cause.code = 6) :
    Ends Farewell Benign (farewell notification hard notifications) := by
  cases notification with
  | none => exact .ok (.inl rfl)
  | some cause =>
      apply Ends.bind (wrap_ends notifications (encodable cause rfl) (cease cause rfl))
      intro wrapped short
      have encodes := Notification.encode_of_length short
      apply Ends.bind (configured_ends encodes)
      intro body equal
      subst equal
      exact .pure (.inr ⟨_, rfl, Notification.fits_of_encode encodes⟩)

/-- The session is idle in a new generation, and the connection closed. -/
def IsReset (session : Session) (result : Session × List Action) : Prop :=
  ∃ idle lastClose sent, (session.running → idle.isSome) ∧ Farewell sent ∧
    result = ({ session with
      state := .idle, negotiated := none, generation := session.generation + 1
      deadlines := { idle }, lastClose }, sent ++ [.close])

section

variable (session) (now : Nat)

theorem idleDeadline_ends :
    Ends (fun idle => session.running → idle.isSome) Benign (session.idleDeadline now) := by
  unfold idleDeadline
  split
  · refine Ends.bind (deadline_ends now 5000) ?_
    intro idle _
    exact Ends.pure fun _ => rfl
  · rename_i stopped
    exact .ok fun running => absurd running stopped

theorem resetNotification_ends (encodable : ∀ cause, notification = some cause → Encodable cause) :
    Ends session.IsReset Benign (session.resetNotification now notification) := by
  apply Ends.bind (farewell_ends _ encodable ?_)
  · intro sent farewell
    apply Ends.bind session.newGeneration_ends
    intro next equal
    subst equal
    apply Ends.bind (idleDeadline_ends _ now)
    intro idle armed
    exact Ends.pure ⟨idle, _, sent, armed, farewell, rfl⟩
  · intro cause equal hard
    subst equal
    simp only [Option.any_some, Bool.and_eq_true, decide_eq_true_eq] at hard
    exact hard.1

theorem resetNotification_moves (encodable : ∀ cause, notification = some cause → Encodable cause) :
    session.Moves (session.resetNotification now notification) := by
  apply (session.resetNotification_ends now encodable).weaken
  intro result reset
  rcases reset with ⟨idle, lastClose, sent, armed, farewell, rfl⟩
  exact .reset session.running idle lastClose sent armed farewell

theorem reset_encodable (notification : Option (U8 × U8)) (cause : Notification)
    (equal : (notification.map fun cause =>
      if cause = (2, 1) then Notification.unsupportedVersion else ⟨cause.1, cause.2, []⟩) =
        some cause) : Encodable cause := by
  rcases Option.map_eq_some_iff.mp equal with ⟨code, -, rfl⟩
  split <;> simp [Encodable, Notification.unsupportedVersion]

theorem reset_ends (notification : Option (U8 × U8)) :
    Ends session.IsReset Benign (session.reset now notification) :=
  session.resetNotification_ends now (reset_encodable notification)

theorem reset_moves (notification : Option (U8 × U8)) :
    session.Moves (session.reset now notification) :=
  session.resetNotification_moves now (reset_encodable notification)

theorem resetCause_moves (notCease : cause.code ≠ 6) (short : cause.data.length ≤ 4075) :
    session.Moves (session.resetNotification now (some cause)) := by
  apply session.resetNotification_moves now
  intro found equal
  cases equal
  exact ⟨short, fun cease => absurd cease notCease⟩

theorem deadlineUnlessZero_ends (now delay : Nat) :
    Ends (fun time => delay ≠ 0 → time.isSome) Benign (deadlineUnlessZero now delay) := by
  unfold deadlineUnlessZero
  split
  · rename_i zero
    exact .ok fun positive => absurd zero positive
  · apply Ends.bind (deadline_ends now delay)
    intro time _
    exact Ends.pure fun _ => rfl

theorem resetHold_ends :
    Ends (fun next => ∃ hold, (session.holdDelay ≠ 0 → hold.isSome) ∧
        next = { session with deadlines := { session.deadlines with hold } })
      Benign (session.resetHold now) := by
  apply Ends.bind (deadlineUnlessZero_ends now session.holdDelay)
  intro hold armed
  exact Ends.pure ⟨hold, armed, rfl⟩

theorem scheduleKeepalive_ends :
    Ends (fun next => ∃ keepalive, (session.keepaliveDelay ≠ 0 → keepalive.isSome) ∧
        next = { session with deadlines := { session.deadlines with keepalive } })
      Benign (session.scheduleKeepalive now) := by
  apply Ends.bind (deadlineUnlessZero_ends now session.keepaliveDelay)
  intro keepalive armed
  exact Ends.pure ⟨keepalive, armed, rfl⟩

end

theorem holdDelay_ge (agreed : session.negotiated = some negotiated)
    (timed : negotiated.holdTime ≠ 0) : 1000 ≤ session.holdDelay := by
  have positive : negotiated.holdTime.toNat ≠ 0 := by
    intro zero
    exact timed (BitVec.eq_of_toNat_eq zero)
  simp only [holdDelay, agreed, Option.elim_some, u64Limit]
  omega

theorem keepaliveDelay_ne_zero (accepted : session.config.Accepted)
    (agreed : session.negotiated = some negotiated) (timed : negotiated.holdTime ≠ 0) :
    session.keepaliveDelay ≠ 0 := by
  have hold := holdDelay_ge agreed timed
  have positive := accepted.keepalive
  simp only [keepaliveDelay]
  omega

/-! ### Messages -/

theorem quiet_nil : Quiet [] := by
  simp [Quiet]

theorem acceptOpen_moves (accepted : session.config.Accepted) (sent : session.state = .openSent)
    (now : Nat) (negotiated : Negotiated) : session.Moves (session.acceptOpen now negotiated) := by
  apply Ends.bind (resetHold_ends _ now)
  intro next found
  rcases found with ⟨hold, held, rfl⟩
  apply Ends.bind (scheduleKeepalive_ends _ now)
  intro next found
  rcases found with ⟨keepalive, kept, rfl⟩
  refine .pure (.confirm negotiated { hold, keepalive } sent ?_ rfl)
  intro timed
  constructor
  · apply held
    exact Nat.ne_of_gt (lt_of_lt_of_le (by decide) (holdDelay_ge rfl timed))
  · exact kept (keepaliveDelay_ne_zero accepted rfl timed)

def quoted (capability : Capability) : Bytes :=
  capability.code :: BitVec.ofNat 8 capability.value.length :: capability.value

section

variable (accepted : session.config.Accepted)

include accepted

theorem requiredCapabilities_ends :
    Ends (fun data => data.length ≤ 255) Benign session.requiredCapabilities := by
  rcases accepted.encodes with ⟨bytes, encodes⟩
  have bounded := Open.capabilities_bounded encodes
  have within : ((session.config.localOpen.capabilities.filter (·.code = 1)).map
      (·.value.length + 4)).sum ≤ 255 :=
    ((List.filter_sublist.map _).sum_le_sum fun _ _ => Nat.zero_le _).trans bounded
  have all : session.requiredCapabilities =
      .ok ((session.config.localOpen.capabilities.filter (·.code = 1)).map quoted).flatten := by
    have succeeds : ∀ capability ∈ session.config.localOpen.capabilities.filter (·.code = 1),
        (do
          refuse (255 < capability.value.length) (Halt.error Error.invalidConfig)
          return capability.code :: BitVec.ofNat 8 capability.value.length :: capability.value :
          Outcome Bytes) = .ok (quoted capability) := by
      intro capability member
      have one := List.single_le_sum (fun _ _ => Nat.zero_le _) _
        (List.mem_map_of_mem (f := fun item : Capability => item.value.length + 4) member)
      rw [refuse_of_not (by omega)]
      rfl
    rw [requiredCapabilities, mapM_eq_map succeeds]
    rfl
  rw [all]
  refine .ok (le_trans ?_ within)
  rw [List.length_flatten, List.map_map]
  apply List.sum_le_sum
  intro capability _
  simp [quoted]

theorem openData_ends (subcode : U8) :
    Ends (fun data => data.length ≤ 255) Benign (session.openData subcode) := by
  unfold openData
  split
  · exact .ok (by simp)
  · split
    · exact requiredCapabilities_ends accepted
    · exact .ok (by simp)

theorem refuseOpen_moves (now : Nat) (body : Bytes)
    (error : ProtocolError) : session.Moves (session.refuseOpen now body error) := by
  apply Ends.bind (openData_ends accepted _)
  intro data short
  apply session.resetNotification_moves now
  intro cause equal
  cases equal
  exact ⟨show data.length ≤ 4075 by omega, fun _ => show data.length ≤ 4073 by omega⟩

theorem receiveOpen_moves (sent : session.state = .openSent)
    (now : Nat) (body : Bytes) : session.Moves (session.receiveOpen now body) := by
  unfold receiveOpen
  split
  · exact acceptOpen_moves accepted sent now _
  · exact refuseOpen_moves accepted now body _

end

section

variable (consistent : session.Consistent)

include consistent

theorem keepAlive_resetHold {hold : Option Nat}
    (held : session.holdDelay ≠ 0 → hold.isSome) (negotiated : Negotiated)
    (agreed : session.negotiated = some negotiated) :
    { session.deadlines with hold }.KeepAlive negotiated := by
  intro timed
  have long := holdDelay_ge agreed timed
  exact ⟨held (by omega), (consistent.alive negotiated agreed timed).2⟩

theorem Consistent.idle_eq_none (busy : session.state ≠ .idle) : session.deadlines.idle = none := by
  by_contra armed
  exact busy (consistent.idleOnly (Option.isSome_iff_ne_none.mpr armed))

theorem establish_moves (confirmed : session.state = .openConfirm) (now : Nat) :
    session.Moves (session.establish now) := by
  apply Ends.bind (resetHold_ends _ now)
  intro next found
  rcases found with ⟨hold, held, rfl⟩
  apply Ends.bind (expected_ends (consistent.negotiated.mpr (.inl confirmed)))
  intro negotiated _
  refine .pure (.establish { session.deadlines with hold } _ confirmed
    (keepAlive_resetHold consistent held) (consistent.idle_eq_none ?_) ?_)
  · simp [confirmed]
  · simp [Quiet]

theorem resetHold_moves (up : session.state = .established)
    (now : Nat) {actions : List Action} (quiet : Quiet actions) :
    session.Moves (do
      let session ← session.resetHold now
      return (session, actions)) := by
  apply Ends.bind (resetHold_ends session now)
  intro next found
  rcases found with ⟨hold, held, rfl⟩
  refine .pure (.refresh { session.deadlines with hold } actions (.inr up)
    (keepAlive_resetHold consistent held) (consistent.idle_eq_none ?_) quiet)
  simp [up]

end

theorem refuseUpdate_moves (session : Session) (now : Nat) {failure : Update.Failure}
    (notCease : failure.error.code ≠ 6) (short : failure.data.length ≤ 4075) :
    session.Moves (session.refuseUpdate now failure) := by
  unfold refuseUpdate
  split
  · exact session.resetCause_moves now notCease short
  · exact moves_stay session (by simp [Quiet])

theorem receiveUpdate_moves (consistent : session.Consistent) (up : session.state = .established)
    (now : Nat) (body : Bytes) : session.Moves (session.receiveUpdate now body) := by
  apply Ends.bind (expected_ends (consistent.negotiated.mpr (.inr up)))
  intro negotiated _
  have validated := Update.validateDetailed_ends body negotiated.fourOctetAsn
  split
  · exact resetHold_moves consistent up now (by simp [Quiet])
  · rename_i failure failed
    rw [failed] at validated
    exact session.refuseUpdate_moves now validated.of_error.1 validated.of_error.2

theorem receiveRefresh_moves (consistent : session.Consistent) (up : session.state = .established)
    (body : Bytes) : session.Moves (session.receiveRefresh body) := by
  unfold receiveRefresh
  split
  · exact moves_stay session quiet_nil
  · apply Ends.bind (expected_ends (consistent.negotiated.mpr (.inr up)))
    intro negotiated _
    refine .pure (.stay _ ?_)
    split <;> simp [Quiet]

theorem unexpected_moves (session : Session) (now : Nat) (kind : Kind) :
    session.Moves (session.unexpected now kind) :=
  session.resetCause_moves now (show (5 : U8) ≠ 6 by decide) (by simp)

theorem receiveNotification_moves (session : Session) (now : Nat) (body : Bytes) :
    session.Moves (session.receiveNotification now body) := by
  apply Ends.bind (session.reset_ends now none)
  intro result reset
  rcases reset with ⟨idle, lastClose, sent, armed, farewell, rfl⟩
  exact .pure (.reset session.running idle _ sent armed farewell)

theorem message_moves (consistent : session.Consistent) (frame : Frame) (now : Nat) :
    session.Moves (session.message frame now) := by
  unfold message
  split
  · exact moves_stay session quiet_nil
  · split
    · rename_i error refused
      rw [encode_error refused]
      exact session.resetCause_moves now (show (1 : U8) ≠ 6 by decide) (by simp)
    · split
      · exact session.receiveNotification_moves now _
      · exact receiveOpen_moves consistent.accepted ‹_› now _
      · exact establish_moves consistent ‹_› now
      · exact resetHold_moves consistent ‹_› now quiet_nil
      · exact receiveUpdate_moves consistent ‹_› now _
      · exact receiveRefresh_moves consistent ‹_› _
      · exact session.unexpected_moves now _

/-! ### Events and deadlines -/

theorem retryLater_moves (accepted : session.config.Accepted)
    (trying : session.state = .connect ∨ session.state = .active ∨ session.state = .openSent)
    (now entropy : Nat) {deadlines : Deadlines} (idle : deadlines.idle = none) :
    session.Moves (session.retryLater now entropy deadlines) := by
  apply Ends.bind session.newGeneration_ends
  intro next equal
  subst equal
  apply Ends.bind (retryDelay_ends entropy accepted.retry)
  intro delay _
  apply Ends.bind (deadline_ends now delay)
  intro retry _
  exact .pure (.retry { deadlines with retry := some retry } rfl idle trying)

theorem openConnection_moves (consistent : session.Consistent) {generation : Nat} {inbound : Bool}
    (wanted : ¬session.unwanted generation inbound) (now : Nat) :
    session.Moves (session.openConnection now) := by
  simp only [unwanted, not_or, not_and, not_not] at wanted
  rcases wanted with ⟨⟨-, running, -, apart, idle⟩, -, -⟩
  have trying : session.state = .connect ∨ session.state = .active := by
    cases state : session.state with
    | idle => exact absurd (consistent.idle running state) idle
    | connect => exact .inl rfl
    | active => exact .inr rfl
    | openSent => exact absurd (.inl state) apart
    | openConfirm => exact absurd (.inr (.inl state)) apart
    | established => exact absurd (.inr (.inr state)) apart
  rcases consistent.accepted.encodes with ⟨bytes, encodes⟩
  apply Ends.bind (deadline_ends now _)
  intro hold _
  apply Ends.bind (configured_ends encodes)
  intro body _
  exact .pure (.send hold body trying)

theorem tcpClosed_moves (consistent : session.Consistent) (now entropy : Nat) :
    session.Moves (session.tcpClosed now entropy) := by
  unfold tcpClosed
  split
  · exact retryLater_moves consistent.accepted (.inr (.inr ‹_›)) now entropy rfl
  · exact session.reset_moves now none
  · exact session.reset_moves now none
  · exact retryLater_moves consistent.accepted (.inl ‹_›) now entropy
      (consistent.idle_eq_none (by simp_all))
  · exact retryLater_moves consistent.accepted (.inr (.inl ‹_›)) now entropy
      (consistent.idle_eq_none (by simp_all))
  · exact moves_stay session quiet_nil

theorem shutdown_moves (session : Session) (now : Nat) (notification : Option (U8 × U8)) :
    session.Moves ({ session with running := false }.reset now notification) := by
  apply (reset_ends { session with running := false } now notification).weaken
  intro result reset
  rcases reset with ⟨idle, lastClose, sent, armed, farewell, rfl⟩
  exact .reset false idle lastClose sent armed farewell

theorem start_moves (consistent : session.Consistent) (now entropy : Nat) :
    session.Moves (session.process .start now entropy) := by
  simp only [process]
  split
  · rename_i waiting
    apply (@connect_ends { session with running := true } consistent.accepted now
      entropy).weaken
    intro result connected
    rcases connected with ⟨state, retry, attempt, equal, silent⟩
    rw [equal]
    exact .connect true state retry result.2 (by simp [State.Connected, waiting.1]) attempt silent
  · rename_i waits
    exact .ok (.start waits)

theorem process_moves (consistent : session.Consistent) (event : Event) (now entropy : Nat) :
    session.Moves (session.process event now entropy) := by
  cases event with
  | start => exact start_moves consistent now entropy
  | hardReset => exact session.reset_moves now _
  | shutdown => exact session.shutdown_moves now _
  | softResetOut =>
      simp only [process]
      split
      · rename_i up
        apply Ends.bind (expected_ends (consistent.negotiated.mpr (.inr up)))
        intro negotiated _
        exact .pure (.stay _ (by simp [Quiet]))
      · exact moves_stay session quiet_nil
  | tcpEstablished generation inbound =>
      simp only [process]
      split
      · exact moves_stay session (by simp [Quiet])
      · exact openConnection_moves consistent ‹_› now
  | tcpFailed generation =>
      simp only [process]
      split
      · rename_i trying
        rcases trying with ⟨-, trying⟩
        exact retryLater_moves consistent.accepted (trying.imp_right .inl) now entropy
          (consistent.idle_eq_none (by rcases trying with state | state <;> simp [state]))
      · exact moves_stay session quiet_nil
  | tcpClosed generation =>
      simp only [process]
      split
      · exact moves_stay session quiet_nil
      · exact tcpClosed_moves consistent now entropy
  | message generation frame =>
      simp only [process]
      split
      · exact moves_stay session quiet_nil
      · exact message_moves consistent frame now

theorem misframed_moves (session : Session) (generation : Nat) {error : ProtocolError}
    (notCease : error.code ≠ 6) (bytes : Bytes) (now : Nat) :
    session.Moves (session.misframed generation error bytes now) := by
  unfold misframed
  split
  · apply session.resetCause_moves now notCease
    simp only [framingData]
    split <;> (try split) <;> simp
  · exact moves_stay session quiet_nil

section

variable (consistent : session.Consistent)

include consistent

theorem reconnect_ends (now entropy : Nat) :
    Ends (fun result => result = (session, []) ∨
        (Move session result.1 result.2 ∧ result.1.generation = session.generation + 1 ∧
          result.1.deadlines.keepalive = none)) Benign (session.reconnect now entropy) := by
  have attempt : ∀ (apart : ¬session.state.Connected) (first : List Action),
      (∀ body, Action.send .notification body ∉ first) →
      Ends (fun result => Move session result.1 (first ++ result.2) ∧
          result.1.generation = session.generation + 1 ∧ result.1.deadlines.keepalive = none)
        Benign (session.connect now entropy) := by
    intro apart first quiet
    apply (connect_ends consistent.accepted now entropy).weaken
    intro result connected
    rcases connected with ⟨state, retry, attempt, equal, silent⟩
    rw [equal]
    refine ⟨.connect session.running state retry _ apart attempt ?_, rfl, rfl⟩
    intro body member
    rcases List.mem_append.mp member with member | member
    · exact quiet body member
    · exact silent body member
  unfold reconnect
  split
  · rename_i expired
    have idle : session.state = .idle := by
      apply consistent.idleOnly
      rcases armed : session.deadlines.idle with _ | time
      · simp [due, armed] at expired
      · rfl
    apply (attempt (by simp [State.Connected, idle]) [] (by simp)).weaken
    intro result connected
    exact .inr connected
  · split
    · rename_i expired
      have apart : ¬session.state.Connected := by
        rcases expired.2 with state | state <;> simp [State.Connected, state]
      apply Ends.bind (attempt apart [.close] (by simp))
      intro result connected
      exact .pure (.inr connected)
    · exact .ok (.inl rfl)

theorem sendKeepalive_ends (now : Nat) :
    Ends (fun result => Move session result.1 result.2 ∧ result.1.state = session.state) Benign
      (session.sendKeepalive now) := by
  unfold sendKeepalive
  split
  · rename_i expired
    apply Ends.bind (scheduleKeepalive_ends session now)
    intro next found
    rcases found with ⟨keepalive, kept, rfl⟩
    refine .pure ⟨.refresh { session.deadlines with keepalive } _ expired.2 ?_
      (consistent.idle_eq_none ?_) (by simp [Quiet]), rfl⟩
    · intro negotiated agreed timed
      exact ⟨(consistent.alive negotiated agreed timed).1,
        kept (keepaliveDelay_ne_zero consistent.accepted agreed timed)⟩
    · rcases expired.2 with state | state <;> simp [state]
  · exact .ok ⟨.stay [] quiet_nil, rfl⟩

theorem Consistent.tick (now : Nat) :
    { session with lastTime := now }.Consistent :=
  { consistent with }

/-- The deadlines that were reached make one move, which keeps the state or starts a new
generation. -/
theorem expire_ends (now entropy : Nat) :
    Ends (fun result => Move session result.1 result.2 ∧
        (result.1.generation = session.generation → result.1.state = session.state))
      Benign (session.expire now entropy) := by
  unfold expire
  split
  · apply (session.reset_ends now (some (4, 0))).weaken
    intro result reset
    rcases reset with ⟨idle, lastClose, sent, armed, farewell, rfl⟩
    exact ⟨.reset session.running idle lastClose sent armed farewell, by simp⟩
  · apply Ends.bind (reconnect_ends consistent now entropy)
    intro result reconnected
    rcases reconnected with rfl | ⟨move, generation, unarmed⟩
    · apply Ends.bind (sendKeepalive_ends consistent now)
      intro result kept
      exact .pure ⟨kept.1, fun _ => kept.2⟩
    · have silent : result.1.sendKeepalive now = .ok (result.1, []) := by
        simp [sendKeepalive, unarmed, due]
      simp only [silent]
      refine .pure ⟨by simpa using move, ?_⟩
      intro same
      rw [generation] at same
      simp at same

theorem advance_ends (now entropy : Nat) :
    Ends (fun result => Move { session with lastTime := now } result.1 result.2 ∧
        (result.1.generation = session.generation → result.1.state = session.state))
      Benign (session.advance now entropy) := by
  have reversed : Benign (.error .clockReversed) := by
    simp [Benign]
  apply Ends.bind (Ends.refuse fun _ => reversed)
  intro _ _
  exact expire_ends (consistent.tick now) now entropy

end

end Functions

end Session

end FlowSdn.Bgp
