import FlowSdn.Bgp.Machine

/-! # Whole runs of a session

A run is any sequence of calls with any times, entropy, generations and bytes. What every move
keeps holds in every state that a run reaches.
-/

namespace FlowSdn.Bgp

open Buffer Words Checked

inductive Call
  | poll (now entropy : Nat)
  | handle (event : Event) (now entropy : Nat)
  | receive (generation : Nat) (bytes : Bytes) (now entropy : Nat)

namespace Session

def call (session : Session) : Call → Outcome Session
  | .poll now entropy => do
      let (next, _) ← session.poll now entropy
      return next
  | .handle event now entropy => do
      let (next, _) ← session.handle event now entropy
      return next
  | .receive generation bytes now entropy => do
      let received ← session.receive generation bytes now entropy
      return received.elim session (·.1)

def step (session : Session) (call : Call) : Session :=
  match session.call call with
  | .ok next => next
  | .error _ => session

def run (session : Session) (calls : List Call) : Session := calls.foldl step session

/-! ## One call -/

/-- What one call does: the deadlines that were reached, as `poll` would handle them, and then
one move. -/
structure Turn (session : Session) (now entropy : Nat) (advanced : Session)
    (first : List Action) (next : Session) (second : List Action) : Prop where
  polled : session.poll now entropy = .ok (advanced, first)
  expired : Move { session with lastTime := now } advanced first
  kept : advanced.generation = session.generation → advanced.state = session.state
  move : Move advanced next second

/-- A result of a call is the outcome of a turn whose second part has a property. -/
def Turns (Also : Session → List Action → Prop) (session : Session) (now entropy : Nat)
    (next : Session) (actions : List Action) : Prop :=
  ∃ advanced first second, Turn session now entropy advanced first next second ∧
    actions = first ++ second ∧ Also advanced second

/-- The received message is answered only on a connection that is up. -/
def OnlyConnected (session : Session) (actions : List Action) : Prop :=
  actions = [] ∨ session.state.Connected

section Call

variable {Also : Session → List Action → Prop} {session next : Session} {now entropy : Nat}
  {actions : List Action} {error : ProtocolError}

section

variable (consistent : session.Consistent)

include consistent

/-- The deadlines, and then a computation that makes one move of the session they leave. -/
theorem turn_ends (now entropy : Nat) {rest : Session → Outcome (Session × List Action)}
    (moves : ∀ advanced : Session, advanced.Consistent →
      Ends (fun result => Move advanced result.1 result.2 ∧ Also advanced result.2) Benign
        (rest advanced)) :
    Ends (fun result => session.Turns Also now entropy result.1 result.2) Benign
      (session.afterDeadlines now entropy rest) := by
  have ends := advance_ends consistent now entropy
  unfold afterDeadlines
  cases advances : session.advance now entropy with
  | error fault =>
      rw [advances] at ends
      exact .error ends.of_error
  | ok result =>
      rcases result with ⟨advanced, first⟩
      rw [advances] at ends
      have expired := ends.of_ok
      apply Ends.bind (moves advanced (expired.1.consistent (consistent.tick now)))
      intro result made
      exact .pure ⟨advanced, first, result.2, ⟨advances, expired.1, expired.2, made.1⟩, rfl, made.2⟩

theorem handle_ends (event : Event) (now entropy : Nat) :
    Ends (fun result => session.Turns (fun _ _ => True) now entropy result.1 result.2) Benign
      (session.handle event now entropy) := by
  apply turn_ends consistent now entropy
  intro advanced consistent
  apply (process_moves consistent event now entropy).weaken
  intro result move
  exact ⟨move, trivial⟩

theorem poll_ends (now entropy : Nat) :
    Ends (fun result => session.Turns (fun _ _ => True) now entropy result.1 result.2) Benign
      (session.poll now entropy) := by
  have ends := advance_ends consistent now entropy
  cases advances : session.advance now entropy with
  | error fault =>
      rw [advances] at ends
      rw [poll, advances]
      exact .error ends.of_error
  | ok result =>
      rw [advances] at ends
      rw [poll, advances]
      exact .ok ⟨result.1, result.2, [], ⟨advances, ends.of_ok.1, ends.of_ok.2,
        .stay [] quiet_nil⟩, by simp, trivial⟩

theorem message_onlyConnected (generation : Nat) (frame : Frame) (now entropy : Nat) :
    Ends (fun result => Move session result.1 result.2 ∧ OnlyConnected session result.2) Benign
      (session.process (.message generation frame) now entropy) := by
  by_cases up : session.state.Connected
  · apply (process_moves consistent _ now entropy).weaken
    intro result move
    exact ⟨move, .inr up⟩
  · simp only [process, message, up, not_false_eq_true, if_true, ite_self]
    exact .ok ⟨.stay [] quiet_nil, .inl rfl⟩

end

theorem misframed_onlyConnected (session : Session) (generation : Nat) (notCease : error.code ≠ 6)
    (bytes : Bytes) (now : Nat) :
    Ends (fun result => Move session result.1 result.2 ∧ OnlyConnected session result.2) Benign
      (session.misframed generation error bytes now) := by
  by_cases up : session.state.Connected
  · apply (session.misframed_moves generation notCease bytes now).weaken
    intro result move
    exact ⟨move, .inr up⟩
  · simp only [misframed, up, and_false, if_false]
    exact .ok ⟨.stay [] quiet_nil, .inl rfl⟩

theorem decode_error {bytes : Bytes} (refused : decode bytes = .error (.protocol error)) :
    error.code = 1 := by
  unfold decode at refused
  split at refused
  · cases refused
  · simp only at refused
    split at refused
    · cases refused
      rfl
    · split at refused
      · cases refused
        rfl
      · split at refused
        · cases refused
          rfl
        · split at refused <;> cases refused

theorem receive_ends (consistent : session.Consistent) (generation : Nat) (bytes : Bytes)
    (now entropy : Nat) :
    Ends (fun result => ∀ next actions consumed, result = some (next, actions, consumed) →
        session.Turns OnlyConnected now entropy next actions)
      Benign (session.receive generation bytes now entropy) := by
  unfold receive
  split
  · apply Ends.bind (turn_ends consistent now entropy fun advanced consistent =>
      message_onlyConnected consistent generation _ now entropy)
    intro result turns
    apply Ends.pure
    intro next actions consumed equal
    cases equal
    exact turns
  · exact .ok (by simp)
  · rename_i error refused
    have notCease : error.code ≠ 6 := by
      rw [decode_error refused]
      decide
    apply Ends.bind (turn_ends consistent now entropy fun advanced _ =>
      advanced.misframed_onlyConnected generation notCease bytes now)
    intro result turns
    apply Ends.pure
    intro next actions consumed equal
    cases equal
    exact turns

/-- How a connection that is up goes on within its generation. -/
def Forward (before after : State) : Prop :=
  after = before ∨ (before = .openSent ∧ after = .openConfirm) ∨
    (before = .openConfirm ∧ after = .established)

theorem Turns.consistent (turns : session.Turns Also now entropy next actions)
    (consistent : session.Consistent) : next.Consistent := by
  rcases turns with ⟨advanced, first, second, turn, -, -⟩
  exact turn.move.consistent (turn.expired.consistent (consistent.tick now))

theorem Turns.forward (turns : session.Turns Also now entropy next actions)
    (up : session.state.Connected) :
    session.generation < next.generation ∨ Forward session.state next.state := by
  rcases turns with ⟨advanced, first, second, turn, -, -⟩
  have early : session.generation ≤ advanced.generation := turn.expired.generation_le
  have late := turn.move.generation_le
  by_cases grown : session.generation < next.generation
  · exact .inl grown
  · have state := turn.kept (by omega)
    rw [← state] at up ⊢
    exact .inr (turn.move.forward up (by omega))

theorem call_ends (consistent : session.Consistent) (call : Call) :
    Ends (fun next => next.Consistent ∧ (session.state.Connected →
        session.generation < next.generation ∨ Forward session.state next.state))
      Benign (session.call call) := by
  cases call with
  | poll now entropy =>
      apply Ends.bind (poll_ends consistent now entropy)
      intro result turns
      exact .pure ⟨turns.consistent consistent, turns.forward⟩
  | handle event now entropy =>
      apply Ends.bind (handle_ends consistent event now entropy)
      intro result turns
      exact .pure ⟨turns.consistent consistent, turns.forward⟩
  | receive generation bytes now entropy =>
      apply Ends.bind (receive_ends consistent generation bytes now entropy)
      intro received turns
      cases received with
      | none => exact .pure ⟨consistent, fun _ => .inr (.inl rfl)⟩
      | some result =>
          have turn := turns result.1 result.2.1 result.2.2 rfl
          exact .pure ⟨turn.consistent consistent, turn.forward⟩

end Call

theorem new_consistent {config : Config} {initial : Session} (made : new config = .ok initial) :
    initial.Consistent := by
  simp only [new, check_eq_ok, refuse_eq_ok, pure_eq_ok] at made
  rcases made with ⟨valid, rfl⟩
  simp only [not_or] at valid
  have encodes : ∃ bytes, config.localOpen.encode = .ok bytes := by
    cases encoded : config.localOpen.encode with
    | error error => simp [encoded, Except.toBool] at valid
    | ok bytes => exact ⟨bytes, rfl⟩
  refine ⟨⟨encodes, valid.2.2.2.2.1, valid.2.2.2.2.2.2⟩, ?_, ?_, ?_, ?_, ?_, ?_⟩ <;> simp

theorem step_consistent {session : Session} (consistent : session.Consistent) (call : Call) :
    (session.step call).Consistent := by
  have ends := call_ends consistent call
  unfold step
  split
  · rename_i next returned
    rw [returned] at ends
    exact ends.of_ok.1
  · exact consistent

theorem run_consistent {session : Session} (consistent : session.Consistent) (calls : List Call) :
    (session.run calls).Consistent := by
  induction calls generalizing session with
  | nil => exact consistent
  | cons head calls induction => exact induction (step_consistent consistent head)

/-- The event belongs to a connection before the given generation. -/
def Stale (generation : Nat) : Event → Prop
  | .tcpFailed earlier => earlier < generation
  | .tcpClosed earlier => earlier < generation
  | .message earlier _ => earlier < generation
  | _ => False

section Expired

variable {session : Session} {now entropy : Nat}

theorem afterDeadlines_eq_poll {rest : Session → Outcome (Session × List Action)}
    (nothing : ∀ advanced first, session.advance now entropy = .ok (advanced, first) →
      rest advanced = .ok (advanced, [])) :
    session.afterDeadlines now entropy rest = session.poll now entropy := by
  unfold afterDeadlines poll
  cases advances : session.advance now entropy with
  | error fault => rfl
  | ok result =>
      have idle := nothing result.1 result.2 advances
      simp [bind, Except.bind, idle, pure, Except.pure]

theorem handle_of_stale (consistent : session.Consistent) {event : Event}
    (stale : Stale session.generation event) :
    session.handle event now entropy = session.poll now entropy := by
  apply afterDeadlines_eq_poll
  intro advanced first advances
  have ends := advance_ends consistent now entropy
  rw [advances] at ends
  have later : session.generation ≤ advanced.generation := ends.of_ok.1.generation_le
  cases event with
  | tcpFailed generation =>
      have different : generation ≠ advanced.generation := by
        simp only [Stale] at stale
        omega
      simp [process, different]
  | tcpClosed generation =>
      have different : generation ≠ advanced.generation := by
        simp only [Stale] at stale
        omega
      simp [process, different]
  | message generation frame =>
      have different : generation ≠ advanced.generation := by
        simp only [Stale] at stale
        omega
      simp [process, different]
  | _ => exact absurd stale (by simp [Stale])

/-! ## Frames after the hold deadline -/

/-- What is left of a session when its hold deadline was reached: the peer is told so, the
connection is closed, and a new generation waits in Idle. -/
def HoldExpired (session : Session) (result : Session × List Action) : Prop :=
  result.2 = [.send .notification [4, 0], .close] ∧ result.1.state = .idle ∧
    result.1.negotiated = none ∧ result.1.generation = session.generation + 1

/-- Why a call at a time fails although its session is consistent. -/
def OutOfRange (session : Session) (now : Nat) (fault : Halt Error) : Prop :=
  (fault = .error .clockReversed ∧ now < session.lastTime) ∨
  (fault = .error .generationExhausted ∧ u64Limit ≤ session.generation + 1) ∨
  (fault = .error .timeOverflow ∧ u64Limit ≤ now + 5000)

/-- The NOTIFICATION of an expired hold timer is never wrapped and always encodes. -/
theorem farewell_hold {Fault : Halt Error → Prop} (notifications : Bool) :
    Ends (fun sent => sent = [.send .notification [4, 0]]) Fault
      (farewell (some ⟨4, 0, []⟩) false notifications) := by
  have encodes : (⟨4, 0, []⟩ : Notification).encode = .ok [4, 0] :=
    Notification.encode_of_length (by simp)
  simp only [farewell, wrap, Bool.false_eq_true, if_false, configured, bind, Except.bind, encodes,
    Except.mapError]
  exact .ok rfl

theorem checkedAdd_fails (left right : Nat) (failure : Error) :
    Ends (fun sum => sum = left + right)
      (fun fault => fault = .error failure ∧ u64Limit ≤ left + right)
      (checkedAdd left right failure) := by
  apply Ends.bind (Ends.refuse fun overflow => ⟨rfl, overflow⟩)
  intro _ _
  exact .pure rfl

theorem newGeneration_fails (session : Session) :
    Ends (fun next => next = { session with generation := session.generation + 1 })
      (fun fault => fault = .error .generationExhausted ∧ u64Limit ≤ session.generation + 1)
      session.newGeneration := by
  apply Ends.bind (checkedAdd_fails session.generation 1 _)
  intro generation equal
  rw [equal]
  exact .pure rfl

theorem idleDeadline_fails (session : Session) (now : Nat) :
    Ends (fun _ => True) (fun fault => fault = .error .timeOverflow ∧ u64Limit ≤ now + 5000)
      (session.idleDeadline now) := by
  unfold idleDeadline
  split
  · apply Ends.bind (checkedAdd_fails now 5000 _)
    intro _ _
    exact .pure trivial
  · exact .ok trivial

theorem poll_of_hold (held : due session.deadlines.hold now) :
    Ends session.HoldExpired (session.OutOfRange now) (session.poll now entropy) := by
  apply Ends.bind (Ends.refuse fun reversed => .inl ⟨rfl, reversed⟩)
  intro _ _
  unfold expire
  rw [if_pos held]
  apply Ends.bind (farewell_hold _)
  intro sent equal
  subst equal
  apply Ends.bind ((newGeneration_fails _).relax fun _ exhausted => .inr (.inl exhausted))
  intro next equal
  subst equal
  apply Ends.bind ((idleDeadline_fails _ now).relax fun _ overflow => .inr (.inr overflow))
  intro idle _
  exact .pure ⟨rfl, rfl, rfl, rfl⟩

/-- No message is looked at once the hold deadline was reached, whatever its generation. -/
theorem handle_message_of_hold (held : due session.deadlines.hold now) (generation : Nat)
    (frame : Frame) :
    session.handle (.message generation frame) now entropy = session.poll now entropy := by
  apply afterDeadlines_eq_poll
  intro advanced first advances
  have ends : Ends session.HoldExpired _ (session.poll now entropy) := poll_of_hold held
  rw [poll, advances] at ends
  have idle : ¬advanced.state.Connected := by
    rw [ends.of_ok.2.1]
    decide
  simp [process, message, idle]

theorem receive_of_hold (held : due session.deadlines.hold now) (generation : Nat) {bytes : Bytes}
    {frame : Frame} {consumed : Nat} (framed : decode bytes = .ok (frame, consumed)) :
    session.receive generation bytes now entropy =
      (session.poll now entropy).map fun result => some (result.1, result.2, consumed) := by
  simp only [receive, framed, handle_message_of_hold held]
  cases session.poll now entropy <;> rfl

end Expired

/-! ## What every run keeps -/

/-- In every state that a run reaches the negotiated parameters go with the state, the deadline
that the state waits for is armed, and no internal expectation fails. A connection is left only
for a new generation, so its late events do nothing, and a frame that comes when the hold timer
has expired is not read. -/
theorem run_invariants {config : Config} {initial : Session} (made : new config = .ok initial)
    (calls : List Call) {session : Session} (reached : initial.run calls = session) :
    (session.negotiated.isSome ↔
      session.state = .openConfirm ∨ session.state = .established) ∧
    (∀ call, session.call call ≠ .error .stopped) ∧
    (session.running → session.state = .idle → session.deadlines.idle.isSome) ∧
    (session.state = .connect ∨ session.state = .active → session.deadlines.retry.isSome) ∧
    (session.state = .openSent → session.deadlines.hold.isSome) ∧
    (∀ negotiated, session.negotiated = some negotiated → negotiated.holdTime ≠ 0 →
      session.deadlines.hold.isSome ∧ session.deadlines.keepalive.isSome) ∧
    (∀ call next, session.call call = .ok next → session.state.Connected →
      next.state ≠ session.state →
      ¬(session.state = .openSent ∧ next.state = .openConfirm) →
      ¬(session.state = .openConfirm ∧ next.state = .established) →
      session.generation < next.generation) ∧
    (∀ event now entropy, Stale session.generation event →
      session.handle event now entropy = session.poll now entropy) ∧
    (∀ hold now entropy generation, session.deadlines.hold = some hold → hold ≤ now →
      (∀ frame, session.handle (.message generation frame) now entropy =
        session.poll now entropy) ∧
      (∀ bytes frame consumed, decode bytes = .ok (frame, consumed) →
        session.receive generation bytes now entropy =
          (session.poll now entropy).map fun result => some (result.1, result.2, consumed)) ∧
      Ends session.HoldExpired (session.OutOfRange now) (session.poll now entropy)) := by
  have consistent : session.Consistent := reached ▸ run_consistent (new_consistent made) calls
  refine ⟨consistent.negotiated, ?_, consistent.idle, consistent.retry, consistent.hold,
    consistent.alive, ?_, fun event now entropy => handle_of_stale consistent, ?_⟩
  · intro call stopped
    have ends := call_ends consistent call
    rw [stopped] at ends
    exact ends.of_error
  · intro call next returned up left opened established
    have ends := call_ends consistent call
    rw [returned] at ends
    rcases ends.of_ok.2 up with grown | same | confirmed | done
    · exact grown
    · exact absurd same left
    · exact absurd confirmed opened
    · exact absurd done established
  · intro hold now entropy generation armed reachedHold
    have held : due session.deadlines.hold now := by simp [due, armed, reachedHold]
    exact ⟨fun frame => handle_message_of_hold held generation frame,
      fun bytes frame consumed framed => receive_of_hold held generation framed,
      poll_of_hold held⟩

def exporter : Config where
  localOpen := ⟨65001, 90, 0x0a000001, [⟨65, [0, 0, 0xfd, 0xe9]⟩, ⟨2, []⟩, ⟨1, [0, 1, 0, 1]⟩]⟩
  peerAsn := 65002
  listen := true
  passive := false
  retryMs := 1000
  keepaliveMs := 30000
  strictUpdateErrors := false
  gracefulShutdown := false

def exporterSession : Session where
  config := exporter
  state := .idle
  deadlines := {}
  negotiated := none
  lastTime := 0
  generation := 0
  running := false
  lastClose := .hard

def peerOpen : Bytes :=
  envelope .openMessage [4, 0xfd, 0xea, 0, 30, 10, 0, 0, 2, 8, 2, 6, 1, 4, 0, 1, 0, 1]

def handshake : List Call :=
  [.handle .start 0 7, .handle (.tcpEstablished 1 false) 10 0, .receive 1 peerOpen 20 0]

theorem new_exporter : new exporter = .ok exporterSession := by
  have accepted : ¬(exporter.localOpen.encode.toBool = false ∨ exporter.localOpen.routerId = 0 ∨
      exporter.localOpen.effectiveAsn.toOption = some 0 ∨ (exporter.passive ∧ ¬exporter.listen) ∨
      exporter.retryMs = 0 ∨ (u64Limit - 1) / 2 < exporter.retryMs ∨
      exporter.keepaliveMs = 0) := by
    decide
  rw [new, refuse_of_not accepted]
  rfl

theorem exporter_confirms :
    (exporterSession.run handshake).state = .openConfirm ∧
      (exporterSession.run handshake).negotiated.isSome := by
  have confirmed : (exporterSession.run handshake).state = .openConfirm := by decide +kernel
  exact ⟨confirmed, (run_invariants new_exporter handshake rfl).1.mpr (.inl confirmed)⟩

/-- Whatever bytes a peer sends, the session fails only for its clock or its generation. Each
NOTIFICATION is a message and is followed by a close, and a close that the bytes caused leaves
the session in Idle with nothing negotiated and in a new generation. -/
theorem receive_robust {config : Config} {initial : Session} (made : new config = .ok initial)
    (calls : List Call) {session : Session} (reached : initial.run calls = session)
    (generation : Nat) (bytes : Bytes) (now entropy : Nat) :
    (∀ fault, session.receive generation bytes now entropy = .error fault →
      fault = .error .clockReversed ∨ fault = .error .timeOverflow ∨
        fault = .error .generationExhausted) ∧
    (∀ next actions consumed,
      session.receive generation bytes now entropy = .ok (some (next, actions, consumed)) →
      (∀ index body, actions[index]? = some (.send .notification body) →
        (∃ sent, encode .notification body = .ok sent ∧ sent.length ≤ maxMessageLength ∧
          decode sent = .ok (⟨.notification, body⟩, sent.length)) ∧
        actions[index + 1]? = some .close) ∧
      ∃ advanced first second, session.poll now entropy = .ok (advanced, first) ∧
        actions = first ++ second ∧
        (Action.close ∈ second → next.state = .idle ∧ next.negotiated = none ∧
          advanced.generation < next.generation ∧ session.generation < next.generation)) := by
  have consistent : session.Consistent := reached ▸ run_consistent (new_consistent made) calls
  have ends := receive_ends consistent generation bytes now entropy
  constructor
  · intro fault failed
    rw [failed] at ends
    have benign := ends.of_error
    rcases fault with error | _
    · cases error <;> simp_all [Benign]
    · exact absurd benign (by simp [Benign])
  · intro next actions consumed received
    rw [received] at ends
    rcases ends.of_ok next actions consumed rfl with
      ⟨advanced, first, second, turn, equal, answered⟩
    subst equal
    constructor
    · intro index body found
      have announced := turn.expired.announced.append turn.move.announced
      rcases announced index body found with ⟨fits, closes⟩
      refine ⟨⟨envelope .notification body, encode_of_fits fits, ?_, ?_⟩, closes⟩
      · rw [envelope_length]
        exact fits.bounded
      · rw [decode_envelope _ fits.bounded, if_pos fits.admitted, envelope_length]
    · refine ⟨advanced, first, second, turn.polled, rfl, ?_⟩
      intro closes
      rcases answered with nothing | up
      · simp [nothing] at closes
      · rcases turn.move.closed up closes with ⟨idle, none, generation⟩
        have early : session.generation ≤ advanced.generation := turn.expired.generation_le
        exact ⟨idle, none, by omega, by omega⟩

def refuses (body : Bytes) : Session × List Action × Nat → Bool
  | (_, [.send .notification sent, .close], _) => sent = body
  | _ => false

/-- A second OPEN is answered with the notification that none was expected, and the session is
closed. -/
theorem exporter_second_open : ∃ next consumed,
    (exporterSession.run handshake).receive 1 peerOpen 30 0 =
        .ok (some (next, [.send .notification [5, 2, 1], .close], consumed)) ∧
      (∃ sent, encode .notification [5, 2, 1] = .ok sent ∧
        decode sent = .ok (⟨.notification, [5, 2, 1]⟩, sent.length)) ∧
      next.state = .idle ∧ next.negotiated = none ∧
      (exporterSession.run handshake).generation < next.generation := by
  have answered : ((exporterSession.run handshake).receive 1 peerOpen 30 0).toOption.any
      (·.any (refuses [5, 2, 1])) = true := by
    decide +kernel
  have quiet : ((exporterSession.run handshake).poll 30 0).toOption.any (·.2.isEmpty) = true := by
    decide +kernel
  rcases received : (exporterSession.run handshake).receive 1 peerOpen 30 0 with _ | _ | result <;>
    rw [received] at answered
  · cases answered
  · cases answered
  · have refused : refuses [5, 2, 1] result = true := answered
    unfold refuses at refused
    split at refused
    · next next body consumed =>
        rcases of_decide_eq_true refused with rfl
        have robust := (receive_robust new_exporter handshake rfl 1 peerOpen 30 0).2 _ _ _ received
        rcases robust with ⟨announced, advanced, first, second, polled, parts, closes⟩
        rcases (announced 0 _ rfl).1 with ⟨sent, encoded, -, decoded⟩
        rw [polled] at quiet
        rcases List.isEmpty_iff.mp quiet with rfl
        have closed := closes (by rw [← List.nil_append second, ← parts]; simp)
        exact ⟨next, consumed, rfl, ⟨sent, encoded, decoded⟩, closed.1, closed.2.1, closed.2.2.2⟩
    · cases refused

end Session

end FlowSdn.Bgp
