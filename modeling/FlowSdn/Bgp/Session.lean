import FlowSdn.Bgp.Open
import FlowSdn.Bgp.Update
import FlowSdn.Foundation.Fallible

/-! # The BGP session core

The deterministic session of an exporter: six states, four deadlines, and a generation that tells
the events of one connection from those of another. A call that fails keeps the session as it was;
one that is stopped has violated an internal expectation.
-/

namespace FlowSdn.Bgp

open Buffer Words Checked

inductive CloseDisposition
  | hard
  | peerMayRetainExports
  deriving DecidableEq

inductive State
  | idle
  | connect
  | active
  | openSent
  | openConfirm
  | established
  deriving DecidableEq

def State.Connected (state : State) : Prop :=
  state = .openSent ∨ state = .openConfirm ∨ state = .established

instance (state : State) : Decidable state.Connected := inferInstanceAs (Decidable (_ ∨ _))

inductive Error
  | invalidConfig
  | clockReversed
  | timeOverflow
  | generationExhausted
  deriving DecidableEq

structure Config where
  localOpen : Open
  peerAsn : U32
  listen : Bool
  passive : Bool
  retryMs : Nat
  keepaliveMs : Nat
  strictUpdateErrors : Bool
  gracefulShutdown : Bool
  deriving DecidableEq

inductive Action
  | connect (generation : Nat)
  | send (kind : Kind) (body : Bytes)
  | close
  | exportRoutes (families : BTreeSet Family) (endOfRib : Bool)
  | observeUpdate (summary : Update.Summary)
  | discardUpdate (error : ProtocolError)
  | dropConnection

structure Deadlines where
  retry : Option Nat := none
  hold : Option Nat := none
  keepalive : Option Nat := none
  idle : Option Nat := none
  deriving DecidableEq

structure Session where
  config : Config
  state : State
  deadlines : Deadlines
  negotiated : Option Negotiated
  lastTime : Nat
  generation : Nat
  running : Bool
  lastClose : CloseDisposition

inductive Event
  | start
  | tcpEstablished (generation : Nat) (inbound : Bool)
  | tcpFailed (generation : Nat)
  | tcpClosed (generation : Nat)
  | message (generation : Nat) (frame : Frame)
  | hardReset
  | softResetOut
  | shutdown

/-- Computations of the session: an error is returned, a violated expectation stops. -/
abbrev Outcome := Except (Halt Error)

def u64Limit : Nat := 2 ^ 64

def checkedAdd (left right : Nat) (failure : Error) : Outcome Nat := do
  refuse (u64Limit ≤ left + right) (Halt.error failure)
  return left + right

def deadline (now delay : Nat) : Outcome Nat := checkedAdd now delay .timeOverflow

def retryDelay (base entropy : Nat) : Outcome Nat := do
  refuse (base = 0) (Halt.error Error.invalidConfig)
  checkedAdd base (entropy % base) .timeOverflow

def configured (result : Except ProtocolError α) : Outcome α :=
  result.mapError fun _ => .error .invalidConfig

def expected : Option α → Outcome α
  | some value => .ok value
  | none => .error .stopped

def due (deadline : Option Nat) (now : Nat) : Prop := deadline.any (· ≤ now)

instance (deadline : Option Nat) (now : Nat) : Decidable (due deadline now) :=
  inferInstanceAs (Decidable (_ = true))

/-- The subcode that the optional parameters from an offset on call for: a malformed one is
unspecific, a complete one of another kind is unsupported, whichever comes first. -/
def parameterSubcode (body : Bytes) (offset : Nat) : U8 :=
  if _ : offset < body.length then
    match body[offset]?, body[offset + 1]? with
    | some kind, some length =>
        let finish := offset + 2 + length.toNat
        if body.length < finish then 0
        else if kind ≠ 2 then 4
        else if 255 < finish - 10 then 0
        else
          match Open.decode ((body.take finish).set 9 (BitVec.ofNat 8 (finish - 10))) with
          | .error _ => 0
          | .ok _ => parameterSubcode body finish
    | _, _ => 0
  else 0
termination_by body.length - offset

def openParameterSubcode (body : Bytes) : U8 :=
  match body[9]? with
  | none => 0
  | some length =>
      if body.length ≠ 10 + length.toNat then 0 else parameterSubcode body 10

namespace Session

def new (config : Config) : Except Error Session := do
  refuse (config.localOpen.encode.toBool = false ∨ config.localOpen.routerId = 0 ∨
      config.localOpen.effectiveAsn.toOption = some 0 ∨ (config.passive ∧ ¬config.listen) ∨
      config.retryMs = 0 ∨ (u64Limit - 1) / 2 < config.retryMs ∨ config.keepaliveMs = 0)
    Error.invalidConfig
  return {
    config
    state := .idle
    deadlines := {}
    negotiated := none
    lastTime := 0
    generation := 0
    running := false
    lastClose := .hard }

/-! ## Moving between states -/

def newGeneration (session : Session) : Outcome Session := do
  let generation ← checkedAdd session.generation 1 .generationExhausted
  return { session with generation }

def connect (session : Session) (now entropy : Nat) : Outcome (Session × List Action) := do
  let session ← session.newGeneration
  let delay ← retryDelay session.config.retryMs entropy
  let retry ← deadline now delay
  return (
    { session with
      state := if session.config.passive then .active else .connect
      deadlines := { retry := some retry } },
    if session.config.passive then [] else [.connect session.generation])

/-- A hard cause is wrapped when both sides support that. -/
def wrap (hard notifications : Bool) (cause : Notification) : Outcome Notification :=
  if hard then configured (cause.hardReset notifications) else .ok cause

def farewell (notification : Option Notification) (hard notifications : Bool) :
    Outcome (List Action) :=
  match notification with
  | none => .ok []
  | some cause => do
      let cause ← wrap hard notifications cause
      let body ← configured cause.encode
      return [.send .notification body]

def idleDeadline (session : Session) (now : Nat) : Outcome (Option Nat) :=
  if session.running then do
    let idle ← deadline now 5000
    return some idle
  else .ok none

def resetNotification (session : Session) (now : Nat) (notification : Option Notification) :
    Outcome (Session × List Action) := do
  let gr := session.negotiated.bind (·.graceful)
  let notifications := gr.any (·.notifications)
  let hard := notification.any fun cause =>
    cause.code = 6 && [2, 3, 4, 9].contains cause.subcode.toNat
  let lastClose : CloseDisposition :=
    if gr.isSome ∧ ¬hard ∧ (notification.isNone ∨ notifications) then .peerMayRetainExports
    else .hard
  let sent ← farewell notification hard notifications
  let session ← session.newGeneration
  let idle ← session.idleDeadline now
  return (
    { session with state := .idle, negotiated := none, deadlines := { idle }, lastClose },
    sent ++ [.close])

def reset (session : Session) (now : Nat) (notification : Option (U8 × U8)) :
    Outcome (Session × List Action) :=
  session.resetNotification now <| notification.map fun cause =>
    if cause = (2, 1) then Notification.unsupportedVersion else ⟨cause.1, cause.2, []⟩

def holdDelay (session : Session) : Nat :=
  min ((session.negotiated.elim 0 (·.holdTime.toNat)) * 1000) (u64Limit - 1)

def deadlineUnlessZero (now delay : Nat) : Outcome (Option Nat) :=
  if delay = 0 then .ok none
  else do
    let time ← deadline now delay
    return some time

def resetHold (session : Session) (now : Nat) : Outcome Session := do
  let hold ← deadlineUnlessZero now session.holdDelay
  return { session with deadlines := { session.deadlines with hold } }

def keepaliveDelay (session : Session) : Nat :=
  min session.config.keepaliveMs (session.holdDelay / 3)

def scheduleKeepalive (session : Session) (now : Nat) : Outcome Session := do
  let keepalive ← deadlineUnlessZero now session.keepaliveDelay
  return { session with deadlines := { session.deadlines with keepalive } }

/-- The deadlines that open a connection, which are those of idle and retry. -/
def reconnect (session : Session) (now entropy : Nat) : Outcome (Session × List Action) :=
  if due session.deadlines.idle now then session.connect now entropy
  else if due session.deadlines.retry now ∧
      (session.state = .connect ∨ session.state = .active) then do
    let (session, actions) ← session.connect now entropy
    return (session, .close :: actions)
  else .ok (session, [])

def sendKeepalive (session : Session) (now : Nat) : Outcome (Session × List Action) :=
  if due session.deadlines.keepalive now ∧
      (session.state = .openConfirm ∨ session.state = .established) then do
    let session ← session.scheduleKeepalive now
    return (session, [.send .keepalive []])
  else .ok (session, [])

/-- Hold expiry wins ties and is processed before any newly received frame. -/
def expire (session : Session) (now entropy : Nat) : Outcome (Session × List Action) :=
  if due session.deadlines.hold now then session.reset now (some (4, 0))
  else do
    let (session, opened) ← session.reconnect now entropy
    let (session, sent) ← session.sendKeepalive now
    return (session, opened ++ sent)

def advance (session : Session) (now entropy : Nat) : Outcome (Session × List Action) := do
  refuse (now < session.lastTime) (Halt.error Error.clockReversed)
  { session with lastTime := now }.expire now entropy

/-! ## Messages -/

def requiredCapabilities (session : Session) : Outcome Bytes := do
  let parts ← (session.config.localOpen.capabilities.filter (·.code = 1)).mapM
    fun capability => do
      refuse (255 < capability.value.length) (Halt.error Error.invalidConfig)
      return capability.code :: BitVec.ofNat 8 capability.value.length :: capability.value
  return parts.flatten

def openData (session : Session) (subcode : U8) : Outcome Bytes :=
  if subcode = 1 then .ok [0, 4]
  else if subcode = 7 then session.requiredCapabilities
  else .ok []

def acceptOpen (session : Session) (now : Nat) (negotiated : Negotiated) :
    Outcome (Session × List Action) := do
  let session := { session with
    negotiated := some negotiated, state := .openConfirm, deadlines := {} }
  let session ← session.resetHold now
  let session ← session.scheduleKeepalive now
  return (session, [.send .keepalive []])

def refuseOpen (session : Session) (now : Nat) (body : Bytes) (error : ProtocolError) :
    Outcome (Session × List Action) := do
  let subcode := if error.subcode = 4 then openParameterSubcode body else error.subcode
  let data ← session.openData subcode
  session.resetNotification now (some ⟨error.code, subcode, data⟩)

def receiveOpen (session : Session) (now : Nat) (body : Bytes) :
    Outcome (Session × List Action) :=
  match Open.decode body >>= fun peer =>
      negotiate session.config.localOpen peer session.config.peerAsn with
  | .ok negotiated => session.acceptOpen now negotiated
  | .error error => session.refuseOpen now body error

/-- The KEEPALIVE that confirms the peer's OPEN was sent after ours. -/
def establish (session : Session) (now : Nat) : Outcome (Session × List Action) := do
  let session ← { session with state := .established }.resetHold now
  let negotiated ← expected session.negotiated
  return (session, [.exportRoutes negotiated.families true])

def refuseUpdate (session : Session) (now : Nat) (failure : Update.Failure) :
    Outcome (Session × List Action) :=
  match errorAction failure.error session.config.strictUpdateErrors with
  | .notifyAndClose =>
      session.resetNotification now (some ⟨failure.error.code, failure.error.subcode, failure.data⟩)
  | .countLogAndDiscard => .ok (session, [.discardUpdate failure.error])

def receiveUpdate (session : Session) (now : Nat) (body : Bytes) :
    Outcome (Session × List Action) := do
  let negotiated ← expected session.negotiated
  match Update.validateDetailed body negotiated.fourOctetAsn with
  | .ok summary => do
      let session ← session.resetHold now
      return (session, [.observeUpdate summary])
  | .error failure => session.refuseUpdate now failure

def receiveRefresh (session : Session) (body : Bytes) : Outcome (Session × List Action) :=
  match decodeRefresh body with
  | .error _ => .ok (session, [])
  | .ok family => do
      let negotiated ← expected session.negotiated
      return (session,
        if family ∈ negotiated.families then
          [.exportRoutes ((∅ : BTreeSet Family).insert family) false]
        else [])

def unexpected (session : Session) (now : Nat) (kind : Kind) :
    Outcome (Session × List Action) :=
  let subcode : U8 := match session.state with
    | .openSent => 1
    | .openConfirm => 2
    | _ => 3
  session.resetNotification now (some ⟨5, subcode, [kind.code]⟩)

/-- The peer's own NOTIFICATION ends the session without an answer. -/
def receiveNotification (session : Session) (now : Nat) (body : Bytes) :
    Outcome (Session × List Action) := do
  let notifications := (session.negotiated.bind (·.graceful)).any (·.notifications)
  let graceful := (Notification.decode body).toOption.any
    (·.permitsGracefulRestart notifications)
  let (session, actions) ← session.reset now none
  return ({ session with lastClose := if graceful then session.lastClose else .hard }, actions)

def message (session : Session) (frame : Frame) (now : Nat) : Outcome (Session × List Action) :=
  if ¬session.state.Connected then .ok (session, [])
  else
    -- A frame may be built without the decoder, so its envelope is checked again.
    match encode frame.kind frame.body with
    | .error error =>
        session.resetNotification now (some ⟨error.code, error.subcode,
          beBytes 2 (min (headerLength + frame.body.length) 65535)⟩)
    | .ok _ =>
        match session.state, frame.kind with
        | _, .notification => session.receiveNotification now frame.body
        | .openSent, .openMessage => session.receiveOpen now frame.body
        | .openConfirm, .keepalive => session.establish now
        | .established, .keepalive => do
            let session ← session.resetHold now
            return (session, [])
        | .established, .update => session.receiveUpdate now frame.body
        | .established, .routeRefresh => session.receiveRefresh frame.body
        | _, kind => session.unexpected now kind

/-! ## Events -/

def retryLater (session : Session) (now entropy : Nat) (deadlines : Deadlines) :
    Outcome (Session × List Action) := do
  let session ← session.newGeneration
  let delay ← retryDelay session.config.retryMs entropy
  let retry ← deadline now delay
  return (
    { session with state := .active, deadlines := { deadlines with retry := some retry } }, [])

/-- Whether a new TCP connection is not the one that the session waits for. -/
def unwanted (session : Session) (generation : Nat) (inbound : Bool) : Prop :=
  (generation ≠ session.generation ∨ ¬session.running ∨ (inbound ∧ ¬session.config.listen) ∨
    session.state.Connected ∨ session.deadlines.idle.isSome) ∨
  (¬inbound ∧ session.config.passive) ∨
  (¬inbound ∧ session.state = .idle)

instance (session : Session) (generation : Nat) (inbound : Bool) :
    Decidable (session.unwanted generation inbound) := inferInstanceAs (Decidable (_ ∨ _))

def openConnection (session : Session) (now : Nat) : Outcome (Session × List Action) := do
  let hold ← deadline now 240000
  let body ← configured session.config.localOpen.encode
  return ({ session with state := .openSent, deadlines := { hold := some hold } },
    [.send .openMessage body])

def tcpClosed (session : Session) (now entropy : Nat) : Outcome (Session × List Action) :=
  match session.state with
  | .openSent => session.retryLater now entropy {}
  | .openConfirm | .established => session.reset now none
  | .connect | .active => session.retryLater now entropy session.deadlines
  | .idle => .ok (session, [])

def process (session : Session) (event : Event) (now entropy : Nat) :
    Outcome (Session × List Action) :=
  match event with
  | .start =>
      let started := { session with running := true }
      if session.state = .idle ∧ session.deadlines.idle = none then started.connect now entropy
      else .ok (started, [])
  | .hardReset => session.reset now (some (6, 4))
  | .shutdown =>
      { session with running := false }.reset now
        (if session.config.gracefulShutdown then none else some (6, 2))
  | .softResetOut =>
      if session.state = .established then do
        let negotiated ← expected session.negotiated
        return (session, [.exportRoutes negotiated.families false])
      else .ok (session, [])
  | .tcpEstablished generation inbound =>
      if session.unwanted generation inbound then .ok (session, [.dropConnection])
      else session.openConnection now
  | .tcpFailed generation =>
      if generation = session.generation ∧
          (session.state = .connect ∨ session.state = .active) then
        session.retryLater now entropy session.deadlines
      else .ok (session, [])
  | .tcpClosed generation =>
      if generation ≠ session.generation then .ok (session, [])
      else session.tcpClosed now entropy
  | .message generation frame =>
      if generation ≠ session.generation then .ok (session, [])
      else session.message frame now

def poll (session : Session) (now entropy : Nat) : Outcome (Session × List Action) :=
  session.advance now entropy

/-- The deadlines that were reached, and then the rest of the call. -/
def afterDeadlines (session : Session) (now entropy : Nat)
    (rest : Session → Outcome (Session × List Action)) : Outcome (Session × List Action) := do
  let (advanced, first) ← session.advance now entropy
  let (next, second) ← rest advanced
  return (next, first ++ second)

def handle (session : Session) (event : Event) (now entropy : Nat) :
    Outcome (Session × List Action) :=
  session.afterDeadlines now entropy (·.process event now entropy)

/-- The bytes of the header that a framing error points at. -/
def framingData (error : ProtocolError) (bytes : Bytes) : Bytes :=
  match error.subcode.toNat with
  | 2 => if 18 ≤ bytes.length then (bytes.drop 16).take 2 else []
  | 3 => if 19 ≤ bytes.length then (bytes.drop 18).take 1 else []
  | _ => []

def misframed (session : Session) (generation : Nat) (error : ProtocolError) (bytes : Bytes)
    (now : Nat) : Outcome (Session × List Action) :=
  if generation = session.generation ∧ session.state.Connected then
    session.resetNotification now (some ⟨error.code, error.subcode, framingData error bytes⟩)
  else .ok (session, [])

/-- One buffered message and how many bytes it took; nothing happens while bytes are missing. -/
def receive (session : Session) (generation : Nat) (bytes : Bytes) (now entropy : Nat) :
    Outcome (Option (Session × List Action × Nat)) :=
  match decode bytes with
  | .ok (frame, consumed) => do
      let (next, actions) ← session.handle (.message generation frame) now entropy
      return some (next, actions, consumed)
  | .error .needMore => .ok none
  | .error (.protocol error) => do
      let (next, actions) ← session.afterDeadlines now entropy
        (·.misframed generation error bytes now)
      return some (next, actions, bytes.length)

end Session

end FlowSdn.Bgp
