import FlowSdn.Bgp.Runs

/-! # OPEN messages with packed capabilities

A peer may put any number of capabilities into one optional parameter. The decoder takes them
apart, and the negotiation encodes the peer's OPEN again to check it, with a parameter of its
own for each capability.
-/

namespace FlowSdn.Bgp

open Buffer Words OrderedMap Checked

namespace Open

/-! ## What is decoded -/

theorem valid_of_capability (bytes : Bytes) (found : Capability) (rest : Bytes)
    (read : capability.run bytes = .ok (found, rest)) : found.valid = true := by
  simp only [capability, StateT.run_bind, bind_eq_ok] at read
  rcases read with ⟨code, -, length, -, value, -, checked, passed, same⟩
  cases same
  have validated := Reader.eq_ok_of_lift passed
  unfold Capability.validate at validated
  split_ifs at validated with valid
  exact valid

theorem valid_of_parameter (bytes : Bytes) (found : List Capability) (rest : Bytes)
    (read : parameter.run bytes = .ok (found, rest)) :
    ∀ capability ∈ found, capability.valid = true := by
  simp only [parameter, StateT.run_bind, bind_eq_ok] at read
  rcases read with ⟨kind, -, length, -, value, -, checked, -, last⟩
  exact Reader.forall_mem_upTo valid_of_capability _ _ (Reader.eq_ok_of_lift last)

theorem length_of_word {width : Nat} {bytes rest : Bytes} {value : BitVec width}
    (read : (word width).run bytes = .ok (value, rest)) :
    bytes.length = width / 8 + rest.length := by
  simp only [word, StateT.run_bind, bind_eq_ok] at read
  rcases read with ⟨taken, read, same⟩
  cases same
  exact Reader.length_of_take read

structure Decoded (message : Open) (body : Bytes) : Prop where
  asn : ∃ asn, message.effectiveAsn = .ok asn
  hold : ¬(message.holdTime = 1 ∨ message.holdTime = 2)
  valid : ∀ capability ∈ message.capabilities, capability.valid = true
  fits : Fits .openMessage body

theorem decoded {body : Bytes} {message : Open} (decoded : decode body = .ok message) :
    message.Decoded body := by
  simp only [decode, bind_eq_ok, refuse_eq_ok] at decoded
  rcases decoded with ⟨-, long, -, -, ⟨asn, afterAsn⟩, readAsn, ⟨hold, afterHold⟩, readHold, -,
    held, ⟨router, afterRouter⟩, readRouter, ⟨length, bytes⟩, readLength, -, counted, parameters,
    read, four, agreed, same⟩
  cases same
  have bound : body.length ≤ 265 := by
    have first := length_of_word readAsn
    have second := length_of_word readHold
    have third := length_of_word readRouter
    have fourth : afterRouter.length = 1 + bytes.length := by
      cases afterRouter with
      | nil => cases readLength
      | cons head tail =>
          cases readLength
          rw [List.length_cons, Nat.add_comm]
    have last : bytes.length = length.toNat := not_not.mp counted
    have byte := length.isLt
    rw [List.length_drop] at first
    dsimp only at second third
    omega
  refine ⟨⟨four, agreed⟩, held, ?_, ⟨?_, ?_⟩⟩
  · intro capability member
    rcases List.mem_flatten.mp member with ⟨found, listed, inside⟩
    exact Reader.forall_mem_upTo valid_of_parameter _ _ read found listed capability inside
  · change 29 ≤ 19 + body.length
    omega
  · change 19 + body.length ≤ 4096
    omega

/-- The length of the optional parameters when each capability has one of its own. -/
def spread (message : Open) : Nat := (message.capabilities.map (·.value.length + 4)).sum

theorem encodes_iff {message : Open} {body : Bytes} (decoded : message.Decoded body) :
    (∃ bytes, message.encode = .ok bytes) ↔ message.spread ≤ 255 := by
  constructor
  · rintro ⟨bytes, encoded⟩
    exact capabilities_bounded encoded
  · intro short
    rcases decoded.asn with ⟨asn, agreed⟩
    have each : ∀ capability ∈ message.capabilities,
        encodeCapability capability = .ok ([2, BitVec.ofNat 8 (capability.value.length + 2),
          capability.code, BitVec.ofNat 8 capability.value.length] ++ capability.value) := by
      intro capability member
      have part : capability.value.length + 4 ≤ message.spread :=
        List.single_le_sum (by simp) _ (List.mem_map_of_mem member)
      have narrow : ¬255 < capability.value.length + 2 := by omega
      rw [encodeCapability, Capability.validate, if_pos (decoded.valid capability member),
        refuse_of_not narrow]
      rfl
    obtain ⟨parameters, listed⟩ : ∃ parameters,
        message.capabilities.mapM encodeCapability = .ok parameters := ⟨_, mapM_eq_map each⟩
    have bounded : ¬255 < parameters.flatten.length := by
      rw [length_flatten_capabilities listed]
      exact Nat.not_lt.mpr short
    simp only [encode, agreed, listed, bind, Except.bind, refuse_of_not decoded.hold,
      refuse_of_not bounded]
    exact ⟨_, rfl⟩

end Open

/-! ## What is negotiated -/

/-- The peer's number, identifier and families are those that the configuration asks for. -/
structure Suits (config : Config) (peer : Open) : Prop where
  asn : config.peerAsn = 0 ∨ peer.effectiveAsn = .ok config.peerAsn
  named : peer.routerId ≠ 0
  other : peer.routerId ≠ config.localOpen.routerId
  family : ∃ family, family ∈ config.localOpen.families ∧ family ∈ peer.families

def agreedHold (ours peer : Open) : U16 :=
  if peer.holdTime ≤ ours.holdTime then peer.holdTime else ours.holdTime

theorem hold_of_encode {message : Open} {bytes : Bytes} (encoded : message.encode = .ok bytes) :
    ¬(message.holdTime = 1 ∨ message.holdTime = 2) := by
  simp only [Open.encode, bind_eq_ok, refuse_eq_ok] at encoded
  rcases encoded with ⟨-, -, -, held, -⟩
  exact held

variable {body : Bytes} {config : Config} {peer : Open}

section

variable (accepted : config.Accepted) (decoded : peer.Decoded body) (suits : Suits config peer)

include accepted decoded suits

theorem validatePeer_of_suits :
    peer.validatePeer config.peerAsn config.localOpen.routerId config.localOpen.holdTime =
      .ok (agreedHold config.localOpen peer) := by
  rcases accepted.encodes with ⟨bytes, encoded⟩
  have router : ¬(peer.routerId = 0 ∨ peer.routerId = config.localOpen.routerId) :=
    not_or.mpr ⟨suits.named, suits.other⟩
  have hold : ¬(peer.holdTime = 1 ∨ peer.holdTime = 2 ∨ config.localOpen.holdTime = 1 ∨
      config.localOpen.holdTime = 2) := by
    rw [← or_assoc]
    exact not_or.mpr ⟨decoded.hold, hold_of_encode encoded⟩
  unfold Open.validatePeer
  rw [refuse_of_not router, refuse_of_not hold]
  rcases suits.asn with any | same
  · rw [if_neg (not_not.mpr any)]
    rfl
  · by_cases any : config.peerAsn = 0
    · rw [if_neg (not_not.mpr any)]
      rfl
    · rw [if_pos any, same]
      simp only [bind, Except.bind, refuse_of_not (not_not.mpr rfl)]
      rfl

/-- A suitable peer is accepted when its OPEN can be encoded again. -/
theorem negotiate_of_suits (short : peer.spread ≤ 255) : ∃ negotiated,
      negotiate config.localOpen peer config.peerAsn = .ok negotiated ∧
        negotiated.holdTime = agreedHold config.localOpen peer := by
  rcases accepted.encodes with ⟨ours, encodedOurs⟩
  rcases (Open.encodes_iff decoded).mpr short with ⟨theirs, encodedTheirs⟩
  rcases suits.family with ⟨family, here, there⟩
  have common : ¬(config.localOpen.families.filter (· ∈ peer.families)).isEmpty = true := by
    intro empty
    have member : family ∈ config.localOpen.families.filter (· ∈ peer.families) :=
      Std.ExtTreeSet.mem_filter.mpr ⟨here, by simpa using there⟩
    rw [Std.ExtTreeSet.isEmpty_iff.mp empty] at member
    exact Std.ExtTreeSet.not_mem_empty member
  rw [negotiate, encodedOurs, encodedTheirs, validatePeer_of_suits accepted decoded suits]
  simp only [bind, Except.bind, refuse_of_not common]
  exact ⟨_, rfl, rfl⟩

theorem negotiate_iff :
    (∃ negotiated, negotiate config.localOpen peer config.peerAsn = .ok negotiated) ↔
      peer.spread ≤ 255 := by
  constructor
  · rintro ⟨negotiated, agreed⟩
    rcases bind_eq_ok.mp agreed with ⟨ours, -, rest⟩
    rcases bind_eq_ok.mp rest with ⟨theirs, encoded, -⟩
    exact Open.capabilities_bounded encoded
  · intro short
    rcases negotiate_of_suits accepted decoded suits short with ⟨negotiated, agreed, -⟩
    exact ⟨negotiated, agreed⟩

end

namespace Session

/-! ## What the session does -/

variable {now : Nat} {session : Session}

theorem idle_of_resetNotification {next : Session}
    {notification : Option Notification} {actions : List Action}
    (returned : session.resetNotification now notification = .ok (next, actions)) :
    next.state = .idle := by
  simp only [resetNotification, bind_eq_ok] at returned
  rcases returned with ⟨sent, -, renewed, -, idle, -, same⟩
  cases same
  rfl

theorem deadlineUnlessZero_iff {delay : Nat} :
    (∃ time, deadlineUnlessZero now delay = .ok time) ↔ delay = 0 ∨ now + delay < 2 ^ 64 := by
  unfold deadlineUnlessZero
  by_cases zero : delay = 0
  · rw [if_pos zero]
    exact ⟨fun _ => .inl zero, fun _ => ⟨none, rfl⟩⟩
  · rw [if_neg zero, deadline, checkedAdd, u64Limit, refuse]
    by_cases late : 2 ^ 64 ≤ now + delay
    · rw [if_pos late]
      constructor
      · rintro ⟨time, same⟩
        cases same
      · intro early
        omega
    · rw [if_neg late]
      exact ⟨fun _ => .inr (Nat.not_le.mp late), fun _ => ⟨_, rfl⟩⟩

/-- The time at which a hold time runs out is a time of the clock. -/
def HoldFits (hold : U16) (now : Nat) : Prop := hold = 0 ∨ now + hold.toNat * 1000 < 2 ^ 64

/-- The keepalive deadline comes before that of the hold time. -/
theorem acceptOpen_iff {negotiated : Negotiated} :
    (∃ next actions, session.acceptOpen now negotiated = .ok (next, actions) ∧
      next.state = .openConfirm) ↔ HoldFits negotiated.holdTime now := by
  have delay : ∀ held : Session, held.negotiated = some negotiated →
      held.holdDelay = negotiated.holdTime.toNat * 1000 := by
    intro held agreed
    have bound := negotiated.holdTime.isLt
    simp only [holdDelay, agreed, Option.elim_some, u64Limit]
    omega
  have zero : negotiated.holdTime = 0 ↔ negotiated.holdTime.toNat * 1000 = 0 := by
    rw [← BitVec.toNat_inj]
    simp
  unfold HoldFits
  rw [zero]
  constructor
  · rintro ⟨next, actions, accepted, -⟩
    rcases bind_eq_ok.mp accepted with ⟨held, reset, -⟩
    rcases bind_eq_ok.mp reset with ⟨hold, armed, -⟩
    rw [delay _ rfl] at armed
    exact deadlineUnlessZero_iff.mp ⟨hold, armed⟩
  · intro fits
    rcases deadlineUnlessZero_iff.mpr fits with ⟨hold, armed⟩
    let held : Session := { session with
      negotiated := some negotiated, state := .openConfirm, deadlines := { hold } }
    have sooner : held.keepaliveDelay = 0 ∨ now + held.keepaliveDelay < 2 ^ 64 := by
      have bound : held.keepaliveDelay ≤ held.holdDelay / 3 := Nat.min_le_right _ _
      rw [delay held rfl] at bound
      omega
    rcases deadlineUnlessZero_iff.mpr sooner with ⟨keepalive, scheduled⟩
    rw [← delay { session with
      negotiated := some negotiated, state := .openConfirm, deadlines := {} } rfl] at armed
    simp only [acceptOpen, resetHold, armed, scheduleKeepalive, bind, Except.bind, pure,
      Except.pure]
    rw [scheduled]
    exact ⟨_, _, rfl, rfl⟩

theorem message_openSent {body : Bytes}
    (sent : session.state = .openSent) (fits : Fits .openMessage body) :
    session.message ⟨.openMessage, body⟩ now = session.receiveOpen now body := by
  have connected : session.state.Connected := .inl sent
  rw [message, if_neg (not_not.mpr connected), encode_of_fits fits, sent]

/-- A session takes a suitable OPEN when it can be encoded again with a parameter for each
capability, and the hold time runs out at a time of the clock. -/
theorem receiveOpen_iff {session : Session} {now : Nat} {body : Bytes} {peer : Open}
    (accepted : session.config.Accepted) (decoded : Open.decode body = .ok peer)
    (suits : Suits session.config peer) :
    (∃ next actions, session.receiveOpen now body = .ok (next, actions) ∧
        next.state = .openConfirm) ↔
      peer.spread ≤ 255 ∧ HoldFits (agreedHold session.config.localOpen peer) now := by
  have found : (Open.decode body >>= fun peer =>
      negotiate session.config.localOpen peer session.config.peerAsn) =
      negotiate session.config.localOpen peer session.config.peerAsn := by
    rw [decoded]
    rfl
  rw [receiveOpen, found]
  cases agreed : negotiate session.config.localOpen peer session.config.peerAsn with
  | ok negotiated =>
      have short := (negotiate_iff accepted (Open.decoded decoded) suits).mp ⟨negotiated, agreed⟩
      rcases negotiate_of_suits accepted (Open.decoded decoded) suits short with
        ⟨other, again, hold⟩
      cases agreed.symm.trans again
      rw [← hold, and_iff_right short]
      exact acceptOpen_iff
  | error error =>
      constructor
      · rintro ⟨next, actions, returned, confirmed⟩
        rcases bind_eq_ok.mp returned with ⟨data, -, reset⟩
        rw [idle_of_resetNotification reset] at confirmed
        cases confirmed
      · rintro ⟨short, -⟩
        rcases (negotiate_iff accepted (Open.decoded decoded) suits).mpr short with ⟨_, other⟩
        cases agreed.symm.trans other

/-- A decoded OPEN that suits the configuration is negotiated exactly if all its capabilities
fit into optional parameters of their own, and only then a session that waits for it confirms
it; the clock has to reach the end of the hold time. -/
theorem suitable_open_accepted_iff (session : Session) (now : Nat) (body : Bytes) (peer : Open)
    (sent : session.state = .openSent) (accepted : session.config.Accepted)
    (decoded : Open.decode body = .ok peer) (suits : Suits session.config peer) :
    ((∃ negotiated,
        negotiate session.config.localOpen peer session.config.peerAsn = .ok negotiated) ↔
      peer.spread ≤ 255) ∧
    ((∃ next actions, session.message ⟨.openMessage, body⟩ now = .ok (next, actions) ∧
        next.state = .openConfirm) ↔
      peer.spread ≤ 255 ∧ HoldFits (agreedHold session.config.localOpen peer) now) := by
  rw [message_openSent sent (Open.decoded decoded).fits]
  exact ⟨negotiate_iff accepted (Open.decoded decoded) suits,
    receiveOpen_iff accepted decoded suits⟩

def waiting : Session := { exporterSession with state := .openSent, running := true }

def packed (count : Nat) : List Capability :=
  ⟨1, [0, 1, 0, 1]⟩ :: (List.range count).map fun index => ⟨BitVec.ofNat 8 (100 + index), []⟩

def packedBody (count : Nat) : Bytes :=
  [4, 0xfd, 0xea, 0, 30, 10, 0, 0, 2, BitVec.ofNat 8 (2 * count + 8), 2,
    BitVec.ofNat 8 (2 * count + 6)] ++
    (packed count).flatMap fun capability =>
      capability.code :: BitVec.ofNat 8 capability.value.length :: capability.value

theorem exporter_accepted : exporter.Accepted :=
  ⟨⟨_, rfl⟩, by decide, by decide⟩

def packedOpen (count : Nat) : Open := ⟨65002, 30, 0x0a000002, packed count⟩

theorem decode_packed : Open.decode (packedBody 62) = .ok (packedOpen 62) := by
  decide +kernel

theorem suits_packed : Suits exporter (packedOpen 62) :=
  ⟨.inr (by decide +kernel), by decide, by decide, ⟨1, 1⟩, by decide +kernel, by decide +kernel⟩

/-- The message has 132 bytes of optional parameters; encoded again it would have 256. -/
theorem packed_open_refused :
    Open.decode (packedBody 62) = .ok (packedOpen 62) ∧ Suits exporter (packedOpen 62) ∧
      (∀ negotiated,
        negotiate exporter.localOpen (packedOpen 62) exporter.peerAsn ≠ .ok negotiated) ∧
      ∀ next actions, waiting.message ⟨.openMessage, packedBody 62⟩ 20 = .ok (next, actions) →
        next.state ≠ .openConfirm := by
  have long : ¬(packedOpen 62).spread ≤ 255 := by decide +kernel
  refine ⟨decode_packed, suits_packed, ?_, ?_⟩
  · intro negotiated agreed
    exact long ((negotiate_iff exporter_accepted (Open.decoded decode_packed) suits_packed).mp
      ⟨negotiated, agreed⟩)
  · intro next actions returned confirmed
    rw [message_openSent rfl (Open.decoded decode_packed).fits] at returned
    exact long ((@receiveOpen_iff waiting 20 _ _ exporter_accepted decode_packed suits_packed).mp
      ⟨next, actions, returned, confirmed⟩).1

/-- With one capability less the same peer is confirmed. -/
theorem suitable_open_accepted_sixty_one :
    ∃ next actions, waiting.message ⟨.openMessage, packedBody 61⟩ 20 = .ok (next, actions) ∧
      next.state = .openConfirm := by
  have decoded : Open.decode (packedBody 61) = .ok (packedOpen 61) := by decide +kernel
  have suits : Suits exporter (packedOpen 61) :=
    ⟨.inr (by decide +kernel), by decide, by decide, ⟨1, 1⟩, by decide +kernel, by decide +kernel⟩
  exact (suitable_open_accepted_iff waiting 20 (packedBody 61) (packedOpen 61) rfl
    exporter_accepted decoded suits).2.mpr ⟨by decide +kernel, .inr (by decide)⟩

end Session

end FlowSdn.Bgp
