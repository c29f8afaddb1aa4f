import FlowSdn.Bgp.Wire
import FlowSdn.Net.Address

/-! # UPDATE validation

The prefixes, attributes and enclosing lengths of a received UPDATE. Outer
lengths and attribute boundaries are checked before any content, so that an
early content error cannot hide a later structural one.
-/

namespace FlowSdn.Bgp

open Buffer Words Checked Net

def updateError (subcode : U8) (structural : Bool) : ProtocolError :=
  ⟨3, subcode, if structural then .attributeStructure else .updateContent⟩

/-! ## Addresses and prefixes -/

/-- The address with its low bits cleared by a shift down and a shift back. -/
def clearLow (shift : Nat) : IpAddr → IpAddr
  | .v4 address => .v4 ((address >>> shift) <<< shift)
  | .v6 address => .v6 ((address >>> shift) <<< shift)

@[simp] theorem hostBits_clearLow (shift : Nat) (address : IpAddr) :
    (clearLow shift address).hostBits = address.hostBits := by
  cases address <;> rfl

theorem toNat_clearLow_word (word : BitVec width) (shift : Nat) :
    ((word >>> shift) <<< shift).toNat = word.toNat / 2 ^ shift * 2 ^ shift := by
  have below : word.toNat / 2 ^ shift * 2 ^ shift < 2 ^ width :=
    lt_of_le_of_lt (Nat.div_mul_le_self ..) word.isLt
  rw [BitVec.toNat_shiftLeft, BitVec.toNat_ushiftRight, Nat.shiftLeft_eq,
    Nat.shiftRight_eq_div_pow, Nat.mod_eq_of_lt below]

theorem clearLow_word_again (word : BitVec width) (shift : Nat) :
    (((word >>> shift) <<< shift) >>> shift) <<< shift = (word >>> shift) <<< shift := by
  apply BitVec.eq_of_toNat_eq
  rw [toNat_clearLow_word, toNat_clearLow_word, Nat.mul_div_cancel _ (by positivity)]

@[simp] theorem clearLow_clearLow (shift : Nat) (address : IpAddr) :
    clearLow shift (clearLow shift address) = clearLow shift address := by
  cases address <;> simp [clearLow, clearLow_word_again]

/-- A network with no bit set after its length. -/
structure Prefix where
  address : IpAddr
  bits : U8
  within : bits.toNat ≤ address.hostBits
  cleared : clearLow (address.hostBits - bits.toNat) address = address
  deriving DecidableEq

namespace Prefix

def new (address : IpAddr) (bits : U8) : Except ProtocolError Prefix :=
  if within : bits.toNat ≤ address.hostBits then
    .ok {
      address := clearLow (address.hostBits - bits.toNat) address
      bits
      within := by simpa using within
      cleared := by simp }
  else .error (updateError 10 false)

end Prefix

namespace Update

def byte (subcode : U8) (structural : Bool) : Reader U8 ProtocolError U8 :=
  Reader.one (updateError subcode structural)

def take (length : Nat) (subcode : U8) (structural : Bool) : Reader U8 ProtocolError Bytes :=
  Reader.take (updateError subcode structural) length

def short (subcode : U8) (structural : Bool) : Reader U8 ProtocolError U16 := do
  let bytes ← take 2 subcode structural
  return BitVec.ofNat 16 (beValue bytes)

def padded (ipv6 : Bool) (payload : Bytes) : IpAddr :=
  if ipv6 then .v6 (BitVec.ofNat 128 (beValue (payload.rightpad 16 0)))
  else .v4 (BitVec.ofNat 32 (beValue (payload.rightpad 4 0)))

def network (ipv6 : Bool) : Reader U8 ProtocolError Prefix := do
  let bits ← byte 10 false
  refuse ((if ipv6 then 128 else 32) < bits.toNat) (updateError 10 false)
  let payload ← take ((bits.toNat + 7) / 8) 10 false
  Prefix.new (padded ipv6 payload) bits

def prefixes (bytes : Bytes) (ipv6 : Bool) : Except ProtocolError (List Prefix) :=
  Reader.untilEmpty (network ipv6) bytes

/-! ## Attributes -/

structure UnknownTransitive where
  flags : U8
  code : U8
  value : Bytes
  deriving DecidableEq

structure Summary where
  withdrawn : List Prefix := []
  announced : List Prefix := []
  mpAnnounced : List Prefix := []
  mpWithdrawn : List Prefix := []
  unknownTransitive : List UnknownTransitive := []
  deriving DecidableEq

def segment (width : Nat) : Reader U8 ProtocolError Unit := do
  let kind ← byte 11 false
  let count ← byte 11 false
  refuse ((kind ≠ 1 ∧ kind ≠ 2) ∨ count = 0) (updateError 11 false)
  let _ ← take (count.toNat * width) 11 false
  return ()

def asPath (value : Bytes) (width : Nat) : Except ProtocolError Unit := do
  let _ ← Reader.untilEmpty (segment width) value
  return ()

/-- The next hop and the reserved byte, which only reachable prefixes have. -/
def nextHop (reach : Bool) (afi : U16) : Reader U8 ProtocolError Unit :=
  if reach then do
    let length ← byte 9 false
    refuse ((length ≠ 4 ∧ length ≠ 16 ∧ length ≠ 32) ∨ (afi = 2 ∧ length = 4)) (updateError 9 false)
    let _ ← take length.toNat 9 false
    let _ ← byte 9 false
    return ()
  else return ()

def mpHeader (reach : Bool) : Reader U8 ProtocolError U16 := do
  let afi ← short 9 false
  let safi ← byte 9 false
  refuse ((afi ≠ 1 ∧ afi ≠ 2) ∨ safi ≠ 1) (updateError 9 false)
  nextHop reach afi
  return afi

def mp (value : Bytes) (reach : Bool) : Except ProtocolError (List Prefix) := do
  let (afi, bytes) ← (mpHeader reach).run value
  prefixes bytes (afi = 2)

/-- One attribute as it stands in the message, with all its bytes. -/
structure Field where
  flags : U8
  code : U8
  value : Bytes
  raw : Bytes
  deriving DecidableEq

def fieldLength (flags : U8) : Reader U8 ProtocolError Nat :=
  if flags &&& 0x10 ≠ 0 then do
    let length ← short 5 true
    return length.toNat
  else do
    let length ← byte 5 true
    return length.toNat

def field : Reader U8 ProtocolError Field := do
  let raw ← get
  let flags ← byte 1 true
  let code ← byte 1 true
  let length ← fieldLength flags
  let value ← take length 5 true
  let rest ← get
  return ⟨flags, code, value, raw.take (raw.length - rest.length)⟩

def expectedFlags (code : U8) : Option U8 :=
  match code.toNat with
  | 1 | 2 | 3 | 5 | 6 => some 0x40
  | 4 | 14 | 15 => some 0x80
  | 7 | 8 | 17 | 18 | 32 => some 0xc0
  | _ => none

def isMulticast (address : U32) : Bool := address >>> 28 = 0xe

def unusable (address : U32) : Bool :=
  address = 0 || isMulticast address || address = BitVec.allOnes 32

/-- What the value of a known attribute adds to the summary. -/
def interpret (fourOctetAsn : Bool) (summary : Summary) (code : U8) (value : Bytes) :
    Except ProtocolError Summary :=
  match code.toNat with
  | 1 => do
      refuse (value.length ≠ 1) (updateError 5 false)
      refuse (value.head?.all (2 < ·)) (updateError 6 false)
      return summary
  | 2 => do
      asPath value (if fourOctetAsn then 4 else 2)
      return summary
  | 17 => do
      asPath value 4
      return summary
  | 3 => do
      refuse (value.length ≠ 4) (updateError 5 false)
      refuse (unusable (BitVec.ofNat 32 (beValue value))) (updateError 8 false)
      return summary
  | 4 | 5 => do
      refuse (value.length ≠ 4) (updateError 5 false)
      return summary
  | 6 => do
      refuse (value ≠ []) (updateError 5 false)
      return summary
  | 7 => do
      refuse (value.length ≠ if fourOctetAsn then 8 else 6) (updateError 5 false)
      return summary
  | 18 => do
      refuse (value.length ≠ 8) (updateError 5 false)
      return summary
  | 8 => do
      refuse (value.length % 4 ≠ 0) (updateError 5 false)
      return summary
  | 32 => do
      refuse (value.length % 12 ≠ 0) (updateError 5 false)
      return summary
  | 14 => do
      let announced ← mp value true
      return { summary with mpAnnounced := announced }
  | 15 => do
      let withdrawn ← mp value false
      return { summary with mpWithdrawn := withdrawn }
  | _ => .ok summary

def inspect (fourOctetAsn : Bool) (seen : List U8) (summary : Summary) (field : Field) :
    Except ProtocolError (List U8 × Summary) := do
  refuse (field.code ∈ seen) (updateError 1 false)
  refuse (field.flags &&& 0x20 ≠ 0 ∧ field.flags &&& 0xc0 ≠ 0xc0) (updateError 4 false)
  match expectedFlags field.code with
  | some expected => do
      refuse (field.flags &&& 0xc0 ≠ expected ∨ (field.flags &&& 0x20 ≠ 0 ∧ expected ≠ 0xc0))
        (updateError 4 false)
      let summary ← interpret fourOctetAsn summary field.code field.value
      return (field.code :: seen, summary)
  | none => do
      refuse (field.flags &&& 0x80 = 0) (updateError 2 false)
      return (field.code :: seen,
        if field.flags &&& 0x40 ≠ 0 then
          { summary with unknownTransitive := summary.unknownTransitive ++
              [⟨field.flags ||| 0x20, field.code, field.value⟩] }
        else summary)

/-! ## The whole message -/

structure Failure where
  error : ProtocolError
  data : Bytes
  deriving DecidableEq

def bare (result : Except ProtocolError α) : Except Failure α :=
  result.mapError fun error => ⟨error, []⟩

/-- The withdrawn routes and the attributes, each after its length. -/
def sections : Reader U8 ProtocolError (Bytes × Bytes) := do
  let withdrawnLength ← short 1 true
  let withdrawn ← take withdrawnLength.toNat 1 true
  let attributeLength ← short 1 true
  let attributes ← take attributeLength.toNat 1 true
  return (withdrawn, attributes)

/-- The attribute in front; a malformed one is reported with all bytes from it on. -/
def reportedField : Reader U8 Failure Field := fun raw =>
  (field.run raw).mapError fun error => ⟨error, raw⟩

/-- One more attribute; one that is refused is reported with its own bytes. -/
def inspectField (fourOctetAsn : Bool) (state : List U8 × Summary) (field : Field) :
    Except Failure (List U8 × Summary) :=
  (inspect fourOctetAsn state.1 state.2 field).mapError fun error => ⟨error, field.raw⟩

def mandatory (seen : List U8) (summary : Summary) : Except Failure Unit := do
  refuse ((summary.announced ≠ [] ∨ summary.mpAnnounced ≠ []) ∧ (1 ∉ seen ∨ 2 ∉ seen))
    ⟨updateError 3 false, [if 1 ∉ seen then 1 else 2]⟩
  refuse (summary.announced ≠ [] ∧ 3 ∉ seen) ⟨updateError 3 false, [3]⟩

def validateInner (body : Bytes) (fourOctetAsn : Bool) : Except Failure Summary := do
  refuse (maxMessageLength - headerLength < body.length) (⟨framing 2, []⟩ : Failure)
  let ((withdrawn, attributes), nlri) ← bare (sections.run body)
  let fields ← Reader.untilEmpty reportedField attributes
  let withdrawn ← bare (prefixes withdrawn false)
  let announced ← bare (prefixes nlri false)
  let (seen, summary) ← fields.foldlM (inspectField fourOctetAsn) ([], { withdrawn, announced })
  mandatory seen summary
  return summary

/-- The bytes that go with the error, only for errors that carry some and within one message. -/
def Failure.trimmed (failure : Failure) : Failure :=
  let kept := if failure.error.code = 3 ∧ failure.error.subcode.toNat ∈ [2, 3, 4, 5, 6, 8, 9] then
    failure.data else []
  ⟨failure.error, kept.take (maxMessageLength - 21)⟩

def validateDetailed (body : Bytes) (fourOctetAsn : Bool) : Except Failure Summary :=
  (validateInner body fourOctetAsn).mapError Failure.trimmed

def validate (body : Bytes) (fourOctetAsn : Bool) : Except ProtocolError Summary :=
  (validateDetailed body fourOctetAsn).mapError (·.error)

/-! ## Refusals

No refused UPDATE is reported as a Cease, and what is reported fits into one message.
-/

def NotCease (error : ProtocolError) : Prop := error.code ≠ 6

def Failure.NotCease (failure : Failure) : Prop := Update.NotCease failure.error

theorem updateError_notCease (structural : Bool) (subcode : U8) :
    NotCease (updateError subcode structural) := show (3 : U8) ≠ 6 by decide

section Faults

variable {Fault : ProtocolError → Prop} {subcode : U8} {structural : Bool}

theorem byte_refuses (faulty : Fault (updateError subcode structural)) :
    (byte subcode structural).Refuses Fault := Reader.Refuses.one faulty

theorem take_refuses (length : Nat) (faulty : Fault (updateError subcode structural)) :
    (take length subcode structural).Refuses Fault := Reader.Refuses.take faulty length

theorem short_refuses (faulty : Fault (updateError subcode structural)) :
    (short subcode structural).Refuses Fault := (take_refuses 2 faulty).bind fun _ => .pure _

section Structure

variable (fatal : ∀ subcode, Fault (updateError subcode true))

include fatal

theorem fieldLength_refuses (flags : U8) : (fieldLength flags).Refuses Fault := by
  unfold fieldLength
  split
  · exact (short_refuses (fatal 5)).bind fun _ => .pure _
  · exact (byte_refuses (fatal 5)).bind fun _ => .pure _

theorem field_refuses : field.Refuses Fault := by
  apply Reader.Refuses.get.bind
  intro raw
  apply (byte_refuses (fatal 1)).bind
  intro flags
  apply (byte_refuses (fatal 1)).bind
  intro code
  apply (fieldLength_refuses fatal flags).bind
  intro length
  apply (take_refuses length (fatal 5)).bind
  intro value
  exact Reader.Refuses.get.bind fun _ => .pure _

theorem fields_ends (attributes : Bytes) :
    Ends (fun _ => True) (Fault ·.error) (Reader.untilEmpty reportedField attributes) := by
  have reported : reportedField.Refuses (Fault ·.error) := by
    intro raw
    exact (field_refuses fatal raw).mapError fun _ faulty => faulty
  exact reported.untilEmpty attributes

theorem sections_refuses : sections.Refuses Fault := by
  apply (short_refuses (fatal 1)).bind
  intro _
  apply (take_refuses _ (fatal 1)).bind
  intro _
  apply (short_refuses (fatal 1)).bind
  intro _
  exact (take_refuses _ (fatal 1)).bind fun _ => .pure _

end Structure

theorem bare_ends {result : Except ProtocolError α} (ends : Ends (fun _ => True) Fault result) :
    Ends (fun _ => True) (Fault ·.error) (bare result) :=
  ends.mapError fun _ faulty => faulty

/-! ### Content -/

variable (content : ∀ subcode, Fault (updateError subcode false))

include content

theorem refuse_ends (condition : Prop) [Decidable condition] (subcode : U8) :
    Ends (fun _ => True) Fault (refuse condition (updateError subcode false)) :=
  (Ends.refuse fun _ => content subcode).weaken fun _ _ => trivial

theorem new_ends (address : IpAddr) (bits : U8) :
    Ends (fun _ => True) Fault (Prefix.new address bits) := by
  unfold Prefix.new
  split
  · exact .ok trivial
  · exact .error (content 10)

theorem network_refuses (ipv6 : Bool) : (network ipv6).Refuses Fault := by
  apply (byte_refuses (content 10)).bind
  intro bits
  apply (Reader.Refuses.lift (refuse_ends content _ 10)).bind
  intro _
  apply (take_refuses _ (content 10)).bind
  intro payload
  exact .lift (new_ends content _ bits)

theorem prefixes_ends (bytes : Bytes) (ipv6 : Bool) :
    Ends (fun _ => True) Fault (prefixes bytes ipv6) :=
  (network_refuses content ipv6).untilEmpty bytes

theorem segment_refuses (width : Nat) : (segment width).Refuses Fault := by
  apply (byte_refuses (content 11)).bind
  intro kind
  apply (byte_refuses (content 11)).bind
  intro count
  apply (Reader.Refuses.lift (refuse_ends content _ 11)).bind
  intro _
  exact (take_refuses _ (content 11)).bind fun _ => .pure _

theorem asPath_ends (value : Bytes) (width : Nat) :
    Ends (fun _ => True) Fault (asPath value width) :=
  ((segment_refuses content width).untilEmpty value).bind fun _ _ => .pure trivial

theorem nextHop_refuses (reach : Bool) (afi : U16) : (nextHop reach afi).Refuses Fault := by
  cases reach with
  | false => exact .pure _
  | true =>
      apply (byte_refuses (content 9)).bind
      intro length
      apply (Reader.Refuses.lift (refuse_ends content _ 9)).bind
      intro _
      apply (take_refuses _ (content 9)).bind
      intro _
      exact (byte_refuses (content 9)).bind fun _ => .pure _

theorem mp_ends (value : Bytes) (reach : Bool) : Ends (fun _ => True) Fault (mp value reach) := by
  have header : (mpHeader reach).Refuses Fault := by
    apply (short_refuses (content 9)).bind
    intro afi
    apply (byte_refuses (content 9)).bind
    intro safi
    apply (Reader.Refuses.lift (refuse_ends content _ 9)).bind
    intro _
    exact (nextHop_refuses content reach afi).bind fun _ => .pure _
  exact (header value).bind fun read _ => prefixes_ends content read.2 _

theorem checked_ends (condition : Prop) [Decidable condition] (subcode : U8) (summary : Summary) :
    Ends (fun _ => True) Fault (do refuse condition (updateError subcode false); return summary) :=
  (refuse_ends content condition subcode).bind fun _ _ => .pure trivial

theorem interpret_ends (fourOctetAsn : Bool) (summary : Summary) (code : U8) (value : Bytes) :
    Ends (fun _ => True) Fault (interpret fourOctetAsn summary code value) := by
  unfold interpret
  split
  · exact (refuse_ends content _ 5).bind fun _ _ => checked_ends content _ 6 summary
  · exact (asPath_ends content value _).bind fun _ _ => .pure trivial
  · exact (asPath_ends content value 4).bind fun _ _ => .pure trivial
  · exact (refuse_ends content _ 5).bind fun _ _ => checked_ends content _ 8 summary
  iterate 7 exact checked_ends content _ 5 summary
  · exact (mp_ends content value true).bind fun _ _ => .pure trivial
  · exact (mp_ends content value false).bind fun _ _ => .pure trivial
  · exact .ok trivial

theorem inspect_ends (fourOctetAsn : Bool) (seen : List U8) (summary : Summary) (field : Field) :
    Ends (fun _ => True) Fault (inspect fourOctetAsn seen summary field) := by
  apply (refuse_ends content _ 1).bind
  intro _ _
  apply (refuse_ends content _ 4).bind
  intro _ _
  split
  · apply (refuse_ends content _ 4).bind
    intro _ _
    exact (interpret_ends content fourOctetAsn summary field.code field.value).bind
      fun _ _ => .pure trivial
  · exact (refuse_ends content _ 2).bind fun _ _ => .pure trivial

theorem mandatory_ends (seen : List U8) (summary : Summary) :
    Ends (fun _ => True) (Fault ·.error) (mandatory seen summary) := by
  refine Ends.bind (Ends.refuse fun _ => ?_) fun _ _ => ?_
  · exact content 3
  · refine Ends.weaken (Ends.refuse fun _ => ?_) fun _ _ => trivial
    exact content 3

theorem inspectFields_ends (fourOctetAsn : Bool) (state : List U8 × Summary) (fields : List Field) :
    Ends (fun _ => True) (Fault ·.error) (fields.foldlM (inspectField fourOctetAsn) state) := by
  induction fields generalizing state with
  | nil => exact .ok trivial
  | cons head fields induction =>
      rw [List.foldlM_cons]
      have step : Ends (fun _ => True) (Fault ·.error) (inspectField fourOctetAsn state head) :=
        (inspect_ends content fourOctetAsn state.1 state.2 head).mapError fun _ faulty => faulty
      exact step.bind fun next _ => induction next

theorem content_ends (withdrawn nlri : Bytes) (fields : List Field) (fourOctetAsn : Bool) :
    Ends (fun _ => True) (Fault ·.error) (do
      let withdrawn ← bare (prefixes withdrawn false)
      let announced ← bare (prefixes nlri false)
      let (seen, summary) ← fields.foldlM (inspectField fourOctetAsn)
        ([], { withdrawn, announced })
      mandatory seen summary
      return summary) := by
  apply (bare_ends (prefixes_ends content _ false)).bind
  intro withdrawn _
  apply (bare_ends (prefixes_ends content _ false)).bind
  intro announced _
  apply (inspectFields_ends content fourOctetAsn _ fields).bind
  intro state _
  exact (mandatory_ends content state.1 state.2).bind fun _ _ => .pure trivial

end Faults

theorem validateInner_ends (body : Bytes) (fourOctetAsn : Bool) :
    Ends (fun _ => True) Failure.NotCease (validateInner body fourOctetAsn) := by
  have oversized : Failure.NotCease ⟨framing 2, []⟩ := by
    simp [Failure.NotCease, NotCease, framing]
  apply (Ends.refuse fun _ => oversized).bind
  intro _ _
  apply (bare_ends (sections_refuses (updateError_notCease true) body)).bind
  intro read _
  apply (fields_ends (updateError_notCease true) _).bind
  intro fields _
  exact content_ends (updateError_notCease false) _ _ fields fourOctetAsn

theorem validateDetailed_ends (body : Bytes) (fourOctetAsn : Bool) :
    Ends (fun _ => True) (fun failure => failure.error.code ≠ 6 ∧ failure.data.length ≤ 4075)
      (validateDetailed body fourOctetAsn) := by
  apply (validateInner_ends body fourOctetAsn).mapError
  intro failure notCease
  refine ⟨notCease, ?_⟩
  simp [Failure.trimmed, maxMessageLength]

end Update

end FlowSdn.Bgp
