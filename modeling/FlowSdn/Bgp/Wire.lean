import FlowSdn.Foundation.OrderedMap
import FlowSdn.Foundation.Reader

/-! # BGP message framing

The envelope that every message has, with the length that each kind admits, and
the NOTIFICATION and ROUTE-REFRESH bodies. Marker content is accepted.
-/

namespace FlowSdn.Bgp

open Buffer Words

def headerLength : Nat := 19

def maxMessageLength : Nat := 4096

inductive ErrorScope
  | framing
  | attributeStructure
  | updateContent
  | openMessage
  deriving DecidableEq

structure ProtocolError where
  code : U8
  subcode : U8
  scope : ErrorScope
  deriving DecidableEq

inductive DecodeError
  | needMore
  | protocol (error : ProtocolError)
  deriving DecidableEq

inductive Kind
  | openMessage
  | update
  | notification
  | keepalive
  | routeRefresh
  deriving DecidableEq

namespace Kind

def code : Kind → U8
  | openMessage => 1
  | update => 2
  | notification => 3
  | keepalive => 4
  | routeRefresh => 5

def ofCode (code : U8) : Option Kind :=
  [openMessage, update, notification, keepalive, routeRefresh].find? (·.code = code)

/-- The lengths, header included, that a message of the kind may have. -/
def Admits : Kind → Nat → Prop
  | openMessage, length => 29 ≤ length
  | update, length => 23 ≤ length
  | notification, length => 21 ≤ length
  | keepalive, length => length = 19
  | routeRefresh, length => length = 23

instance : (kind : Kind) → (length : Nat) → Decidable (kind.Admits length)
  | openMessage, length => inferInstanceAs (Decidable (29 ≤ length))
  | update, length => inferInstanceAs (Decidable (23 ≤ length))
  | notification, length => inferInstanceAs (Decidable (21 ≤ length))
  | keepalive, length => inferInstanceAs (Decidable (length = 19))
  | routeRefresh, length => inferInstanceAs (Decidable (length = 23))

@[simp] theorem ofCode_code (kind : Kind) : ofCode kind.code = some kind := by
  cases kind <;> rfl

end Kind

structure Frame where
  kind : Kind
  body : Bytes
  deriving DecidableEq

def framing (subcode : U8) : ProtocolError := ⟨1, subcode, .framing⟩

/-- One frame and its byte count; trailing bytes belong to the next frame. -/
def decode (bytes : Bytes) : Except DecodeError (Frame × Nat) :=
  if bytes.length < headerLength then .error .needMore
  else
    let length := beValue ((bytes.drop 16).take 2)
    if length < headerLength ∨ maxMessageLength < length then .error (.protocol (framing 2))
    else
      match bytes[18]?.bind Kind.ofCode with
      | none => .error (.protocol (framing 3))
      | some kind =>
          if ¬kind.Admits length then .error (.protocol (framing 2))
          else if bytes.length < length then .error .needMore
          else .ok (⟨kind, (bytes.take length).drop headerLength⟩, length)

def envelope (kind : Kind) (body : Bytes) : Bytes :=
  List.replicate 16 0xff ++ beBytes 2 (headerLength + body.length) ++ kind.code :: body

def encode (kind : Kind) (body : Bytes) : Except ProtocolError Bytes :=
  if maxMessageLength < headerLength + body.length then .error (framing 2)
  else
    match decode (envelope kind body) with
    | .error (.protocol error) => .error error
    | .error .needMore => .error (framing 2)
    | .ok _ => .ok (envelope kind body)

inductive ErrorAction
  | notifyAndClose
  | countLogAndDiscard
  deriving DecidableEq

def errorAction (error : ProtocolError) (strictUpdateErrors : Bool) : ErrorAction :=
  if error.scope = .updateContent ∧ ¬strictUpdateErrors then .countLogAndDiscard
  else .notifyAndClose

/-! ## What encodes -/

/-- The message is long enough for its kind and within the limit of all messages. -/
structure Fits (kind : Kind) (body : Bytes) : Prop where
  admitted : kind.Admits (headerLength + body.length)
  bounded : headerLength + body.length ≤ maxMessageLength

@[simp] theorem envelope_length (kind : Kind) (body : Bytes) :
    (envelope kind body).length = headerLength + body.length := by
  simp [envelope, headerLength]
  omega

theorem decode_envelope (kind : Kind) {body : Bytes}
    (bounded : headerLength + body.length ≤ maxMessageLength) :
    decode (envelope kind body) =
      if kind.Admits (headerLength + body.length) then
        .ok (⟨kind, body⟩, headerLength + body.length)
      else .error (.protocol (framing 2)) := by
  have stated : beValue (((envelope kind body).drop 16).take 2) = headerLength + body.length := by
    have field :
        ((envelope kind body).drop 16).take 2 = beBytes 2 (headerLength + body.length) := by
      rw [envelope, List.append_assoc, List.drop_left' (by simp), List.take_left' (by simp)]
    rw [field, beValue_beBytes]
    simp only [maxMessageLength] at bounded
    omega
  have named : (envelope kind body)[18]? = some kind.code := by
    rw [envelope, List.getElem?_append_right (by simp)]
    simp
  have carried : ((envelope kind body).take (headerLength + body.length)).drop headerLength =
      body := by
    rw [← envelope_length kind body, List.take_length, envelope,
      ← List.singleton_append (x := kind.code), ← List.append_assoc,
      List.drop_left' (by simp [headerLength])]
  have header : ¬headerLength + body.length < headerLength := by omega
  have limit : ¬(headerLength + body.length < headerLength ∨
      maxMessageLength < headerLength + body.length) := by omega
  simp only [decode, stated, named, carried, envelope_length, if_neg header, if_neg limit,
    Option.bind_some, Kind.ofCode_code, Nat.lt_irrefl, if_false, ite_not]

variable {kind : Kind}

theorem encode_of_fits {body : Bytes} (fits : Fits kind body) :
    encode kind body = .ok (envelope kind body) := by
  rw [encode, if_neg (Nat.not_lt.mpr fits.bounded), decode_envelope kind fits.bounded,
    if_pos fits.admitted]

theorem fits_of_encode {body bytes : Bytes} (encoded : encode kind body = .ok bytes) :
    Fits kind body ∧ bytes = envelope kind body := by
  unfold encode at encoded
  split at encoded
  · cases encoded
  · rename_i within
    have bounded := Nat.not_lt.mp within
    rw [decode_envelope kind bounded] at encoded
    by_cases admitted : kind.Admits (headerLength + body.length)
    · rw [if_pos admitted] at encoded
      cases encoded
      exact ⟨⟨admitted, bounded⟩, rfl⟩
    · rw [if_neg admitted] at encoded
      cases encoded

theorem encode_error {body : Bytes} {error : ProtocolError}
    (refused : encode kind body = .error error) : error = framing 2 := by
  unfold encode at refused
  split at refused
  · cases refused
    rfl
  · rename_i within
    rw [decode_envelope kind (Nat.not_lt.mp within)] at refused
    by_cases admitted : kind.Admits (headerLength + body.length)
    · rw [if_pos admitted] at refused
      cases refused
    · rw [if_neg admitted] at refused
      cases refused
      rfl

structure Family where
  afi : U16
  safi : U8
  deriving DecidableEq

namespace Family

def Valid (family : Family) : Prop := (family.afi = 1 ∨ family.afi = 2) ∧ family.safi = 1

instance (family : Family) : Decidable family.Valid := inferInstanceAs (Decidable (_ ∧ _))

def validate (family : Family) : Except ProtocolError Unit :=
  if family.Valid then .ok () else .error ⟨2, 7, .openMessage⟩

def rank (family : Family) : Nat := 256 * family.afi.toNat + family.safi.toNat

theorem rank_injective {left right : Family} (equal : left.rank = right.rank) : left = right := by
  rcases left with ⟨leftAfi, leftSafi⟩
  rcases right with ⟨rightAfi, rightSafi⟩
  have leftBound := leftSafi.isLt
  have rightBound := rightSafi.isLt
  simp only [rank] at equal
  have afi : leftAfi = rightAfi := BitVec.eq_of_toNat_eq (by omega)
  have safi : leftSafi = rightSafi := BitVec.eq_of_toNat_eq (by omega)
  rw [afi, safi]

/-- Families are ordered by their address family first. -/
instance : Ord Family where
  compare := compareOn rank

instance : Std.TransOrd Family := inferInstanceAs (Std.TransCmp (compareOn rank))

instance : Std.LawfulEqOrd Family where
  eq_of_compare equal := rank_injective (Std.LawfulEqOrd.eq_of_compare equal)

end Family

/-! ## NOTIFICATION and ROUTE-REFRESH bodies -/

structure Notification where
  code : U8
  subcode : U8
  data : Bytes
  deriving DecidableEq

namespace Notification

def body (notification : Notification) : Bytes :=
  notification.code :: notification.subcode :: notification.data

def encode (notification : Notification) : Except ProtocolError Bytes := do
  let _ ← Bgp.encode .notification notification.body
  return notification.body

def decode : Bytes → Except ProtocolError Notification
  | code :: subcode :: data =>
      if 4077 < (code :: subcode :: data).length then .error (framing 2)
      else .ok ⟨code, subcode, data⟩
  | _ => .error (framing 2)

/-- The original cause wrapped in Cease/9 when both sides support notifications. -/
def hardReset (notification : Notification) (notifications : Bool) :
    Except ProtocolError Notification :=
  if ¬notifications then .ok notification
  else do
    let data ← notification.encode
    let wrapped : Notification := ⟨6, 9, data⟩
    let _ ← wrapped.encode
    return wrapped

def permitsGracefulRestart (notification : Notification) (notifications : Bool) : Bool :=
  notifications && !(notification.code = 6 && notification.subcode = 9)

def unsupportedVersion : Notification := ⟨2, 1, [0, 4]⟩

variable {notification : Notification}

theorem encode_of_length (short : notification.data.length ≤ 4075) :
    notification.encode = .ok notification.body := by
  have fits : Fits .notification notification.body := by
    constructor <;> simp [Kind.Admits, body, headerLength, maxMessageLength] <;> omega
  rw [encode, encode_of_fits fits]
  rfl

theorem fits_of_encode {bytes : Bytes}
    (encoded : notification.encode = .ok bytes) : Fits .notification bytes := by
  unfold encode at encoded
  cases framed : Bgp.encode .notification notification.body with
  | error error =>
      rw [framed] at encoded
      cases encoded
  | ok message =>
      rw [framed] at encoded
      cases encoded
      exact (Bgp.fits_of_encode framed).1

theorem hardReset_of_length (notifications : Bool) (short : notification.data.length ≤ 4073) :
    ∃ wrapped, notification.hardReset notifications = .ok wrapped ∧ wrapped.data.length ≤ 4075 := by
  unfold hardReset
  cases notifications with
  | false => exact ⟨notification, rfl, by omega⟩
  | true =>
      have length : notification.body.length ≤ 4075 := by
        simp only [body, List.length_cons]
        omega
      have outer : (⟨6, 9, notification.body⟩ : Notification).encode =
          .ok (⟨6, 9, notification.body⟩ : Notification).body := encode_of_length length
      rw [if_neg (by simp), encode_of_length (by omega)]
      simp only [bind, Except.bind, outer]
      exact ⟨_, rfl, length⟩

end Notification

def decodeRefresh : Bytes → Except ProtocolError Family
  | [first, second, _, safi] => do
      let family : Family := ⟨BitVec.ofNat 16 (beValue [first, second]), safi⟩
      family.validate
      return family
  | _ => .error ⟨7, 1, .framing⟩

end FlowSdn.Bgp
