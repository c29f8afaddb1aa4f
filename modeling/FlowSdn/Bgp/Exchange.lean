import FlowSdn.Bgp.Packed

/-! # The exchange of two OPEN messages

An OPEN that was encoded is decoded as it was, and two speakers that accept each other's OPEN
agree on the session.
-/

namespace FlowSdn.Bgp

open Buffer Words OrderedMap Checked

namespace Open

/-! ## The round trip -/

theorem run_word {width : Nat} (octets : 2 ^ width = 256 ^ (width / 8)) (value : BitVec width)
    (rest : Bytes) : (word width).run (wordBytes value ++ rest) = .ok (value, rest) := by
  refine Reader.run_bind_eq_ok.mpr ⟨_, _, Reader.run_take_eq_ok.mpr ⟨rfl, beBytes_length ..⟩, ?_⟩
  rw [wordBytes, beValue_beBytes (octets ▸ value.isLt), BitVec.ofNat_toNat, BitVec.setWidth_eq]
  rfl

theorem toNat_byte {number : Nat} (short : ¬255 < number) :
    (BitVec.ofNat 8 number).toNat = number := by
  rw [BitVec.toNat_ofNat, Nat.mod_eq_of_lt (by omega)]

theorem run_parameter {found : Capability} {bytes : Bytes}
    (encoded : encodeCapability found = .ok bytes) :
    bytes ≠ [] ∧ ∀ rest, parameter.run (bytes ++ rest) = .ok ([found], rest) := by
  simp only [encodeCapability, bind_eq_ok, refuse_eq_ok] at encoded
  rcases encoded with ⟨⟨⟩, valid, -, short, same⟩
  cases same
  let plain := found.code :: BitVec.ofNat 8 found.value.length :: found.value
  have one : ∀ rest, capability.run (plain ++ rest) = .ok (found, rest) := by
    intro rest
    refine Reader.run_bind_eq_ok.mpr ⟨_, _, rfl, Reader.run_bind_eq_ok.mpr ⟨_, _, rfl,
      Reader.run_bind_eq_ok.mpr ⟨found.value, rest,
        Reader.run_take_eq_ok.mpr ⟨rfl, (toNat_byte (by omega)).symm⟩, ?_⟩⟩⟩
    rw [valid]
    rfl
  have inner := Reader.untilEmpty_flatten (.cons ⟨List.cons_ne_nil _ _, one⟩ .nil)
  rw [List.flatten_singleton] at inner
  refine ⟨List.cons_ne_nil _ _, fun rest => Reader.run_bind_eq_ok.mpr ⟨_, _, rfl,
    Reader.run_bind_eq_ok.mpr ⟨_, _, rfl, Reader.run_bind_eq_ok.mpr ⟨plain, rest,
      Reader.run_take_eq_ok.mpr ⟨rfl, (toNat_byte short).symm⟩, ?_⟩⟩⟩⟩
  rw [inner]
  rfl

/-- Every OPEN that can be encoded is decoded from its bytes. -/
theorem decode_encode (message : Open) (bytes : Bytes) (encoded : message.encode = .ok bytes) :
    decode bytes = .ok message := by
  simp only [encode, bind_eq_ok, refuse_eq_ok] at encoded
  rcases encoded with ⟨asn, agreed, -, held, parameters, listed, -, short, same⟩
  cases same
  have read : Reader.untilEmpty parameter parameters.flatten =
      .ok (message.capabilities.map ([·])) := by
    apply Reader.untilEmpty_flatten
    rw [List.forall₂_map_left_iff]
    exact (mapM_eq_ok.mp listed).imp fun _ _ => run_parameter
  have whole : (message.capabilities.map ([·])).flatten = message.capabilities := by
    rw [← List.flatMap_def, List.flatMap_singleton']
  simp only [decode, bind_eq_ok, refuse_eq_ok]
  refine ⟨(), ?_, (), ?_, _, run_word rfl message.asn _, _, run_word rfl message.holdTime _, (),
    held, _, run_word rfl message.routerId _, _, rfl, (),
    not_not.mpr (toNat_byte short).symm, _, read, asn, ?_, ?_⟩
  · simp [wordBytes, beBytes_length]
    omega
  · simp
  · rw [whole]
    exact agreed
  · rw [whole]
    rfl

theorem decode_encode_exporter : ∃ bytes, Session.exporter.localOpen.encode = .ok bytes ∧
    decode bytes = .ok Session.exporter.localOpen :=
  ⟨_, rfl, decode_encode _ _ rfl⟩

end Open

/-! ## What two speakers agree on -/

/-- Both ends of a session hold the same parameters, each from its own side. -/
structure Negotiated.Agrees (one other : Negotiated) : Prop where
  holdTime : one.holdTime = other.holdTime
  fourOctetAsn : one.fourOctetAsn = other.fourOctetAsn
  routeRefresh : one.routeRefresh = other.routeRefresh
  families : one.families = other.families
  graceful : one.graceful.map (fun held =>
      (held.notifications, held.localRestartSeconds, held.peer.seconds)) =
    other.graceful.map fun held =>
      (held.notifications, held.peer.seconds, held.localRestartSeconds)

theorem hold_of_validatePeer {peer : Open} {asn router : U32} {hold agreed : U16}
    (validated : peer.validatePeer asn router hold = .ok agreed) :
    agreed = if peer.holdTime ≤ hold then peer.holdTime else hold := by
  unfold Open.validatePeer at validated
  by_cases any : asn ≠ 0
  · simp only [if_pos any, bind_eq_ok, pure_eq_ok] at validated
    rcases validated with ⟨-, -, -, -, -, -, -, -, same⟩
    exact same.symm
  · simp only [if_neg any, bind_eq_ok, pure_eq_ok] at validated
    rcases validated with ⟨-, -, -, -, same⟩
    exact same.symm

/-- Two speakers that accept each other's OPEN hold the same session parameters. -/
theorem negotiate_agrees (left right : Open) (leftAsn rightAsn : U32) (one other : Negotiated)
    (ours : negotiate left right rightAsn = .ok one)
    (theirs : negotiate right left leftAsn = .ok other) : one.Agrees other := by
  simp only [negotiate, bind_eq_ok] at ours theirs
  rcases ours with ⟨-, -, -, -, hold, validated, -, -, same⟩
  rcases theirs with ⟨-, -, -, -, otherHold, otherValidated, -, -, otherSame⟩
  cases same
  cases otherSame
  refine ⟨?_, Bool.and_comm .., Bool.and_comm .., ?_, ?_⟩
  · rw [hold_of_validatePeer validated, hold_of_validatePeer otherValidated]
    split_ifs <;> bv_omega
  · apply Std.ExtTreeSet.ext_mem
    intro family
    simp [and_comm]
  · simp only [graceful]
    cases left.restart <;> cases right.restart <;> simp [Bool.and_comm]

theorem exporter_agrees : ∃ one other,
    negotiate Session.exporter.localOpen (Session.packedOpen 0) 65002 = .ok one ∧
      negotiate (Session.packedOpen 0) Session.exporter.localOpen 65001 = .ok other ∧
        one.Agrees other := by
  rcases @exists_of_isOk _ _ (negotiate Session.exporter.localOpen (Session.packedOpen 0) 65002)
    (by decide +kernel) with ⟨one, ours⟩
  rcases @exists_of_isOk _ _ (negotiate (Session.packedOpen 0) Session.exporter.localOpen 65001)
    (by decide +kernel) with ⟨other, theirs⟩
  exact ⟨one, other, ours, theirs, negotiate_agrees _ _ _ _ _ _ ours theirs⟩

end FlowSdn.Bgp
