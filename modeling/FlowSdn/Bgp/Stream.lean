import FlowSdn.Bgp.Wire

/-! # Reading a stream of messages

A reader appends what arrives to its buffer and takes messages off the front until it needs more
bytes or meets an error. How the stream is cut into chunks makes no difference.
-/

namespace FlowSdn.Bgp

open Buffer

theorem decode_append {bytes : Bytes} (complete : decode bytes ≠ .error .needMore) (more : Bytes) :
    decode (bytes ++ more) = decode bytes := by
  have header : ¬bytes.length < headerLength := by
    intro short
    exact complete (by rw [decode, if_pos short])
  have long : ¬(bytes ++ more).length < headerLength := by
    rw [List.length_append]
    omega
  have whole : 19 ≤ bytes.length := Nat.not_lt.mp header
  have stated : ((bytes ++ more).drop 16).take 2 = (bytes.drop 16).take 2 := by
    rw [List.drop_append_of_le_length (by omega),
      List.take_append_of_le_length (by rw [List.length_drop]; omega)]
  have named : (bytes ++ more)[18]? = bytes[18]? := List.getElem?_append_left (by omega)
  unfold decode at complete ⊢
  rw [if_neg header] at complete ⊢
  rw [if_neg long, stated, named]
  generalize beValue ((bytes.drop 16).take 2) = length at complete ⊢
  by_cases outside : length < headerLength ∨ maxMessageLength < length
  · rw [if_pos outside, if_pos outside]
  · rw [if_neg outside] at complete ⊢
    rw [if_neg outside]
    cases found : bytes[18]?.bind Kind.ofCode with
    | none => rfl
    | some kind =>
        rw [found] at complete
        by_cases admitted : kind.Admits length
        · by_cases enough : length ≤ bytes.length
          · simp [admitted, Nat.not_lt.mpr enough, Nat.not_lt.mpr (Nat.le_add_right_of_le enough),
              List.take_append_of_le_length enough]
          · simp [admitted, Nat.not_le.mp enough] at complete
        · simp [admitted]

theorem lt_length_of_decode {bytes : Bytes} {frame : Frame} {consumed : Nat}
    (decoded : decode bytes = .ok (frame, consumed)) : 0 < consumed ∧ consumed ≤ bytes.length := by
  unfold decode at decoded
  split at decoded
  · cases decoded
  · simp only at decoded
    split at decoded
    · cases decoded
    · rename_i outside
      split at decoded
      · cases decoded
      · split_ifs at decoded
        cases decoded
        simp only [headerLength] at outside
        omega

/-- What a reader is left with: the bytes of an incomplete message, or the error it stopped at. -/
inductive Rest
  | waiting (remainder : Bytes)
  | stopped (error : ProtocolError)
  deriving DecidableEq

def drain (buffer : Bytes) : List Frame × Rest :=
  match _decoded : decode buffer with
  | .error .needMore => ([], .waiting buffer)
  | .error (.protocol error) => ([], .stopped error)
  | .ok (frame, consumed) =>
      let rest := drain (buffer.drop consumed)
      (frame :: rest.1, rest.2)
termination_by buffer.length
decreasing_by
  have progress := lt_length_of_decode _decoded
  rw [List.length_drop]
  omega

/-- The frames so far and the rest after one more chunk; an error ends the reading. -/
def feed (state : List Frame × Rest) (chunk : Bytes) : List Frame × Rest :=
  match state.2 with
  | .stopped _ => state
  | .waiting buffer =>
      let more := drain (buffer ++ chunk)
      (state.1 ++ more.1, more.2)

theorem drain_of_error {buffer : Bytes} {error : ProtocolError}
    (decoded : decode buffer = .error (.protocol error)) : drain buffer = ([], .stopped error) := by
  rw [drain]
  split <;> simp_all

theorem drain_of_ok {buffer : Bytes} {frame : Frame} {consumed : Nat}
    (decoded : decode buffer = .ok (frame, consumed)) :
    drain buffer =
      (frame :: (drain (buffer.drop consumed)).1, (drain (buffer.drop consumed)).2) := by
  rw [drain]
  split <;> simp_all

theorem feed_drain (buffer chunk : Bytes) :
    feed (drain buffer) chunk = drain (buffer ++ chunk) := by
  fun_induction drain buffer with
  | case1 buffer decoded => rfl
  | case2 buffer error decoded =>
      rw [← decode_append (by simp [decoded]) chunk] at decoded
      rw [drain_of_error decoded]
      rfl
  | case3 buffer frame consumed decoded rest induction =>
      have inside := (lt_length_of_decode decoded).2
      rw [← decode_append (by simp [decoded]) chunk] at decoded
      rw [drain_of_ok decoded, List.drop_append_of_le_length inside, ← induction]
      change feed (frame :: rest.1, rest.2) chunk =
        (frame :: (feed rest chunk).1, (feed rest chunk).2)
      cases ended : rest.2 with
      | stopped error => simp [feed, ended]
      | waiting left => simp [feed, ended]

/-- The chunks of a stream give the frames of the whole stream, and end in the same rest; and a
message that encodes is decoded again, whatever follows it. -/
theorem framing_chunked :
    (∀ chunks : List Bytes, chunks.foldl feed ([], .waiting []) = drain chunks.flatten) ∧
    ∀ kind body bytes, encode kind body = .ok bytes → ∀ more,
      decode (bytes ++ more) = .ok (⟨kind, body⟩, bytes.length) := by
  constructor
  · intro chunks
    have start : drain [] = ([], .waiting []) := by
      rw [drain]
      rfl
    have continued :
        ∀ buffer, chunks.foldl feed (drain buffer) = drain (buffer ++ chunks.flatten) := by
      induction chunks with
      | nil => simp
      | cons chunk chunks induction =>
          intro buffer
          rw [List.foldl_cons, feed_drain, induction, List.flatten_cons, List.append_assoc]
    rw [← start, continued []]
    rfl
  · intro kind body bytes encoded more
    rcases fits_of_encode encoded with ⟨fits, rfl⟩
    have decoded : decode (envelope kind body) =
        .ok (⟨kind, body⟩, (envelope kind body).length) := by
      rw [decode_envelope kind fits.bounded, if_pos fits.admitted, envelope_length]
    rw [decode_append (by simp [decoded]), decoded]

theorem framing_chunked_keepalive : encode .keepalive [] = .ok (envelope .keepalive []) ∧
    decode (envelope .keepalive [] ++ [7]) = .ok (⟨.keepalive, []⟩, 19) :=
  ⟨rfl, framing_chunked.2 .keepalive [] _ rfl [7]⟩

end FlowSdn.Bgp
