import FlowSdn.Bgp.Update

/-! # The boundaries of an UPDATE

An UPDATE is well framed when its two lengths and those of its attributes lead exactly to the
ends of what they enclose, whatever is inside. Structural errors are about nothing else.
-/

namespace FlowSdn.Bgp.Update

open Buffer Words Checked Reader

/-- Attributes one after another, each with a length of two bytes if its flags say so. -/
inductive Framed : Bytes → Prop
  | nil : Framed []
  | cons {flags code : U8} {size value rest : Bytes}
      (width : size.length = if flags &&& 0x10 ≠ 0 then 2 else 1)
      (stated : beValue size = value.length) (following : Framed rest) :
      Framed (flags :: code :: (size ++ (value ++ rest)))

def WellFramed (body : Bytes) : Prop :=
  ∃ first withdrawn second attributes nlri : Bytes,
    body = first ++ (withdrawn ++ (second ++ (attributes ++ nlri))) ∧
    first.length = 2 ∧ beValue first = withdrawn.length ∧
    second.length = 2 ∧ beValue second = attributes.length ∧ Framed attributes

theorem toNat_pair {bytes : Bytes} (two : bytes.length = 2) :
    (BitVec.ofNat 16 (beValue bytes)).toNat = beValue bytes := by
  rcases List.length_eq_two.mp two with ⟨high, low, rfl⟩
  have highBound := high.isLt
  have lowBound := low.isLt
  simp [beValue]
  omega

variable {items rest body : Bytes} {subcode : U8} {structural : Bool}

theorem run_short {length : U16} :
    (short subcode structural).run items = .ok (length, rest) ↔
      ∃ bytes, items = bytes ++ rest ∧ bytes.length = 2 ∧
        length = BitVec.ofNat 16 (beValue bytes) := by
  rw [short, run_bind_eq_ok]
  constructor
  · rintro ⟨bytes, middle, read, same⟩
    rcases run_take_eq_ok.mp read with ⟨split, two⟩
    cases same
    exact ⟨bytes, split, two, rfl⟩
  · rintro ⟨bytes, split, two, rfl⟩
    exact ⟨bytes, rest, run_take_eq_ok.mpr ⟨split, two⟩, rfl⟩

theorem run_sections {withdrawn attributes nlri : Bytes} :
    sections.run body = .ok ((withdrawn, attributes), nlri) ↔
      ∃ first second, body = first ++ (withdrawn ++ (second ++ (attributes ++ nlri))) ∧
        first.length = 2 ∧ beValue first = withdrawn.length ∧
        second.length = 2 ∧ beValue second = attributes.length := by
  simp only [sections, run_bind_eq_ok, run_short, take, run_take_eq_ok]
  constructor
  · rintro ⟨_, _, ⟨first, rfl, two, rfl⟩, _, _, ⟨rfl, size⟩, _, _, ⟨second, rfl, alsoTwo, rfl⟩,
      _, _, ⟨rfl, alsoSize⟩, same⟩
    cases same
    rw [toNat_pair two] at size
    rw [toNat_pair alsoTwo] at alsoSize
    exact ⟨first, second, rfl, two, size.symm, alsoTwo, alsoSize.symm⟩
  · rintro ⟨first, second, rfl, two, size, alsoTwo, alsoSize⟩
    exact ⟨_, _, ⟨first, rfl, two, rfl⟩, withdrawn, _, ⟨rfl, by rw [toNat_pair two, size]⟩,
      _, _, ⟨second, rfl, alsoTwo, rfl⟩, attributes, _, ⟨rfl, by rw [toNat_pair alsoTwo, alsoSize]⟩,
      rfl⟩

theorem run_byte {value : U8} :
    (byte subcode structural).run items = .ok (value, rest) ↔ items = value :: rest := by
  cases items <;> simp [byte, one, StateT.run]

theorem run_fieldLength {flags : U8} {length : Nat} :
    (fieldLength flags).run items = .ok (length, rest) ↔
      ∃ size, items = size ++ rest ∧ size.length = (if flags &&& 0x10 ≠ 0 then 2 else 1) ∧
        beValue size = length := by
  unfold fieldLength
  split_ifs with extended
  · rw [run_bind_eq_ok]
    constructor
    · rintro ⟨_, _, read, same⟩
      rcases run_short.mp read with ⟨size, split, two, rfl⟩
      cases same
      exact ⟨size, split, two, (toNat_pair two).symm⟩
    · rintro ⟨size, split, two, value⟩
      refine ⟨_, rest, run_short.mpr ⟨size, split, two, rfl⟩, ?_⟩
      rw [toNat_pair two, value]
      rfl
  · rw [run_bind_eq_ok]
    constructor
    · rintro ⟨size, _, read, same⟩
      cases same
      exact ⟨[size], run_byte.mp read, rfl, by simp [beValue]⟩
    · rintro ⟨size, rfl, single, value⟩
      rcases List.length_eq_one_iff.mp single with ⟨size, rfl⟩
      refine ⟨size, rest, run_byte.mpr rfl, ?_⟩
      rw [← value]
      simp [beValue]
      rfl

theorem exists_run_field :
    (∃ found, field.run items = .ok (found, rest)) ↔
      ∃ flags code size value, items = flags :: code :: (size ++ (value ++ rest)) ∧
        size.length = (if flags &&& 0x10 ≠ 0 then 2 else 1) ∧ beValue size = value.length := by
  simp only [field, run_bind_eq_ok, run_byte, run_fieldLength, take, run_take_eq_ok]
  constructor
  · rintro ⟨found, _, _, first, flags, _, same, code, _, rfl, _, _, ⟨size, rfl, width, rfl⟩,
      value, _, ⟨rfl, stated⟩, _, _, last, ended⟩
    cases first
    cases last
    cases ended
    exact ⟨flags, code, size, value, same, width, stated.symm⟩
  · rintro ⟨flags, code, size, value, rfl, width, stated⟩
    exact ⟨_, _, _, rfl, flags, _, rfl, code, _, rfl, _, _, ⟨size, rfl, width, rfl⟩, value, rest,
      ⟨rfl, stated.symm⟩, _, _, rfl, rfl⟩

theorem run_reportedField {found : Field} :
    reportedField.run items = .ok (found, rest) ↔ field.run items = .ok (found, rest) := by
  change (field.run items).mapError _ = _ ↔ _
  cases field.run items <;> simp [Except.mapError]

theorem exists_fields_iff {attributes : Bytes} {count : Nat} (enough : attributes.length ≤ count) :
    (∃ fields, upTo reportedField count attributes = .ok fields) ↔ Framed attributes := by
  induction count generalizing attributes with
  | zero =>
      cases List.length_eq_zero_iff.mp (Nat.le_zero.mp enough)
      exact ⟨fun _ => .nil, fun _ => ⟨[], rfl⟩⟩
  | succ count induction =>
      cases attributes with
      | nil => exact ⟨fun _ => .nil, fun _ => ⟨[], rfl⟩⟩
      | cons head tail =>
          simp only [upTo, bind_eq_ok, Prod.exists, run_reportedField]
          constructor
          · rintro ⟨_, found, rest, read, others, following, _⟩
            rcases exists_run_field.mp ⟨found, read⟩ with
              ⟨flags, code, size, value, same, width, stated⟩
            rw [same] at enough ⊢
            refine .cons width stated ((induction ?_).mp ⟨others, following⟩)
            simp only [List.length_cons, List.length_append] at enough
            omega
          · intro framed
            cases framed with
            | cons width stated following =>
                rcases exists_run_field.mpr ⟨_, _, _, _, rfl, width, stated⟩ with ⟨found, read⟩
                simp only [List.length_cons, List.length_append] at enough
                rcases (induction (by omega)).mpr following with ⟨others, more⟩
                exact ⟨_, found, _, read, others, more, rfl⟩

theorem wellFramed_iff :
    WellFramed body ↔ ∃ withdrawn attributes nlri fields,
      sections.run body = .ok ((withdrawn, attributes), nlri) ∧
      untilEmpty reportedField attributes = .ok fields := by
  constructor
  · rintro ⟨first, withdrawn, second, attributes, nlri, split, two, size, alsoTwo, alsoSize, framed⟩
    rcases (exists_fields_iff (Nat.le_refl _)).mpr framed with ⟨fields, read⟩
    exact ⟨withdrawn, attributes, nlri, fields,
      run_sections.mpr ⟨first, second, split, two, size, alsoTwo, alsoSize⟩, read⟩
  · rintro ⟨withdrawn, attributes, nlri, fields, read, fieldsRead⟩
    rcases run_sections.mp read with ⟨first, second, split, two, size, alsoTwo, alsoSize⟩
    exact ⟨first, withdrawn, second, attributes, nlri, split, two, size, alsoTwo, alsoSize,
      (exists_fields_iff (Nat.le_refl _)).mp ⟨fields, fieldsRead⟩⟩

def Scoped (scope : ErrorScope) (error : ProtocolError) : Prop := error.scope = scope

/-- The scope of an error, from the size and the boundaries. -/
theorem validateInner_scope (body : Bytes) (fourOctetAsn : Bool) :
    (maxMessageLength - headerLength < body.length ∧
      validateInner body fourOctetAsn = .error ⟨framing 2, []⟩) ∨
    (body.length ≤ maxMessageLength - headerLength ∧ ¬WellFramed body ∧
      ∃ failure, validateInner body fourOctetAsn = .error failure ∧
        Scoped .attributeStructure failure.error) ∨
    (WellFramed body ∧ ∀ failure, validateInner body fourOctetAsn = .error failure →
      Scoped .updateContent failure.error) := by
  unfold validateInner
  by_cases large : maxMessageLength - headerLength < body.length
  · rw [refuse, if_pos large]
    exact .inl ⟨large, rfl⟩
  · rw [refuse_of_not large, wellFramed_iff]
    refine .inr ?_
    have boundaries : Ends (fun _ => True) (Scoped .attributeStructure) (sections.run body) :=
      sections_refuses (fun _ => rfl) body
    cases read : sections.run body with
    | error failure =>
        rw [read] at boundaries
        exact .inl ⟨Nat.not_lt.mp large, by simp, _, rfl, boundaries.of_error⟩
    | ok found =>
        rcases found with ⟨⟨withdrawn, attributes⟩, nlri⟩
        have boundaries : Ends (fun _ => True) (Scoped .attributeStructure ·.error)
            (untilEmpty reportedField attributes) := fields_ends (fun _ => rfl) attributes
        change (_ ∧ _ ∧ ∃ failure, (untilEmpty reportedField attributes >>= _) = _ ∧ _) ∨
          _ ∧ ∀ failure, (untilEmpty reportedField attributes >>= _) = _ → _
        cases fieldsRead : untilEmpty reportedField attributes with
        | error failure =>
            rw [fieldsRead] at boundaries
            refine .inl ⟨Nat.not_lt.mp large, ?_, failure, rfl, boundaries.of_error⟩
            rintro ⟨_, _, _, _, same, other⟩
            cases same
            rw [fieldsRead] at other
            cases other
        | ok fields =>
            have inner : Ends (fun _ => True) (fun failure : Failure =>
                Scoped .updateContent failure.error) _ :=
              content_ends (fun _ => rfl) withdrawn nlri fields fourOctetAsn
            refine .inr ⟨⟨withdrawn, attributes, nlri, fields, rfl, fieldsRead⟩, ?_⟩
            intro failure failed
            exact (failed ▸ inner).of_error

theorem validate_eq_error {fourOctetAsn : Bool} {error : ProtocolError} :
    validate body fourOctetAsn = .error error ↔
      ∃ failure, validateInner body fourOctetAsn = .error failure ∧ failure.error = error := by
  unfold validate validateDetailed
  cases validateInner body fourOctetAsn <;> simp [Except.mapError, Failure.trimmed]

theorem validate_of_large (large : maxMessageLength - headerLength < body.length)
    (fourOctetAsn : Bool) : validate body fourOctetAsn = .error (framing 2) := by
  refine validate_eq_error.mpr ⟨⟨framing 2, []⟩, ?_, rfl⟩
  rw [validateInner, refuse, if_pos large]
  rfl

/-- A structural error is reported for just the bodies that fit into a message and are not well
framed, and a body that does not fit is refused for that, so a survivable error is about a body
that is well framed. -/
theorem structural_iff (body : Bytes) (fourOctetAsn : Bool) :
    ((∃ error, validate body fourOctetAsn = .error error ∧ error.scope = .attributeStructure) ↔
      body.length ≤ maxMessageLength - headerLength ∧ ¬WellFramed body) ∧
    (maxMessageLength - headerLength < body.length →
      validate body fourOctetAsn = .error (framing 2)) ∧
    ∀ error strict, validate body fourOctetAsn = .error error →
      errorAction error strict = .countLogAndDiscard → WellFramed body := by
  have survivable : ∀ error strict, errorAction error strict = .countLogAndDiscard →
      error.scope = .updateContent := by
    intro error strict discarded
    unfold errorAction at discarded
    split_ifs at discarded with content
    exact content.1
  have oversized : maxMessageLength - headerLength < body.length →
      validate body fourOctetAsn = .error (framing 2) :=
    fun large => validate_of_large large fourOctetAsn
  rcases validateInner_scope body fourOctetAsn with
    ⟨large, refused⟩ | ⟨small, malformed, failure, refused, scope⟩ | ⟨framed, content⟩
  · rw [oversized large]
    refine ⟨by simp [framing, Nat.not_le.mpr large], fun _ => rfl, ?_⟩
    intro error strict same discarded
    cases same
    cases survivable _ strict discarded
  · have reported : validate body fourOctetAsn = .error failure.error :=
      validate_eq_error.mpr ⟨failure, refused, rfl⟩
    refine ⟨⟨fun _ => ⟨small, malformed⟩, fun _ => ⟨_, reported, scope⟩⟩, oversized, ?_⟩
    intro error strict same discarded
    cases reported.symm.trans same
    cases scope.symm.trans (survivable _ strict discarded)
  · refine ⟨⟨?_, fun both => absurd framed both.2⟩, oversized, fun _ _ _ _ => framed⟩
    intro found
    rcases found with ⟨error, same, scope⟩
    rcases validate_eq_error.mp same with ⟨failure, refused, rfl⟩
    cases scope.symm.trans (content failure refused)

theorem structural_iff_origin :
    validate [0, 0, 0, 4, 0x40, 1, 1, 3] false = .error (updateError 6 false) ∧
    WellFramed [0, 0, 0, 4, 0x40, 1, 1, 3] := by
  have refused : validate [0, 0, 0, 4, 0x40, 1, 1, 3] false = .error (updateError 6 false) := by
    decide
  exact ⟨refused, (structural_iff _ false).2.2 _ false refused rfl⟩

/-- A body that does not fit into a message is refused for that, whatever its boundaries. -/
theorem oversized_not_structural : ¬WellFramed (List.replicate 4078 255) ∧
    validate (List.replicate 4078 255) false = .error (framing 2) := by
  have malformed : sections.run (List.replicate 4078 255) = .error (updateError 1 true) := by
    decide +kernel
  refine ⟨?_, validate_of_large (by rw [List.length_replicate]; decide) false⟩
  rw [wellFramed_iff, malformed]
  simp

end FlowSdn.Bgp.Update
