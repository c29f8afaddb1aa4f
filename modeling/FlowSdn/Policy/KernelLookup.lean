import FlowSdn.Agent.Entries
import FlowSdn.Policy.KernelMap

/-! # The index finds what the scan finds

A canonical record is a rule key under a direction. Among canonical records of distinct keys,
those of one identity that match a packet have distinct lengths.
-/

namespace FlowSdn.Policy.KernelMap

open Abi Identity Words OrderedMap Agent

def Record.l4 (record : Record) : HostKey where
  identity := record.key.secLabel
  protocol := record.key.protocol
  port := record.key.dport
  portPrefix := (saturatingSub record.key.prefixlen 48#32).setWidth 8

def Record.egress (record : Record) : Bool := record.key.egress = 1#8

/-- What the check of one record leaves to rely on. -/
structure Sound (record : Record) : Prop where
  key : record.l4.Canonical
  egress : record.key.egress = bit record.egress
  length : record.key.prefixlen.toNat + 32 = record.l4.length
  lpm : record.entry.lpmPrefixLength.toNat + 40 = record.key.prefixlen.toNat
  deny : record.entry.denies = true ↔ record.entry.precedence &&& 255#32 = 255#32

theorem keyPrefix_eq_ok {key : PolicyKey} {portPrefix : U8}
    (stated : keyPrefix key = .ok portPrefix) :
    (key.protocol = anyProtocol ∧ portPrefix = 0#8) ∨
      (key.protocol ≠ anyProtocol ∧
        portPrefix = (saturatingSub key.prefixlen 48#32).setWidth 8) := by
  unfold keyPrefix at stated
  split at stated
  · rename_i any
    cases stated
    exact .inl ⟨any, rfl⟩
  · rename_i specific
    split at stated
    · cases stated
    · rename_i long
      split at stated
      · cases stated
      · cases stated
        rw [saturatingSub, if_pos (BitVec.not_lt.mp long)]
        exact .inr ⟨specific, rfl⟩

theorem fields_of_policyKey_new {identity : U32} {egress : Bool} {protocol : U8} {port : U16}
    {portPrefix : U8} {key : PolicyKey}
    (made : PolicyKey.new identity egress protocol port portPrefix = .ok key) :
    key.egress = bit egress ∧ key.dport = port &&& portMask portPrefix ∧
      key.prefixlen.toNat = if protocol = anyProtocol then 40 else 48 + portPrefix.toNat := by
  unfold PolicyKey.new at made
  split at made
  · cases made
  · cases made
    refine ⟨rfl, rfl, ?_⟩
    have widened : (portPrefix.setWidth 32).toNat = portPrefix.toNat := by
      rw [BitVec.toNat_setWidth, Nat.mod_eq_of_lt (by omega)]
    by_cases any : protocol = anyProtocol
    · rw [if_pos any, if_pos any]
      rfl
    · rw [if_neg any, if_neg any, toNat_saturatingAdd, widened]
      · rfl
      · rw [widened, BitVec.toNat_ofNat]
        omega

variable {record : Record}

theorem shape_of_reconstructed (made : reconstructed record.key = .ok record.key) :
    record.l4.Canonical ∧ record.key.egress = bit record.egress ∧
      record.key.prefixlen.toNat + 32 = record.l4.length := by
  unfold reconstructed at made
  split at made
  · cases made
  · rename_i portPrefix stated
    split at made
    · cases made
    · rename_i policyKey accepted
      have self : policyKey = record.key := Except.ok.inj made
      rw [self] at accepted
      rcases @valid_of_policyKey_new ⟨record.key.secLabel, record.key.protocol,
        record.key.dport, portPrefix⟩ _ _ accepted with ⟨short, clear⟩
      rcases fields_of_policyKey_new accepted with ⟨direction, port, length⟩
      have same : record.l4.portPrefix = portPrefix := by
        rcases keyPrefix_eq_ok stated with ⟨any, zero⟩ | ⟨_, exact⟩
        · rw [if_pos any] at length
          have forty : record.key.prefixlen = 40#32 := BitVec.eq_of_toNat_eq length
          rw [zero, Record.l4, forty]
          rfl
        · exact exact.symm
      refine ⟨⟨fun any => ?_, ?_⟩, direction, ?_⟩
      · rw [same]
        exact clear any
      · rw [PortBlock.Aligned, HostKey.block, same]
        exact ⟨short, port.symm⟩
      · rw [HostKey.length, same, length]
        show (if record.key.protocol = anyProtocol then 40 else 48 + portPrefix.toNat) + 32 =
          if record.key.protocol = anyProtocol then 72 else 80 + portPrefix.toNat
        split <;> omega

theorem sound_of_canonical (checked : canonical record = .ok ()) : Sound record := by
  unfold canonical at checked
  simp only at checked
  split at checked
  · cases checked
  · split at checked
    · cases checked
    · rename_i made reconstruction
      split_ifs at checked with refused passes denies redirects allows
      simp only [not_or, not_not] at refused
      rcases refused with ⟨_, same, lpm, _⟩
      rw [same] at reconstruction
      rcases shape_of_reconstructed reconstruction with ⟨key, egress, length⟩
      refine ⟨key, egress, length, ?_, ?_, ?_⟩
      · have lengths := congrArg BitVec.toNat lpm
        rw [toNat_saturatingSub, BitVec.toNat_setWidth, Nat.mod_eq_of_lt (by omega)] at lengths
        have atLeast : 72 ≤ record.l4.length := by
          unfold HostKey.length
          split <;> omega
        rw [lengths, BitVec.toNat_ofNat]
        omega
      · intro denying
        by_contra low
        exact denies ⟨denying, .inr (.inr low)⟩
      · intro low
        by_contra allowing
        exact allows ⟨by simpa using allowing, low⟩

section Sound

variable {record other : Record} {packet : Oracle.Packet} {identity : U32}

theorem Sound.toNat_portPrefix (sound : Sound record) :
    record.l4.portPrefix.toNat = record.key.prefixlen.toNat - 48 := by
  have short := HostKey.length_le sound.key
  have length := sound.length
  rw [Record.l4, BitVec.toNat_setWidth, toNat_saturatingSub, BitVec.toNat_ofNat,
    Nat.mod_eq_of_lt (by omega)]

theorem Sound.maskOf_eq (sound : Sound record) :
    maskOf (saturatingSub record.key.prefixlen 48#32) = portMask record.l4.portPrefix := by
  rw [maskOf, portMask, toNat_saturatingSub, toNat_saturatingSub, toNat_saturatingSub,
    sound.toNat_portPrefix]
  rfl

/-- A sound record matches the packets of its identity and direction that its rule
key does. -/
theorem Sound.matches_iff (sound : Sound record) :
    record.matches packet identity ↔
      record.key.secLabel = identity ∧ record.egress = packet.egress ∧
        record.l4.l4Matches packet.protocol packet.port := by
  have short : ¬record.l4.portPrefix > 16#8 := BitVec.not_lt.mpr sound.key.2.1
  have aligned : record.key.dport &&& portMask record.l4.portPrefix = record.key.dport :=
    sound.key.2.2
  have directions : record.key.egress = bit packet.egress ↔ record.egress = packet.egress := by
    rw [sound.egress]
    exact ⟨bit_injective, congrArg bit⟩
  have blocks : record.l4.block.matches packet.port ↔
      packet.port &&& portMask record.l4.portPrefix = record.key.dport := by
    rw [PortBlock.matches, HostKey.block, if_neg short, decide_eq_true_eq]
    exact ⟨fun equal => equal.trans aligned, fun equal => equal.trans aligned.symm⟩
  simp only [HostKey.l4Matches, Bool.or_eq_true, Bool.and_eq_true, decide_eq_true_eq, blocks]
  by_cases labels : record.key.secLabel = identity
  · by_cases direction : record.egress = packet.egress
    · by_cases any : record.key.protocol = anyProtocol
      · simp [Record.matches, Record.l4, labels, directions, direction, any]
      · by_cases protocols : record.key.protocol = packet.protocol
        · simp [Record.matches, labels, directions, direction, protocols, sound.maskOf_eq,
            Record.l4]
        · simp [Record.matches, labels, directions, direction, any, protocols, Record.l4]
    · simp [Record.matches, labels, directions, direction]
  · simp [Record.matches, labels]

theorem Sound.key_eq (sound : Sound record) (otherSound : Sound other)
    (keys : record.l4 = other.l4) (directions : record.egress = other.egress) :
    record.key = other.key := by
  have lengths : record.key.prefixlen = other.key.prefixlen := by
    have length := sound.length
    have otherLength := otherSound.length
    rw [keys] at length
    exact BitVec.eq_of_toNat_eq (by omega)
  have egresses : record.key.egress = other.key.egress := by
    rw [sound.egress, otherSound.egress, directions]
  have labels : record.key.secLabel = other.key.secLabel := congrArg HostKey.identity keys
  have protocols : record.key.protocol = other.key.protocol := congrArg HostKey.protocol keys
  have ports : record.key.dport = other.key.dport := congrArg HostKey.port keys
  rcases record with ⟨⟨_, _, _, _, _⟩, _, _⟩
  rcases other with ⟨⟨_, _, _, _, _⟩, _, _⟩
  simp_all

theorem Sound.key_eq_of_prefixlen (sound : Sound record) (otherSound : Sound other)
    (matched : record.matches packet identity) (otherMatched : other.matches packet identity)
    (lengths : record.key.prefixlen.toNat = other.key.prefixlen.toNat) :
    record.key = other.key := by
  rcases sound.matches_iff.mp matched with ⟨labels, directions, l4⟩
  rcases otherSound.matches_iff.mp otherMatched with ⟨otherLabels, otherDirections, otherL4⟩
  have length := sound.length
  have otherLength := otherSound.length
  rcases l4_eq_of_length_eq sound.key otherSound.key l4 otherL4 (by omega) with
    ⟨protocols, ports, prefixes⟩
  apply sound.key_eq otherSound _ (directions.trans otherDirections.symm)
  have identities : record.l4.identity = other.l4.identity := labels.trans otherLabels.symm
  cases left : record.l4
  cases right : other.l4
  simp_all

end Sound

structure IsBest (records : List Record) (packet : Oracle.Packet) (identity : U32)
    (record : Record) : Prop where
  member : record ∈ records
  matched : record.matches packet identity
  longest : ∀ rival ∈ records, rival.matches packet identity →
    rival.key.prefixlen.toNat ≤ record.key.prefixlen.toNat

section Best

variable {records : List Record} {packet : Oracle.Packet} {identity : U32} {record : Record}

theorem isBest_of_best (found : best records packet identity = some record) :
    IsBest records packet identity record := by
  have member := List.mem_filter.mp (List.mem_reverse.mp (List.argmax_mem found))
  refine ⟨member.1, member.2, fun rival inRecords matched => ?_⟩
  have candidate : rival ∈ (records.filter (·.matches packet identity)).reverse :=
    List.mem_reverse.mpr (List.mem_filter.mpr ⟨inRecords, matched⟩)
  exact List.le_of_mem_argmax (f := fun held : Record => held.key.prefixlen.toNat) candidate
    found

theorem best_eq_none (missed : best records packet identity = none) :
    ∀ rival ∈ records, rival.matches packet identity = false := by
  rw [best, List.argmax_eq_none, List.reverse_eq_nil_iff, List.filter_eq_nil_iff] at missed
  intro rival member
  simpa using missed rival member

end Best

/-! ## What the index holds -/

def Record.slot (record : Record) : IndexKey where
  identity := record.key.secLabel
  egress := record.egress
  protocol := record.key.protocol
  portPrefix := record.l4.portPrefix
  port := record.key.dport

theorem Sound.key_eq_of_slot {other : Record} (sound : Sound record)
    (otherSound : Sound other) (slots : record.slot = other.slot) : record.key = other.key := by
  have keys : record.l4 = other.l4 := by
    have identities := congrArg IndexKey.identity slots
    have protocols := congrArg IndexKey.protocol slots
    have ports := congrArg IndexKey.port slots
    have prefixes := congrArg IndexKey.portPrefix slots
    cases left : record.l4
    cases right : other.l4
    simp_all [Record.slot, Record.l4]
  exact sound.key_eq otherSound keys (congrArg IndexKey.egress slots)

/-- The index holds exactly the records' entries, each under its slot. -/
structure Indexes (records : List Record) (entries : BTreeMap IndexKey PolicyEntry) : Prop where
  sound : ∀ record ∈ records, Sound record
  holds : ∀ key value, entries[key]? = some value ↔
    ∃ record ∈ records, record.slot = key ∧ record.entry = value

theorem indexes_nil : Indexes [] ∅ := by
  constructor
  · intro record member
    cases member
  · simp

section Indexes

variable {records : List Record} {entries : BTreeMap IndexKey PolicyEntry} {record : Record}

section

variable (indexes : Indexes records entries)

include indexes

theorem Indexes.contains_iff (sound : Sound record) :
    entries.contains record.slot ↔ records.any (·.key = record.key) := by
  rw [Std.ExtTreeMap.contains_eq_isSome_getElem?, Option.isSome_iff_exists, List.any_eq_true]
  constructor
  · intro held
    rcases held with ⟨value, held⟩
    rcases (indexes.holds _ _).mp held with ⟨earlier, member, slots, _⟩
    exact ⟨earlier, member,
      decide_eq_true ((indexes.sound earlier member).key_eq_of_slot sound slots)⟩
  · intro found
    rcases found with ⟨earlier, member, keys⟩
    have slots : earlier.slot = record.slot := by
      simp only [Record.slot, Record.egress, Record.l4, of_decide_eq_true keys]
    exact ⟨earlier.entry, (indexes.holds _ _).mpr ⟨earlier, member, slots, rfl⟩⟩

theorem Indexes.insert (sound : Sound record) (fresh : records.any (·.key = record.key) = false) :
    Indexes (records ++ [record]) (entries.insert record.slot record.entry) := by
  constructor
  · intro candidate member
    rcases List.mem_append.mp member with earlier | last
    · exact indexes.sound candidate earlier
    · rw [List.mem_singleton.mp last]
      exact sound
  · intro key value
    by_cases same : record.slot = key
    · rw [← same, Std.ExtTreeMap.getElem?_insert_self, Option.some.injEq]
      constructor
      · intro equal
        exact ⟨record, by simp, rfl, equal⟩
      · intro found
        rcases found with ⟨candidate, member, slots, equal⟩
        rcases List.mem_append.mp member with earlier | last
        · have keys := (indexes.sound candidate earlier).key_eq_of_slot sound slots
          have taken : records.any (·.key = record.key) = true :=
            List.any_eq_true.mpr ⟨candidate, earlier, decide_eq_true keys⟩
          rw [fresh] at taken
          cases taken
        · rw [← List.mem_singleton.mp last]
          exact equal
    · rw [getElem?_insert_of_ne same, indexes.holds]
      simp only [List.mem_append, List.mem_singleton, or_and_right, exists_or, exists_eq_left,
        same, false_and, or_false]

theorem Indexes.add_eq (checked : canonical record = .ok ()) :
    Index.add entries record =
      if records.any (·.key = record.key) then .error "duplicate policy key"
      else .ok (entries.insert record.slot record.entry) := by
  have sound := sound_of_canonical checked
  have short := HostKey.length_le sound.key
  have length := sound.length
  have fits : ¬saturatingSub record.key.prefixlen 48#32 > 255#32 := by
    rw [gt_iff_lt, BitVec.lt_def, toNat_saturatingSub, BitVec.toNat_ofNat, BitVec.toNat_ofNat]
    omega
  have contained := indexes.contains_iff sound
  unfold Index.add
  rw [checked]
  simp only
  rw [if_neg fits]
  by_cases taken : records.any (·.key = record.key) = true
  · rw [if_pos taken]
    exact if_pos (contained.mpr taken)
  · rw [if_neg taken]
    exact if_neg fun held => taken (contained.mp held)

/-- The rounds fail when and as the scan's check does, and otherwise index the
records. -/
theorem foldlM_add (rest : List Record) :
    (∃ message, checkRecords records rest = .error message ∧
        rest.foldlM Index.add entries = .error message) ∨
      (checkRecords records rest = .ok () ∧
        ∃ filled, rest.foldlM Index.add entries = .ok filled ∧
          Indexes (records ++ rest) filled) := by
  induction rest generalizing records entries with
  | nil => exact .inr ⟨rfl, entries, rfl, by simpa using indexes⟩
  | cons record rest induction =>
      rw [checkRecords, List.foldlM_cons]
      cases checked : canonical record with
      | error message =>
          refine .inl ⟨message, rfl, ?_⟩
          rw [Index.add, checked]
          rfl
      | ok passed =>
          cases passed
          rw [indexes.add_eq checked]
          by_cases taken : records.any (·.key = record.key) = true
          · exact .inl ⟨_, if_pos taken, by rw [if_pos taken]; rfl⟩
          · have fresh : records.any (·.key = record.key) = false := by simpa using taken
            have step := induction (indexes.insert (sound_of_canonical checked) fresh)
            rw [if_neg taken]
            simp only
            rw [if_neg taken]
            simpa [bind, Except.bind] using step

end

end Indexes

/-! ## Probing -/

/-- The slot that a probe of some port bits reads. -/
def probeKey (identity : U32) (packet : Oracle.Packet) (bits : Nat) : IndexKey :=
  ⟨identity, packet.egress, packet.protocol, BitVec.ofNat 8 bits,
    packet.port &&& portMask (BitVec.ofNat 8 bits)⟩

def anyKey (identity : U32) (packet : Oracle.Packet) : IndexKey :=
  ⟨identity, packet.egress, anyProtocol, 0#8, 0#16⟩

section Probing

variable {index : Index} {identity : U32} {packet : Oracle.Packet} {record : Record}

theorem probe_eq_none {count : Nat} (missed : index.probe identity packet count = none) :
    ∀ bits < count, index.entries[probeKey identity packet bits]? = none := by
  induction count with
  | zero =>
      intro bits below
      omega
  | succ count induction =>
      rw [Index.probe] at missed
      split at missed
      · cases missed
      · rename_i here
        intro bits below
        by_cases last : bits = count
        · rw [last]
          exact here
        · exact induction missed bits (by omega)

theorem probe_eq_some {count : Nat} {value : PolicyEntry}
    (found : index.probe identity packet count = some value) :
    ∃ bits < count, index.entries[probeKey identity packet bits]? = some value ∧
      ∀ longer < count, bits < longer → index.entries[probeKey identity packet longer]? = none := by
  induction count with
  | zero => cases found
  | succ count induction =>
      rw [Index.probe] at found
      split at found
      · rename_i entry here
        cases found
        refine ⟨count, by omega, here, ?_⟩
        intro longer below above
        omega
      · rename_i here
        rcases induction found with ⟨bits, below, held, empty⟩
        refine ⟨bits, by omega, held, fun longer within above => ?_⟩
        by_cases last : longer = count
        · rw [last]
          exact here
        · exact empty longer (by omega) above

theorem Sound.slot_of_matches (sound : Sound record) (matched : record.matches packet identity) :
    (record.key.protocol = anyProtocol ∧ record.slot = anyKey identity packet) ∨
      (record.key.protocol ≠ anyProtocol ∧ record.key.protocol = packet.protocol ∧
        record.slot = probeKey identity packet record.l4.portPrefix.toNat) := by
  rcases sound.matches_iff.mp matched with ⟨labels, directions, l4⟩
  by_cases any : record.key.protocol = anyProtocol
  · have clear := sound.key.1 any
    refine .inl ⟨any, ?_⟩
    rw [Record.slot, anyKey, labels, directions, any, clear.2]
    exact congrArg _ clear.1
  · have short : ¬record.l4.portPrefix > 16#8 := BitVec.not_lt.mpr sound.key.2.1
    have aligned : record.key.dport &&& portMask record.l4.portPrefix = record.key.dport :=
      sound.key.2.2
    have inside : record.l4.protocol = packet.protocol ∧
        record.l4.block.matches packet.port = true := by
      have specific : ¬record.l4.protocol = anyProtocol := any
      simpa [HostKey.l4Matches, specific] using l4
    refine .inr ⟨any, inside.1, ?_⟩
    have masked := inside.2
    rw [PortBlock.matches, HostKey.block, if_neg short, decide_eq_true_eq] at masked
    have ports : packet.port &&& portMask record.l4.portPrefix = record.key.dport :=
      masked.trans aligned
    have protocols : record.key.protocol = packet.protocol := inside.1
    rw [Record.slot, probeKey, labels, directions, protocols, BitVec.ofNat_toNat,
      BitVec.setWidth_eq, ports]

theorem Sound.matches_of_anyKey (sound : Sound record)
    (slots : record.slot = anyKey identity packet) : record.matches packet identity := by
  have any : record.l4.protocol = anyProtocol := congrArg IndexKey.protocol slots
  apply sound.matches_iff.mpr
  refine ⟨congrArg IndexKey.identity slots, congrArg IndexKey.egress slots, ?_⟩
  simp [HostKey.l4Matches, any]

theorem Sound.matches_of_probeKey (sound : Sound record) {bits : Nat} (bound : bits < 17)
    (slots : record.slot = probeKey identity packet bits) :
    record.matches packet identity ∧ record.l4.portPrefix.toNat = bits := by
  have protocols : record.l4.protocol = packet.protocol := congrArg IndexKey.protocol slots
  have prefixes : record.l4.portPrefix = BitVec.ofNat 8 bits :=
    congrArg IndexKey.portPrefix slots
  have ports : record.l4.port = packet.port &&& portMask (BitVec.ofNat 8 bits) :=
    congrArg IndexKey.port slots
  constructor
  · apply sound.matches_iff.mpr
    refine ⟨congrArg IndexKey.identity slots, congrArg IndexKey.egress slots, ?_⟩
    have short : ¬record.l4.portPrefix > 16#8 := BitVec.not_lt.mpr sound.key.2.1
    have block : record.l4.block.matches packet.port = true := by
      rw [PortBlock.matches, HostKey.block, if_neg short, decide_eq_true_eq]
      simp only [prefixes, ports, BitVec.and_assoc, BitVec.and_self]
    simp [HostKey.l4Matches, protocols, block]
  · rw [prefixes, BitVec.toNat_ofNat, Nat.mod_eq_of_lt (by omega)]

theorem Sound.prefixlen_eq (sound : Sound record) :
    record.key.prefixlen.toNat =
      if record.key.protocol = anyProtocol then 40 else 48 + record.l4.portPrefix.toNat := by
  have length := sound.length
  unfold HostKey.length at length
  have same : record.l4.protocol = record.key.protocol := rfl
  rw [same] at length
  split at length <;> rename_i any
  · rw [if_pos any]
    omega
  · rw [if_neg any]
    omega

end Probing

section Find

variable {records : List Record} {index : Index} {identity : U32} {packet : Oracle.Packet}

section

variable (indexes : Indexes records index.entries)

include indexes

theorem probe_of_record {record : Record}
    (member : record ∈ records) : index.entries[record.slot]? = some record.entry :=
  (indexes.holds _ _).mpr ⟨record, member, rfl, rfl⟩

theorem find_eq_some {value : PolicyEntry} (found : index.find identity packet = some value) :
    ∃ record, IsBest records packet identity record ∧ record.entry = value := by
  have bounded : ∀ rival ∈ records, rival.l4.portPrefix.toNat < 17 := by
    intro rival member
    have short := HostKey.portPrefix_le (indexes.sound rival member).key
    omega
  unfold Index.find at found
  simp only at found
  split at found
  · rename_i entry probed
    cases found
    split at probed
    · rename_i specific
      rcases probe_eq_some probed with ⟨bits, below, held, empty⟩
      rcases (indexes.holds _ _).mp held with ⟨record, member, slots, entries⟩
      have sound := indexes.sound record member
      rcases sound.matches_of_probeKey below slots with ⟨matched, length⟩
      have protocols : record.key.protocol = packet.protocol :=
        congrArg IndexKey.protocol slots
      refine ⟨record, ⟨member, matched, fun rival inRecords rivalMatched => ?_⟩, entries⟩
      have rivalSound := indexes.sound rival inRecords
      rw [sound.prefixlen_eq, rivalSound.prefixlen_eq, protocols, if_neg specific]
      rcases rivalSound.slot_of_matches rivalMatched with ⟨any, _⟩ | ⟨notAny, _, rivalSlot⟩
      · rw [if_pos any]
        omega
      · rw [if_neg notAny]
        by_contra longer
        have missed := empty _ (bounded rival inRecords) (by omega)
        rw [← rivalSlot, probe_of_record indexes inRecords] at missed
        cases missed
    · cases probed
  · rename_i unprobed
    rcases (indexes.holds _ _).mp found with ⟨record, member, slots, entries⟩
    have sound := indexes.sound record member
    have protocols : record.key.protocol = anyProtocol := congrArg IndexKey.protocol slots
    refine ⟨record, ⟨member, sound.matches_of_anyKey slots, ?_⟩, entries⟩
    intro rival inRecords rivalMatched
    have rivalSound := indexes.sound rival inRecords
    rw [sound.prefixlen_eq, rivalSound.prefixlen_eq, if_pos protocols]
    rcases rivalSound.slot_of_matches rivalMatched with ⟨any, _⟩ | ⟨notAny, same, rivalSlot⟩
    · rw [if_pos any]
    · rw [same] at notAny
      rw [if_pos notAny] at unprobed
      have missed := probe_eq_none unprobed _ (bounded rival inRecords)
      rw [← rivalSlot, probe_of_record indexes inRecords] at missed
      cases missed

theorem find_of_matches {record : Record}
    (member : record ∈ records) (matched : record.matches packet identity) :
    index.find identity packet ≠ none := by
  have sound := indexes.sound record member
  have short := HostKey.portPrefix_le sound.key
  have held := probe_of_record indexes member
  intro missed
  unfold Index.find at missed
  simp only at missed
  split at missed
  · cases missed
  · rename_i unprobed
    rcases sound.slot_of_matches matched with ⟨_, slot⟩ | ⟨notAny, same, slot⟩
    · rw [slot, anyKey, missed] at held
      cases held
    · rw [same] at notAny
      rw [if_pos notAny] at unprobed
      rw [slot, probe_eq_none unprobed _ (by omega)] at held
      cases held

theorem find_eq_best :
    index.find identity packet = (best records packet identity).map Record.entry := by
  cases found : best records packet identity with
  | none =>
      cases probed : index.find identity packet with
      | none => rfl
      | some value =>
          rcases find_eq_some indexes probed with ⟨record, isBest, _⟩
          have missed := best_eq_none found record isBest.member
          rw [isBest.matched] at missed
          cases missed
  | some record =>
      have isBest := isBest_of_best found
      cases probed : index.find identity packet with
      | none => exact absurd probed (find_of_matches indexes isBest.member isBest.matched)
      | some value =>
          rcases find_eq_some indexes probed with ⟨other, otherBest, entries⟩
          have lengths := Nat.le_antisymm (isBest.longest other otherBest.member otherBest.matched)
            (otherBest.longest record isBest.member isBest.matched)
          have keys := (indexes.sound _ otherBest.member).key_eq_of_prefixlen
            (indexes.sound _ isBest.member) otherBest.matched isBest.matched lengths
          have slots : other.slot = record.slot := by
            simp only [Record.slot, Record.egress, Record.l4, keys]
          have otherHeld := probe_of_record indexes otherBest.member
          rw [slots, probe_of_record indexes isBest.member] at otherHeld
          rw [Option.map_some, otherHeld, entries]

end

end Find

/-! ## The choice between two matches -/

theorem Sound.denies_of_top (sound : Sound record)
    (top : record.entry.precedence = BitVec.allOnes 32) : record.entry.denies = true :=
  sound.deny.mpr (by rw [top]; decide)

/-- The candidates of an identity's own entry and a broader one. -/
def candidatesOf (specific broader : Option PolicyEntry) : List (PolicyEntry × Bool) :=
  (broader.map (·, false)).toList ++ (specific.map (·, true)).toList

theorem stronger_comm (left right : U8) : stronger left right = stronger right left := by
  unfold stronger
  by_cases order : left ≤ right
  · rw [if_pos order]
    split
    · rename_i back
      exact BitVec.le_antisymm back order
    · rfl
  · have back : right ≤ left := by
      rw [BitVec.le_def] at order ⊢
      omega
    rw [if_neg order, if_pos back]

@[simp] theorem stronger_zero (right : U8) : stronger 0#8 right = right :=
  if_pos (BitVec.le_def.mpr (Nat.zero_le _))

def inherited (chosen other : PolicyEntry) : U8 :=
  if chosen.hasExplicitAuthType then chosen.authType
  else if other.precedence = chosen.precedence then stronger chosen.authType other.authType
  else chosen.authType

def settled (chosen other : PolicyEntry) : Outcome :=
  if chosen.denies then .deny
  else .allow chosen.proxyPort (inherited chosen other) chosen.cookie

theorem settle_singleton (candidate : PolicyEntry × Bool) :
    Index.settle [candidate] =
      if candidate.1.denies then .deny
      else .allow candidate.1.proxyPort candidate.1.authType candidate.1.cookie := by
  simp [Index.settle, Index.strongest]

theorem settle_pair (first second : PolicyEntry × Bool) :
    Index.settle [first, second] =
      if Index.noLater first second then settled second.1 first.1
      else settled first.1 second.1 := by
  have sorted : [first, second].insertionSort Index.noLater =
      if Index.noLater first second then [first, second] else [second, first] := by
    simp [List.insertionSort, List.orderedInsert]
  rw [Index.settle, sorted]
  by_cases order : Index.noLater first second
  · by_cases same : first.1.precedence = second.1.precedence
    · simp [order, settled, inherited, Index.strongest, same, stronger_comm first.1.authType]
    · simp [order, settled, inherited, Index.strongest, same]
  · by_cases same : second.1.precedence = first.1.precedence
    · simp [order, settled, inherited, Index.strongest, same, stronger_comm second.1.authType]
    · simp [order, settled, inherited, Index.strongest, same]

section Choice

variable {specific broader : Record}

theorem noLater_iff (sound : Sound specific) (broaderSound : Sound broader) :
    Index.noLater (broader.entry, false) (specific.entry, true) ↔
      ¬(broader.entry.precedence > specific.entry.precedence ∨
        (broader.entry.precedence = specific.entry.precedence ∧
          broader.key.prefixlen > specific.key.prefixlen)) := by
  have lpm := sound.lpm
  have broaderLpm := broaderSound.lpm
  simp only [Index.noLater, gt_iff_lt, BitVec.lt_def, BitVec.toNat_inj.symm, Bool.false_eq_true,
    false_implies, and_true]
  omega

theorem outcome_some (chosen alternate : Record) :
    chosen.outcome (some alternate) = settled chosen.entry alternate.entry := by
  by_cases same : alternate.entry.precedence = chosen.entry.precedence
  · simp [Record.outcome, settled, inherited, Option.filter, same]
  · simp [Record.outcome, settled, inherited, Option.filter, same]

theorem outcome_none (chosen : Record) (broad : Bool) :
    chosen.outcome none = Index.settle [(chosen.entry, broad)] := by
  simp [Record.outcome, settle_singleton]

theorem conclude_pair (sound : Sound specific) (broaderSound : Sound broader) :
    conclude (some specific) (some broader) =
      Index.settle [(broader.entry, false), (specific.entry, true)] := by
  rw [settle_pair, conclude, choose]
  by_cases top : specific.entry.precedence = BitVec.allOnes 32
  · have denies := sound.denies_of_top top
    have concluded : specific.outcome none = .deny := by simp [Record.outcome, denies]
    simp only [top, ne_eq, not_true_eq_false, false_and, if_false, if_true, concluded]
    split
    · simp [settled, denies]
    · rename_i later
      rw [noLater_iff sound broaderSound, not_not, top] at later
      have broaderTop : broader.entry.precedence = BitVec.allOnes 32 := by
        rcases later with above | equal
        · have bound := broader.entry.precedence.isLt
          have ones : (BitVec.allOnes 32).toNat = 2 ^ 32 - 1 := rfl
          rw [gt_iff_lt, BitVec.lt_def] at above
          omega
        · exact equal.1
      simp [settled, broaderSound.denies_of_top broaderTop]
  · simp only [noLater_iff sound broaderSound, top, ne_eq, not_false_eq_true, true_and, if_false]
    by_cases above : broader.entry.precedence > specific.entry.precedence ∨
        (broader.entry.precedence = specific.entry.precedence ∧
          broader.key.prefixlen > specific.key.prefixlen)
    · rw [if_pos above, if_neg (not_not.mpr above)]
      exact outcome_some broader specific
    · rw [if_neg above, if_pos above]
      exact outcome_some specific broader

end Choice

/-- The scan's conclusion is the index's, from the entries alone. -/
theorem conclude_eq_settle {exact other : Option Record}
    (exactSound : ∀ record, exact = some record → Sound record)
    (otherSound : ∀ record, other = some record → Sound record) :
    conclude exact other =
      Index.settle (candidatesOf (exact.map Record.entry) (other.map Record.entry)) := by
  cases exact with
  | none =>
      cases other with
      | none => rfl
      | some broader => exact outcome_none broader false
  | some specific =>
      cases other with
      | none => exact outcome_none specific true
      | some broader => exact conclude_pair (exactSound _ rfl) (otherSound _ rfl)

section Lookup

variable {records : List Record} {packet : Oracle.Packet} {identity aggregate : U32}

theorem sound_of_best (sound : ∀ record ∈ records, Sound record) (record : Record)
    (found : best records packet identity = some record) : Sound record :=
  sound record (isBest_of_best found).member

theorem sound_of_broader (sound : ∀ record ∈ records, Sound record) (record : Record)
    (found : broader records packet aggregate = some record) : Sound record := by
  unfold broader at found
  simp only at found
  split_ifs at found
  all_goals exact sound_of_best sound record found

theorem lookupAt_eq_scanAt {index : Index} (indexes : Indexes records index.entries) :
    index.lookupAt packet aggregate = scanAt records packet aggregate := by
  rw [scanAt, conclude_eq_settle (sound_of_best indexes.sound) (sound_of_broader indexes.sound),
    Index.lookupAt]
  simp only [find_eq_best indexes, broader]
  congr 1
  by_cases same : aggregate = packet.identity
  · cases best records packet packet.identity with
    | none =>
        by_cases zero : packet.identity = wildcard <;> simp [same, zero, candidatesOf]
    | some specific => simp [same, candidatesOf]
  · cases best records packet packet.identity with
    | none =>
        cases best records packet aggregate with
        | none => by_cases zero : aggregate = wildcard <;> simp [same, zero, candidatesOf]
        | some found => simp [same, candidatesOf]
    | some specific => simp [same, candidatesOf]

end Lookup

/-- The indexed lookup is the scan: it answers alike and fails with the same
message. -/
theorem lookup_new_eq_scan (records : List Record) (context : Context) (packet : Oracle.Packet) :
    (do let index ← Index.new records; index.lookup context packet) =
      scan records context packet := by
  rcases foldlM_add indexes_nil records with ⟨message, checked, failed⟩ | ⟨checked, filled⟩
  · rw [scan, checked, Index.new, failed]
    rfl
  · rcases filled with ⟨entries, made, indexes⟩
    rw [scan, checked, Index.new, made]
    simp only [bind, Except.bind, Index.lookup]
    cases context.aggregate packet.identity with
    | error message => rfl
    | ok aggregate =>
        have same : (⟨entries⟩ : Index).lookupAt packet aggregate =
            scanAt records packet aggregate := lookupAt_eq_scanAt indexes
        simp only [same]

end FlowSdn.Policy.KernelMap
