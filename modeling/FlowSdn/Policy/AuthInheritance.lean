import FlowSdn.Policy.KernelPrepare

/-! # Authentication is inherited from the nearest ancestor

A record without an authentication type of its own takes that of the longest covering
record which has one and stands at an allow priority not below its own.
-/

namespace FlowSdn.Policy.KernelMap

open Abi Identity Words OrderedMap Agent Checked

/-! ## Covering -/

/-- A shorter key of the same identity and direction that matches whatever the child's does. -/
structure Covers (parent child : Record) : Prop where
  identity : parent.key.secLabel = child.key.secLabel
  direction : parent.key.egress = child.key.egress
  shorter : parent.key.prefixlen < child.key.prefixlen
  broader : ∀ packet, child.matches packet child.key.secLabel →
    parent.matches packet child.key.secLabel

/-- An ancestor whose authentication type a record can take. -/
structure Ancestor (records : List Record) (target parent : Record) : Prop where
  member : parent ∈ records
  covers : Covers parent target
  allows : parent.entry.denies = false
  explicit : parent.entry.hasExplicitAuthType = true
  priority : allowPriority target.entry.precedence ≤ allowPriority parent.entry.precedence

structure Nearest (records : List Record) (target parent : Record) : Prop extends
    Ancestor records target parent where
  longest : ∀ other, Ancestor records target other → other ≠ parent →
    other.key.prefixlen < parent.key.prefixlen

section Covering

variable {parent child : Record}

theorem Sound.matches_packet (sound : Sound child) :
    child.matches child.packet child.key.secLabel := by
  rw [sound.matches_iff]
  refine ⟨rfl, rfl, (HostKey.l4Matches_iff sound.key).mpr ?_⟩
  exact .inr ⟨rfl, rfl⟩

theorem covers_iff (sound : Sound parent) (childSound : Sound child) :
    covers parent child ↔ Covers parent child := by
  unfold covers
  rw [Bool.and_eq_true, decide_eq_true_eq]
  constructor
  · intro both
    rcases both with ⟨shorter, matched⟩
    rcases sound.matches_iff.mp matched with ⟨label, direction, l4⟩
    refine ⟨label, ?_, shorter, fun packet held => ?_⟩
    · rw [sound.egress, childSound.egress]
      exact congrArg bit direction
    · rcases childSound.matches_iff.mp held with ⟨_, childDirection, childL4⟩
      refine sound.matches_iff.mpr ⟨label, direction.trans childDirection, ?_⟩
      rw [HostKey.l4Matches_iff sound.key] at l4 ⊢
      rcases l4 with any | ⟨protocols, bits⟩
      · exact .inl any
      · -- A protocol of its own goes down to the child, whose port has more fixed bits.
        by_cases any : parent.l4.protocol = anyProtocol
        · exact .inl any
        · have childProtocol : child.l4.protocol = parent.l4.protocol := protocols.symm
          rcases (HostKey.l4Matches_iff childSound.key).mp childL4 with childAny | ⟨same, childBits⟩
          · exact absurd (childProtocol.symm.trans childAny) any
          · have longer : parent.l4.portPrefix.toNat ≤ child.l4.portPrefix.toNat := by
              rw [sound.toNat_portPrefix, childSound.toNat_portPrefix]
              have order : parent.key.prefixlen.toNat < child.key.prefixlen.toNat := shorter
              omega
            exact .inr ⟨protocols.trans same, (leadingBits_eq_of_le longer childBits).trans bits⟩
  · intro covered
    exact ⟨covered.shorter, covered.broader child.packet childSound.matches_packet⟩

end Covering

section Longest

variable {records : List Record} {record : Record}

theorem longest_eq_some (found : longest records = some record) :
    record ∈ records ∧ ∀ rival ∈ records, rival.key.prefixlen ≤ record.key.prefixlen := by
  refine ⟨List.mem_reverse.mp (List.argmax_mem found), fun rival member => ?_⟩
  exact List.le_of_mem_argmax (f := fun held : Record => held.key.prefixlen.toNat)
    (List.mem_reverse.mpr member) found

theorem longest_eq_none (missing : longest records = none) : records = [] :=
  List.reverse_eq_nil_iff.mp (List.argmax_eq_none.mp missing)

theorem longest_map (change : Record → Record) (keys : ∀ record, (change record).key = record.key) :
    longest (records.map change) = (longest records).map change := by
  unfold longest List.argmax
  rw [← List.map_reverse, List.foldl_map]
  refine @List.foldl_hom _ _ _ (Option.map change) _ _ records.reverse none fun chosen record => ?_
  cases chosen with
  | none => rfl
  | some chosen =>
      simp only [List.argAux, Option.map_some, keys]
      split <;> rfl

end Longest

section Target

variable {records : List Record} {target : Record}

section

variable (valid : Valid records) (member : target ∈ records)

include valid member

theorem mem_bequeathing {parent : Record} :
    parent ∈ (parents records target).filter (bequeaths target) ↔
      Ancestor records target parent := by
  unfold parents bequeaths
  simp only [List.mem_filter, Bool.and_eq_true, Bool.not_eq_true', decide_eq_true_eq]
  constructor
  · intro found
    rcases found with ⟨⟨isRecord, covered⟩, ⟨allows, explicit⟩, priority⟩
    exact ⟨isRecord, (covers_iff (valid.sound _ isRecord) (valid.sound _ member)).mp covered,
      allows, explicit, priority⟩
  · intro ancestor
    exact ⟨⟨ancestor.member,
      (covers_iff (valid.sound _ ancestor.member) (valid.sound _ member)).mpr ancestor.covers⟩,
      ⟨ancestor.allows, ancestor.explicit⟩, ancestor.priority⟩

theorem Ancestor.eq_of_prefixlen {parent other : Record} (ancestor : Ancestor records target parent)
    (also : Ancestor records target other) (same : parent.key.prefixlen = other.key.prefixlen) :
    parent = other := by
  have own := (valid.sound _ member).matches_packet
  refine valid.eq_of_key ancestor.member also.member ?_
  exact (valid.sound _ ancestor.member).key_eq_of_prefixlen (valid.sound _ also.member)
    (ancestor.covers.broader _ own) (also.covers.broader _ own) (congrArg BitVec.toNat same)

theorem longest_bequeathing_eq_some {parent : Record} :
    longest ((parents records target).filter (bequeaths target)) = some parent ↔
      Nearest records target parent := by
  constructor
  · intro found
    rcases longest_eq_some found with ⟨listed, most⟩
    have ancestor := (mem_bequeathing valid member).mp listed
    refine ⟨ancestor, fun other also different => ?_⟩
    have bound := most other ((mem_bequeathing valid member).mpr also)
    refine BitVec.lt_of_le_ne bound fun same => ?_
    exact different (also.eq_of_prefixlen valid member ancestor same)
  · intro nearest
    have listed := (mem_bequeathing valid member).mpr nearest.toAncestor
    cases found : longest ((parents records target).filter (bequeaths target)) with
    | none =>
        rw [longest_eq_none found] at listed
        cases listed
    | some other =>
        rcases longest_eq_some found with ⟨otherListed, most⟩
        by_contra different
        have shorter := nearest.longest other ((mem_bequeathing valid member).mp otherListed)
          fun same => different (congrArg some same)
        exact absurd (most parent listed) (BitVec.not_le.mpr shorter)

end

inductive Inherits (records : List Record) (target : Record) : Record → Prop
  | own (settled : target.entry.denies = true ∨ target.entry.hasExplicitAuthType = true) :
      Inherits records target target
  | nearest {parent : Record} (allows : target.entry.denies = false)
      (open_ : target.entry.hasExplicitAuthType = false) (nearest : Nearest records target parent) :
      Inherits records target (withAuth target parent.entry.authType)
  | none (allows : target.entry.denies = false) (open_ : target.entry.hasExplicitAuthType = false)
      (alone : ∀ parent, ¬Ancestor records target parent) : Inherits records target target

theorem inherits_withInherited (valid : Valid records) (member : target ∈ records) :
    Inherits records target (withInherited records target) := by
  unfold withInherited
  by_cases settled : (target.entry.denies || target.entry.hasExplicitAuthType) = true
  · rw [if_pos settled]
    exact .own (Bool.or_eq_true_iff.mp settled)
  · rw [if_neg settled]
    rw [Bool.not_eq_true, Bool.or_eq_false_iff] at settled
    cases found : longest ((parents records target).filter (bequeaths target)) with
    | none =>
        refine .none settled.1 settled.2 fun parent ancestor => ?_
        have listed := (mem_bequeathing valid member).mpr ancestor
        rw [longest_eq_none found] at listed
        cases listed
    | some parent =>
        exact .nearest settled.1 settled.2 ((longest_bequeathing_eq_some valid member).mp found)

end Target

/-! ## Changes of the authentication type alone -/

def withoutAuth (record : Record) : Record := withAuth record 0#8

def Outcome.withoutAuth : Outcome → Outcome
  | .allow proxyPort _ cookie => .allow proxyPort 0#8 cookie
  | other => other

section Change

variable {change : Record → Record}
  (keeps : ∀ record, withoutAuth (change record) = withoutAuth record)

include keeps

theorem key_of_keeps (record : Record) : (change record).key = record.key := by
  have fields := congrArg Record.key (keeps record)
  exact fields

theorem denies_of_keeps (record : Record) :
    (change record).entry.denies = record.entry.denies :=
  congrArg (fun held => held.entry.denies) (keeps record)

theorem precedence_of_keeps (record : Record) :
    (change record).entry.precedence = record.entry.precedence :=
  congrArg (fun held => held.entry.precedence) (keeps record)

theorem matches_of_keeps (record : Record) (packet : Oracle.Packet) (identity : U32) :
    (change record).matches packet identity = record.matches packet identity := by
  unfold Record.matches
  rw [key_of_keeps keeps]

theorem covers_of_keeps (parent child : Record) :
    covers (change parent) (change child) = covers parent child := by
  unfold covers Record.packet
  rw [key_of_keeps keeps parent, key_of_keeps keeps child, matches_of_keeps keeps]

theorem best_map (records : List Record) (packet : Oracle.Packet) (identity : U32) :
    best (records.map change) packet identity = (best records packet identity).map change := by
  have filtered : (records.map change).filter (·.matches packet identity) =
      (records.filter (·.matches packet identity)).map change := by
    rw [List.filter_map]
    congr 1
    apply List.filter_congr
    intro record _
    exact matches_of_keeps keeps record packet identity
  have chosen : longest ((records.filter (·.matches packet identity)).map change) =
      (longest (records.filter (·.matches packet identity))).map change :=
    longest_map change (key_of_keeps keeps)
  unfold longest at chosen
  rw [best, filtered, chosen, best]

theorem withoutAuth_outcome (chosen : Record) (alternate : Option Record) :
    ((change chosen).outcome (alternate.map change)).withoutAuth =
      (chosen.outcome alternate).withoutAuth := by
  have proxies : (change chosen).entry.proxyPort = chosen.entry.proxyPort :=
    congrArg (fun held => held.entry.proxyPort) (keeps chosen)
  have cookies : (change chosen).entry.cookie = chosen.entry.cookie :=
    congrArg (fun held => held.entry.cookie) (keeps chosen)
  unfold Record.outcome
  rw [denies_of_keeps keeps]
  split
  · rfl
  · simp only [Outcome.withoutAuth, proxies, cookies]

theorem choose_map (exact other : Option Record) :
    choose (exact.map change) (other.map change) =
      (choose exact other).map fun pair => (change pair.1, pair.2.map change) := by
  cases exact with
  | none => cases other <;> rfl
  | some specific =>
      cases other with
      | none => rfl
      | some broad =>
          simp only [Option.map_some, choose, precedence_of_keeps keeps, key_of_keeps keeps]
          split
          · rfl
          · split <;> rfl

theorem withoutAuth_scanAt (records : List Record) (packet : Oracle.Packet) (aggregate : U32) :
    (scanAt (records.map change) packet aggregate).withoutAuth =
      (scanAt records packet aggregate).withoutAuth := by
  have wider : broader (records.map change) packet aggregate =
      (broader records packet aggregate).map change := by
    unfold broader
    simp only [best_map keeps]
    by_cases same : aggregate = packet.identity
    · simp only [if_pos same, Option.isNone_map, Option.isNone_none]
      split <;> rfl
    · simp only [if_neg same, Option.isNone_map]
      split <;> rfl
  unfold scanAt conclude
  rw [best_map keeps, wider, choose_map keeps]
  cases choose (best records packet packet.identity) (broader records packet aggregate) with
  | none => rfl
  | some pair => exact withoutAuth_outcome keeps pair.1 pair.2

end Change

section Pass

variable {records : List Record}

theorem withoutAuth_withInherited (records : List Record) (target : Record) :
    withoutAuth (withInherited records target) = withoutAuth target := by
  unfold withInherited
  split
  · rfl
  · split <;> rfl

/-- No record that covers an allow is stronger than it. -/
def Normalized (records : List Record) : Prop :=
  ∀ target ∈ records, target.entry.denies = false → ∀ parent ∈ records, covers parent target →
    parent.entry.precedence ≤ target.entry.precedence

variable {target : Record} {result other : List Record}

theorem inheritOne_eq_ok {result : Record} :
    inheritOne records target = .ok result ↔
      (target.entry.denies = false → ∀ parent ∈ records, covers parent target →
        parent.entry.precedence ≤ target.entry.precedence) ∧
      result = withInherited records target := by
  unfold inheritOne
  by_cases denies : target.entry.denies = true
  · have settled : withInherited records target = target := by
      unfold withInherited
      rw [if_pos (by rw [denies]; rfl)]
    rw [if_pos denies, settled, Except.ok.injEq]
    refine ⟨fun same => ⟨fun allows => ?_, same.symm⟩, fun both => both.2.symm⟩
    rw [denies] at allows
    cases allows
  · rw [if_neg denies]
    have allows : target.entry.denies = false := by simpa using denies
    by_cases stronger : (parents records target).any
        (target.entry.precedence < ·.entry.precedence) = true
    · rw [if_pos stronger]
      simp only [reduceCtorEq, false_iff, not_and]
      intro weaker
      rcases List.any_eq_true.mp stronger with ⟨parent, listed, above⟩
      rcases List.mem_filter.mp listed with ⟨member, covered⟩
      exact absurd (weaker allows parent member covered)
        (BitVec.not_le.mpr (of_decide_eq_true above))
    · rw [if_neg stronger, Except.ok.injEq, eq_comm]
      refine ⟨fun same => ⟨fun _ parent member covered => ?_, same⟩, fun both => both.2⟩
      by_contra above
      refine stronger (List.any_eq_true.mpr ⟨parent, List.mem_filter.mpr ⟨member, covered⟩, ?_⟩)
      exact decide_eq_true (BitVec.not_le.mp above)

theorem inheritAuth_eq_ok :
    inheritAuth records = .ok result ↔
      Valid records ∧ Normalized records ∧ result = records.map (withInherited records) := by
  unfold inheritAuth
  constructor
  · intro made
    split at made
    · cases made
    · rename_i index indexed
      have rounds : ∀ target ∈ records, inheritOne records target =
          .ok (withInherited records target) := by
        intro target member
        rcases exists_mem_of_mapM made member with ⟨found, _, round⟩
        rw [(inheritOne_eq_ok.mp round).2] at round
        exact round
      rw [mapM_eq_map rounds, Except.ok.injEq] at made
      exact ⟨valid_of_new indexed,
        fun target member => (inheritOne_eq_ok.mp (rounds target member)).1, made.symm⟩
  · intro holds
    rcases holds with ⟨valid, normalized, same⟩
    rcases new_eq_ok_iff.mpr valid with ⟨index, indexed⟩
    rw [indexed, same]
    exact mapM_eq_map fun target member => inheritOne_eq_ok.mpr ⟨normalized target member, rfl⟩

/-! ### Again -/

theorem canonical_withAuth {record : Record} (auth : U8) (allows : record.entry.denies = false) :
    canonical (withAuth record auth) = canonical record := by
  have still : (withAuth record auth).entry.denies = false := allows
  unfold canonical
  simp only [still, allows, Bool.false_eq_true, false_and, if_false]
  rfl

theorem canonical_withInherited (target : Record) :
    canonical (withInherited records target) = canonical target := by
  unfold withInherited
  split
  · rfl
  · rename_i settled
    rw [Bool.or_eq_true, not_or, Bool.not_eq_true] at settled
    split
    · exact canonical_withAuth _ settled.1
    · rfl

theorem valid_map (valid : Valid records) : Valid (records.map (withInherited records)) := by
  constructor
  · intro record member
    rcases List.mem_map.mp member with ⟨target, isTarget, same⟩
    rw [← same, canonical_withInherited]
    exact valid.canonical target isTarget
  · rw [List.map_map]
    have keys : Record.key ∘ withInherited records = Record.key := by
      funext record
      exact key_of_keeps (withoutAuth_withInherited records) record
    rw [keys]
    exact valid.distinct

theorem normalized_map (normalized : Normalized records) :
    Normalized (records.map (withInherited records)) := by
  have keeps := withoutAuth_withInherited records
  intro target member allows parent isParent covered
  rcases List.mem_map.mp member with ⟨before, isBefore, same⟩
  rcases List.mem_map.mp isParent with ⟨parentBefore, isParentBefore, sameParent⟩
  subst same sameParent
  rw [denies_of_keeps keeps] at allows
  rw [covers_of_keeps keeps] at covered
  rw [precedence_of_keeps keeps, precedence_of_keeps keeps]
  exact normalized before isBefore allows parentBefore isParentBefore covered

theorem hasExplicit_withInherited (target : Record) :
    (withInherited records target).entry.hasExplicitAuthType =
      target.entry.hasExplicitAuthType := by
  unfold withInherited
  split
  · rfl
  · rename_i settled
    rw [Bool.or_eq_true, not_or, Bool.not_eq_true, Bool.not_eq_true] at settled
    split
    · rename_i parent _
      rw [settled.2, withAuth, PolicyEntry.hasExplicitAuthType, PolicyEntry.authType]
      have clear : parent.entry.auth &&& 0x7f#8 &&& 0x80#8 = 0#8 := by
        rw [BitVec.and_assoc]
        exact BitVec.and_zero
      simp [clear]
    · rfl

theorem withInherited_of_bequeaths {parent : Record} (holds : bequeaths target parent) :
    withInherited records parent = parent := by
  unfold bequeaths at holds
  simp only [Bool.and_eq_true] at holds
  unfold withInherited
  rw [if_pos]
  rw [holds.1.2, Bool.or_true]

/-- What a record inherits, it inherits again from the result. -/
theorem withInherited_again (target : Record) :
    withInherited (records.map (withInherited records)) (withInherited records target) =
      withInherited records target := by
  have keeps := withoutAuth_withInherited records
  have candidates : (parents (records.map (withInherited records))
      (withInherited records target)).filter (bequeaths (withInherited records target)) =
      ((parents records target).filter (bequeaths target)).map (withInherited records) := by
    unfold parents
    rw [List.filter_filter, List.filter_filter, List.filter_map]
    congr 1
    apply List.filter_congr
    intro parent _
    simp only [Function.comp_apply, covers_of_keeps keeps, bequeaths, denies_of_keeps keeps,
      hasExplicit_withInherited, precedence_of_keeps keeps]
  have chosen : longest (((parents records target).filter (bequeaths target)).map
      (withInherited records)) = longest ((parents records target).filter (bequeaths target)) := by
    have unchanged : ((parents records target).filter (bequeaths target)).map
        (withInherited records) = (parents records target).filter (bequeaths target) := by
      rw [List.map_congr_left (g := id), List.map_id]
      intro parent listed
      exact withInherited_of_bequeaths (List.mem_filter.mp listed).2
    rw [unchanged]
  by_cases settled : (target.entry.denies || target.entry.hasExplicitAuthType) = true
  · have same : withInherited records target = target := if_pos settled
    rw [same, withInherited, if_pos settled]
  · have stillOpen : ¬((withInherited records target).entry.denies ||
        (withInherited records target).entry.hasExplicitAuthType) = true := by
      rw [denies_of_keeps keeps, hasExplicit_withInherited]
      exact settled
    rw [withInherited, if_neg stillOpen, candidates, chosen]
    cases found : longest ((parents records target).filter (bequeaths target)) with
    | none => rfl
    | some parent =>
        have became : withInherited records target = withAuth target parent.entry.authType := by
          rw [withInherited, if_neg settled, found]
        rw [became]
        rfl

theorem inheritAuth_again (made : inheritAuth records = .ok result) :
    inheritAuth result = .ok result := by
  rcases inheritAuth_eq_ok.mp made with ⟨valid, normalized, same⟩
  subst same
  refine inheritAuth_eq_ok.mpr ⟨valid_map valid, normalized_map normalized, ?_⟩
  rw [List.map_map]
  refine (List.map_congr_left fun target _ => ?_).symm
  exact withInherited_again target

theorem nearest_perm (same : records.Perm other) {parent : Record} :
    Nearest records target parent ↔ Nearest other target parent := by
  have ancestors : ∀ held, Ancestor records target held ↔ Ancestor other target held := by
    intro held
    constructor
    · intro ancestor
      exact { ancestor with member := same.mem_iff.mp ancestor.member }
    · intro ancestor
      exact { ancestor with member := same.mem_iff.mpr ancestor.member }
  constructor
  · intro nearest
    exact ⟨(ancestors parent).mp nearest.toAncestor, fun held also =>
      nearest.longest held ((ancestors held).mpr also)⟩
  · intro nearest
    exact ⟨(ancestors parent).mpr nearest.toAncestor, fun held also =>
      nearest.longest held ((ancestors held).mp also)⟩

theorem withInherited_perm (valid : Valid records) (same : records.Perm other)
    (member : target ∈ records) : withInherited other target = withInherited records target := by
  have chosen : longest ((parents other target).filter (bequeaths target)) =
      longest ((parents records target).filter (bequeaths target)) := by
    apply Option.ext
    intro parent
    rw [longest_bequeathing_eq_some (valid.perm same) (same.mem_iff.mp member),
      longest_bequeathing_eq_some valid member, nearest_perm same]
  unfold withInherited
  rw [chosen]

theorem inheritAuth_perm (made : inheritAuth records = .ok result) (same : records.Perm other) :
    ∃ reordered, inheritAuth other = .ok reordered ∧ result.Perm reordered := by
  rcases inheritAuth_eq_ok.mp made with ⟨valid, normalized, isResult⟩
  refine ⟨other.map (withInherited other), ?_, ?_⟩
  · refine inheritAuth_eq_ok.mpr ⟨valid.perm same, ?_, rfl⟩
    intro target member allows parent isParent
    exact normalized target (same.mem_iff.mpr member) allows parent (same.mem_iff.mpr isParent)
  · rw [isResult, ← List.map_congr_left fun target member => withInherited_perm valid same member]
    exact same.map _

/-! ### Lookups -/

theorem lookup_inheritAuth (made : inheritAuth records = .ok result) :
    ∃ before after, Index.new records = .ok before ∧ Index.new result = .ok after ∧
      ∀ context packet, Outcome.withoutAuth <$> after.lookup context packet =
        Outcome.withoutAuth <$> before.lookup context packet := by
  rcases inheritAuth_eq_ok.mp made with ⟨valid, _, isResult⟩
  subst isResult
  rcases new_eq_ok_iff.mpr valid with ⟨before, isBefore⟩
  rcases new_eq_ok_iff.mpr (valid_map valid) with ⟨after, isAfter⟩
  refine ⟨before, after, isBefore, isAfter, fun context packet => ?_⟩
  have first := lookup_new_eq_scan records context packet
  have second := lookup_new_eq_scan (records.map (withInherited records)) context packet
  rw [isBefore] at first
  rw [isAfter] at second
  have scanned : before.lookup context packet = scan records context packet := first
  have rescanned : after.lookup context packet =
      scan (records.map (withInherited records)) context packet := second
  rw [scanned, rescanned, valid.scan_eq, (valid_map valid).scan_eq]
  cases context.aggregate packet.identity with
  | error message => rfl
  | ok aggregate =>
      exact congrArg Except.ok
        (withoutAuth_scanAt (withoutAuth_withInherited records) records packet aggregate)

end Pass

/-- Inheriting authentication is the closure under the nearest ancestor: each record keeps
its place and becomes what it inherits; again it changes nothing; the order of the records
does not matter; and lookups differ at most in the authentication type. -/
theorem inheritAuth_closure {records result : List Record}
    (made : inheritAuth records = .ok result) :
    List.Forall₂ (Inherits records) records result ∧
    inheritAuth result = .ok result ∧
    (∀ other, records.Perm other →
      ∃ reordered, inheritAuth other = .ok reordered ∧ result.Perm reordered) ∧
    ∃ before after, Index.new records = .ok before ∧ Index.new result = .ok after ∧
      ∀ context packet, Outcome.withoutAuth <$> after.lookup context packet =
        Outcome.withoutAuth <$> before.lookup context packet := by
  rcases inheritAuth_eq_ok.mp made with ⟨valid, _, isResult⟩
  refine ⟨?_, inheritAuth_again made, fun other => inheritAuth_perm made, lookup_inheritAuth made⟩
  rw [isResult, List.forall₂_map_right_iff, List.forall₂_same]
  exact fun target member => inherits_withInherited valid member

/-- An allow with an authentication type of its own, over one without. -/
def coveredRecords : List Record :=
  [{ key := { prefixlen := 40#32, secLabel := 256#32, egress := 1#8, protocol := 0#8,
              dport := 0#16 }
     entry := { proxyPort := 0#16, flags := 0#8, auth := 0x82#8, precedence := 1#32,
                cookie := 0#32 }
     origin := "web" },
   { key := { prefixlen := 64#32, secLabel := 256#32, egress := 1#8, protocol := 6#8,
              dport := 80#16 }
     entry := { proxyPort := 0#16, flags := 0xc0#8, auth := 0#8, precedence := 1#32,
                cookie := 0#32 }
     origin := "web" }]

theorem inheritAuth_coveredRecords :
    ∃ result, inheritAuth coveredRecords = .ok result ∧
      result.map (·.entry.auth) = [0x82#8, 2#8] ∧
      List.Forall₂ (Inherits coveredRecords) coveredRecords result := by
  have made : inheritAuth coveredRecords =
      .ok (coveredRecords.map (withInherited coveredRecords)) := by decide +kernel
  exact ⟨_, made, by decide +kernel, (inheritAuth_closure made).1⟩

end FlowSdn.Policy.KernelMap
