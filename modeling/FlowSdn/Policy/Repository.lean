import FlowSdn.Foundation.FiniteMap
import FlowSdn.Policy.MapState

/-! # The rules of one subject, by resource

A repository replaces the rules of one resource at a time. The rules of all resources must
stay valid together, so a candidate is checked with the rules of the others before anything
is written.
-/

namespace FlowSdn.Policy

open Oracle OrderedMap

structure SubjectRepository where
  resources : BTreeMap String (List Rule) := ∅
  revision : U64 := 0

namespace SubjectRepository

def rules (repository : SubjectRepository) : List Rule := repository.resources.values.flatten

def others (repository : SubjectRepository) (resource : String) : List Rule :=
  (repository.resources.toList.filter fun entry => entry.1 ≠ resource).flatMap Prod.snd

def replace (repository : SubjectRepository) (resource : String) (rules : List Rule) :
    Except Error U64 × SubjectRepository :=
  if resource = "" then (.error .invalidName, repository)
  else
    match validateSubject (repository.others resource ++ rules) with
    | .error error => (.error error, repository)
    | .ok _ =>
        if repository.revision = BitVec.allOnes 64 then (.error .revisionExhausted, repository)
        else
          (.ok (repository.revision + 1),
            { resources := relist repository.resources resource rules
              revision := repository.revision + 1 })

def index (repository : SubjectRepository) : Except Error MapState :=
  MapState.compile repository.rules

/-! ## Valid together -/

variable {rules : List Rule} {repository : SubjectRepository}

theorem validateSubject_eq_ok :
    validateSubject rules = .ok () ↔ (∀ rule ∈ rules, rule.validate = .ok ()) ∧
      ¬((∃ rule ∈ rules, rule.verdict = .pass) ∧ ∃ rule ∈ rules, rule.authentication.isSome) := by
  unfold validateSubject
  rw [Checked.check_eq_ok, Checked.forM_eq_ok]
  refine and_congr_right fun _ => ?_
  by_cases both : (∃ rule ∈ rules, rule.verdict = .pass) ∧
      ∃ rule ∈ rules, rule.authentication.isSome
  · simp [both]
  · simp [both, pure, Except.pure]

theorem validateSubject_congr {same : List Rule}
    (members : ∀ rule, rule ∈ rules ↔ rule ∈ same) (valid : validateSubject rules = .ok ()) :
    validateSubject same = .ok () := by
  rw [validateSubject_eq_ok] at valid ⊢
  simpa only [members] using valid

theorem mem_others {resource : String} {rule : Rule} :
    rule ∈ repository.others resource ↔
      ∃ other, other ≠ resource ∧ rule ∈ listed repository.resources other := by
  unfold others
  rw [List.mem_flatMap]
  constructor
  · rintro ⟨⟨other, rules⟩, inside, member⟩
    rcases List.mem_filter.mp inside with ⟨present, different⟩
    refine ⟨other, of_decide_eq_true different, ?_⟩
    rw [listed, Std.ExtTreeMap.mem_toList_iff_getElem?_eq_some.mp present]
    exact member
  · rintro ⟨other, different, member⟩
    rw [listed] at member
    cases found : repository.resources[other]? with
    | none =>
        rw [found] at member
        cases member
    | some rules =>
        rw [found] at member
        refine ⟨(other, rules), List.mem_filter.mpr ⟨?_, decide_eq_true different⟩, member⟩
        exact Std.ExtTreeMap.mem_toList_iff_getElem?_eq_some.mpr found

theorem mem_candidate (repository : SubjectRepository) (resource : String) (rules : List Rule)
    (rule : Rule) :
    rule ∈ repository.others resource ++ rules ↔
      rule ∈ (relist repository.resources resource rules).values.flatten := by
  rw [List.mem_append, mem_others, mem_flatten_values]
  constructor
  · rintro (⟨other, different, member⟩ | given)
    · refine ⟨other, ?_⟩
      rw [listed_relist, if_neg different.symm]
      exact member
    · refine ⟨resource, ?_⟩
      rw [listed_relist, if_pos rfl]
      exact given
  · rintro ⟨other, member⟩
    rw [listed_relist] at member
    split at member
    · exact .inr member
    · rename_i different
      exact .inl ⟨other, fun same => different same.symm, member⟩

theorem replace_cases (repository : SubjectRepository) (resource : String) (rules : List Rule) :
    (∃ error, repository.replace resource rules = (.error error, repository)) ∨
    (validateSubject (repository.others resource ++ rules) = .ok () ∧
      repository.revision ≠ BitVec.allOnes 64 ∧
      repository.replace resource rules = (.ok (repository.revision + 1),
        { resources := relist repository.resources resource rules
          revision := repository.revision + 1 })) := by
  unfold replace
  split
  · exact .inl ⟨_, rfl⟩
  · split
    · exact .inl ⟨_, rfl⟩
    · rename_i valid
      split
      · exact .inl ⟨_, rfl⟩
      · rename_i room
        exact .inr ⟨valid, room, rfl⟩

theorem toNat_next {revision : U64} (room : revision ≠ BitVec.allOnes 64) :
    (revision + 1).toNat = revision.toNat + 1 := by
  have below : revision.toNat ≠ 2 ^ 64 - 1 := by
    intro last
    exact room (BitVec.eq_of_toNat_eq (by rw [last, BitVec.toNat_allOnes]))
  have small := revision.isLt
  rw [BitVec.toNat_add]
  change (revision.toNat + 1) % 2 ^ 64 = _
  omega

theorem any_authentication_eq_false (plain : ∀ rule ∈ rules, rule.authentication = none) :
    rules.any (·.authentication.isSome) = false := by
  rw [List.any_eq_false]
  intro rule member
  simp [plain rule member]

theorem compile_of_valid (valid : validateSubject rules = .ok ())
    (plain : ∀ rule ∈ rules, rule.authentication = none) :
    MapState.compile rules = .ok (MapState.index rules false) := by
  rw [MapState.compile, MapState.compileWithDefault_eq, valid, any_authentication_eq_false plain]
  rfl

theorem evaluate_of_valid (valid : validateSubject rules = .ok ())
    (plain : ∀ rule ∈ rules, rule.authentication = none) (packet : Packet) :
    Oracle.evaluate rules packet = .ok ((MapState.index rules false).lookup packet) := by
  have looked :=
    MapState.lookup_index_eq false packet (MapState.ranked_of_validateSubject valid)
  simp only [Bool.false_eq_true, and_false, if_false] at looked
  rw [Oracle.evaluate, valid, any_authentication_eq_false plain, looked]
  rfl

theorem refused_of_authentication (valid : validateSubject rules = .ok ())
    {rule : Rule} (member : rule ∈ rules) (asks : rule.authentication ≠ none) :
    MapState.compile rules = .error .oracleAuthenticationUnsupported ∧
      ∀ packet, Oracle.evaluate rules packet = .error .oracleAuthenticationUnsupported := by
  have some : rules.any (·.authentication.isSome) = true :=
    List.any_eq_true.mpr ⟨rule, member, Option.isSome_iff_ne_none.mpr asks⟩
  constructor
  · rw [MapState.compile, MapState.compileWithDefault_eq, valid, some]
    rfl
  · intro packet
    rw [Oracle.evaluate, valid, some]
    rfl

theorem index_answers (valid : validateSubject repository.rules = .ok ()) (packet : Packet) :
    repository.index.map (·.lookup packet) = Oracle.evaluate repository.rules packet := by
  by_cases plain : ∀ rule ∈ repository.rules, rule.authentication = none
  · rw [index, compile_of_valid valid plain, evaluate_of_valid valid plain]
    rfl
  · rw [not_forall] at plain
    rcases plain with ⟨rule, asks⟩
    rw [Classical.not_imp] at asks
    rcases refused_of_authentication valid asks.1 asks.2 with ⟨uncompiled, refused⟩
    rw [index, uncompiled, refused]
    rfl

/-! ## Runs -/

structure Call where
  resource : String
  rules : List Rule

structure Counted where
  repository : SubjectRepository := {}
  accepted : Nat := 0

def Counted.follow (counted : Counted) (call : Call) : Counted :=
  match counted.repository.replace call.resource call.rules with
  | (.ok _, repository) => { repository, accepted := counted.accepted + 1 }
  | (.error _, repository) => { counted with repository }

def Counted.followAll (calls : List Call) : Counted := calls.foldl Counted.follow {}

def reached (calls : List Call) : SubjectRepository := (Counted.followAll calls).repository

/-- The rules of all resources are valid together and the revision counts. -/
structure Counted.Holds (counted : Counted) : Prop where
  valid : validateSubject counted.repository.rules = .ok ()
  revision : counted.repository.revision.toNat = counted.accepted

theorem Counted.Holds.follow {counted : Counted} (holds : counted.Holds) (call : Call) :
    (counted.follow call).Holds := by
  unfold Counted.follow
  rcases replace_cases counted.repository call.resource call.rules with
    ⟨error, refused⟩ | ⟨valid, room, replaced⟩
  · rw [refused]
    exact holds
  · rw [replaced]
    refine ⟨validateSubject_congr (mem_candidate counted.repository call.resource call.rules)
      valid, ?_⟩
    exact (toNat_next room).trans (congrArg (· + 1) holds.revision)

theorem holds_followAll (calls : List Call) : (Counted.followAll calls).Holds := by
  induction calls using List.reverseRecOn with
  | nil => exact ⟨rfl, rfl⟩
  | append_singleton calls call induction =>
      rw [Counted.followAll, List.foldl_append]
      exact induction.follow call

/-- After any calls the rules of all resources are valid together, their index answers every
packet as the oracle does, and is there unless a rule asks for authentication, which the
oracle refuses too; the revision counts the accepted calls; a call that is accepted lists its
resource's rules anew and no other's; and one that is refused changes nothing. -/
theorem replace_atomic (calls : List Call) :
    validateSubject (reached calls).rules = .ok () ∧
    (∀ packet, (reached calls).index.map (·.lookup packet) =
      Oracle.evaluate (reached calls).rules packet) ∧
    ((∀ rule ∈ (reached calls).rules, rule.authentication = none) →
      ∃ index, (reached calls).index = .ok index) ∧
    (reached calls).revision.toNat = (Counted.followAll calls).accepted ∧
    ∀ resource rules,
      (∀ revision after, (reached calls).replace resource rules = (.ok revision, after) →
        after.revision = revision ∧ revision.toNat = (reached calls).revision.toNat + 1 ∧
        listed after.resources resource = rules ∧
        ∀ other, other ≠ resource →
          listed after.resources other = listed (reached calls).resources other) ∧
      ∀ error after, (reached calls).replace resource rules = (.error error, after) →
        after = reached calls := by
  have holds := holds_followAll calls
  refine ⟨holds.valid, index_answers holds.valid, ?_, holds.revision, ?_⟩
  · intro plain
    exact ⟨_, compile_of_valid holds.valid plain⟩
  intro resource rules
  rcases replace_cases (reached calls) resource rules with
    ⟨error, refused⟩ | ⟨_, room, replaced⟩
  · rw [refused]
    refine ⟨?_, ?_⟩
    · intro revision after accepted
      cases accepted
    · intro other after same
      cases same
      rfl
  · rw [replaced]
    refine ⟨?_, ?_⟩
    · intro revision after accepted
      cases accepted
      refine ⟨rfl, toNat_next room, ?_, ?_⟩
      · rw [listed_relist, if_pos rfl]
      · intro other different
        rw [listed_relist, if_neg different.symm]
    · intro error after failed
      cases failed

end SubjectRepository

end FlowSdn.Policy
