import FlowSdn.Agent.Entries
import FlowSdn.Datapath.Allowed

/-! # Deny wins

What `denyOverAllow` keeps and repeats, the answer of each identity's lookup after
`writeEntries`, and from these the packet's fate: an allow matches and no deny does,
over the packet's identity, its aggregate and the wildcard.
-/

namespace FlowSdn.Agent

open Abi Policy Words LongestPrefix OrderedMap Datapath

/-! ## What the rewriting keeps and repeats -/

/-- Whether a deny has a say about an allow: it is of its identity or of every one. -/
def Concerns (deny allow : HostKey) : Prop :=
  deny.identity = allow.identity ∨ deny.identity = wildcard

section MeetDenies

variable {allow : HostKey} {denies : List HostKey} {outDenies : BTreeSet HostKey}

theorem mem_meetDenies_of_mem {key : HostKey} (member : key ∈ outDenies) :
    key ∈ (meetDenies allow denies outDenies).1 := by
  induction denies generalizing outDenies with
  | nil => exact member
  | cons deny denies induction =>
      simp only [meetDenies]
      split
      · exact induction member
      · split
        · exact member
        · split
          · exact induction (by simp [member])
          · exact induction member

theorem meetDenies_keep_iff :
    (meetDenies allow denies outDenies).2 = true ↔
      ∀ deny ∈ denies, Concerns deny allow → l4Holds deny allow = false := by
  induction denies generalizing outDenies with
  | nil => simp [meetDenies]
  | cons deny denies induction =>
      simp only [meetDenies]
      split
      · rename_i unrelated
        have skip : ¬Concerns deny allow := by
          intro concerns
          rcases concerns with same | any
          · exact unrelated.1 same
          · exact unrelated.2 any
        simp [induction, skip]
      · rename_i related
        have concerns : Concerns deny allow := by
          unfold Concerns
          tauto
        split
        · rename_i covered
          simp [concerns, covered]
        · rename_i uncovered
          split <;> simp [induction, uncovered]

theorem repeated_mem_meetDenies {deny : HostKey} (member : deny ∈ denies)
    (concerns : Concerns deny allow) (holds : l4Holds allow deny)
    (keep : (meetDenies allow denies outDenies).2 = true) :
    { deny with identity := allow.identity } ∈ (meetDenies allow denies outDenies).1 := by
  induction denies generalizing outDenies with
  | nil => cases member
  | cons head denies induction =>
      have uncovered := meetDenies_keep_iff.mp keep
      rcases List.mem_cons.mp member with same | later
      · subst same
        have related : ¬(deny.identity ≠ allow.identity ∧ deny.identity ≠ wildcard) := by
          unfold Concerns at concerns
          tauto
        have notCovered := uncovered deny member concerns
        simp only [meetDenies, if_neg related, notCovered, holds]
        exact mem_meetDenies_of_mem (by simp)
      · simp only [meetDenies] at keep ⊢
        split at keep
        · rename_i unrelated
          rw [if_pos unrelated]
          exact induction later keep
        · rename_i related
          rw [if_neg related]
          split at keep
          · cases keep
          · rename_i notCovered
            rw [if_neg notCovered]
            split at keep
            · rename_i inside
              rw [if_pos inside]
              exact induction later keep
            · rename_i outside
              rw [if_neg outside]
              exact induction later keep

theorem cases_of_mem_meetDenies {key : HostKey}
    (member : key ∈ (meetDenies allow denies outDenies).1) :
    key ∈ outDenies ∨
      ∃ deny ∈ denies, Concerns deny allow ∧ key = { deny with identity := allow.identity } := by
  induction denies generalizing outDenies with
  | nil => exact .inl member
  | cons head denies induction =>
      have later : (∃ deny ∈ denies, Concerns deny allow ∧
          key = { deny with identity := allow.identity }) →
          ∃ deny ∈ head :: denies, Concerns deny allow ∧
            key = { deny with identity := allow.identity } := by
        intro found
        rcases found with ⟨deny, inside, rest⟩
        exact ⟨deny, List.mem_cons_of_mem _ inside, rest⟩
      simp only [meetDenies] at member
      split at member
      · exact (induction member).imp_right later
      · rename_i related
        have concerns : Concerns head allow := by
          unfold Concerns
          tauto
        split at member
        · exact .inl member
        · split at member
          · rcases induction member with inserted | repeated
            · rw [Std.ExtTreeSet.mem_insert] at inserted
              rcases inserted with equal | earlier
              · exact .inr ⟨head, List.mem_cons_self .., concerns,
                  (Std.LawfulEqOrd.eq_of_compare equal).symm⟩
              · exact .inl earlier
            · exact .inr (later repeated)
          · exact (induction member).imp_right later

end MeetDenies

def Uncovered (denies : BTreeSet HostKey) (allow : HostKey) : Prop :=
  ∀ deny ∈ denies, Concerns deny allow → l4Holds deny allow = false

section KeepAllow

variable {denies : BTreeSet HostKey} {allows : List HostKey}
  {state : BTreeSet HostKey × BTreeSet HostKey} {key : HostKey}

theorem mem_foldl_keepAllow_kept :
    key ∈ (allows.foldl (keepAllow denies) state).1 ↔
      key ∈ state.1 ∨ (key ∈ allows ∧ Uncovered denies key) := by
  induction allows generalizing state with
  | nil => simp
  | cons allow allows induction =>
      have uncovered : (meetDenies allow denies.toList state.2).2 = true ↔
          Uncovered denies allow := by
        rw [meetDenies_keep_iff]
        simp [Uncovered]
      rw [List.foldl_cons, induction, keepAllow]
      by_cases keep : Uncovered denies allow
      · rw [if_pos (uncovered.mpr keep), Std.ExtTreeSet.mem_insert, Std.compare_eq_iff_eq,
          List.mem_cons]
        constructor
        · intro found
          rcases found with (same | earlier) | later
          · exact .inr ⟨.inl same.symm, same ▸ keep⟩
          · exact .inl earlier
          · exact .inr ⟨.inr later.1, later.2⟩
        · intro found
          rcases found with earlier | ⟨same | later, isKept⟩
          · exact .inl (.inr earlier)
          · exact .inl (.inl same.symm)
          · exact .inr ⟨later, isKept⟩
      · rw [if_neg (mt uncovered.mp keep), List.mem_cons]
        constructor
        · intro found
          exact found.imp_right fun later => ⟨.inr later.1, later.2⟩
        · intro found
          rcases found with earlier | ⟨same | later, isKept⟩
          · exact .inl earlier
          · exact absurd (same ▸ isKept) keep
          · exact .inr ⟨later, isKept⟩

theorem mem_foldl_keepAllow_denies_of_mem (member : key ∈ state.2) :
    key ∈ (allows.foldl (keepAllow denies) state).2 := by
  induction allows generalizing state with
  | nil => exact member
  | cons allow allows induction => exact induction (mem_meetDenies_of_mem member)

theorem repeated_mem_foldl_keepAllow {allow deny : HostKey} (member : allow ∈ allows)
    (uncovered : Uncovered denies allow) (isDeny : deny ∈ denies)
    (concerns : Concerns deny allow) (holds : l4Holds allow deny) :
    { deny with identity := allow.identity } ∈
      (allows.foldl (keepAllow denies) state).2 := by
  induction allows generalizing state with
  | nil => cases member
  | cons head allows induction =>
      rcases List.mem_cons.mp member with same | later
      · subst same
        have keep : (meetDenies allow denies.toList state.2).2 = true := by
          rw [meetDenies_keep_iff]
          simpa [Uncovered] using uncovered
        rw [List.foldl_cons]
        apply mem_foldl_keepAllow_denies_of_mem
        exact repeated_mem_meetDenies (by simpa using isDeny) concerns holds keep
      · exact induction later

theorem cases_of_mem_foldl_keepAllow (member : key ∈ (allows.foldl (keepAllow denies) state).2) :
    key ∈ state.2 ∨
      ∃ allow ∈ allows, ∃ deny ∈ denies, Concerns deny allow ∧
        key = { deny with identity := allow.identity } := by
  induction allows generalizing state with
  | nil => exact .inl member
  | cons allow allows induction =>
      rcases induction member with met | ⟨later, inside, rest⟩
      · rcases cases_of_mem_meetDenies met with earlier | ⟨deny, isDeny, rest⟩
        · exact .inl earlier
        · exact .inr ⟨allow, List.mem_cons_self .., deny, by simpa using isDeny, rest⟩
      · exact .inr ⟨later, List.mem_cons_of_mem _ inside, rest⟩

end KeepAllow

section DenyOverAllow

variable {allows denies : BTreeSet HostKey} {key : HostKey}

theorem mem_denyOverAllow_kept :
    key ∈ (denyOverAllow allows denies).1 ↔ key ∈ allows ∧ Uncovered denies key := by
  rw [denyOverAllow, mem_foldl_keepAllow_kept]
  simp

theorem mem_denyOverAllow_denies_of_mem (member : key ∈ denies) :
    key ∈ (denyOverAllow allows denies).2 :=
  mem_foldl_keepAllow_denies_of_mem member

/-- A deny inside a kept allow stands at the allow's identity. -/
theorem repeated_mem_denyOverAllow {allow deny : HostKey}
    (kept : allow ∈ (denyOverAllow allows denies).1) (isDeny : deny ∈ denies)
    (concerns : Concerns deny allow) (holds : l4Holds allow deny) :
    { deny with identity := allow.identity } ∈ (denyOverAllow allows denies).2 := by
  rcases mem_denyOverAllow_kept.mp kept with ⟨member, uncovered⟩
  exact repeated_mem_foldl_keepAllow (by simpa using member) uncovered isDeny concerns holds

/-- A rewritten deny is an original one, at its own identity or, from its own or
every identity, at an allow's. -/
theorem cases_of_mem_denyOverAllow (member : key ∈ (denyOverAllow allows denies).2) :
    ∃ deny ∈ denies, Concerns deny key ∧ key = { deny with identity := key.identity } := by
  rcases cases_of_mem_foldl_keepAllow member with original | ⟨allow, _, deny, isDeny, concerns, rfl⟩
  · exact ⟨key, original, .inl rfl, rfl⟩
  · exact ⟨deny, isDeny, concerns, rfl⟩

end DenyOverAllow

/-! ## What a written trie answers -/

/-- A trie key that some lookup of the endpoint and direction meets. -/
def OfDirection (endpoint : U32) (egress : Bool) (bytes : TrieKey) : Prop :=
  ∃ identity protocol port, Trie.covers endpointPolicyFullPrefix
      (policyData endpoint identity (bit egress) protocol port) bytes

/-- A trie none of whose keys concerns the endpoint and direction. -/
def Foreign (policy : Trie PolicyEntry) (endpoint : U32) (egress : Bool) : Prop :=
  ∀ bytes, policy[bytes]? ≠ none → ¬OfDirection endpoint egress bytes

/-- For the endpoint and direction the trie holds these keys and nothing else. -/
def Carries (policy : Trie PolicyEntry) (endpoint : U32) (egress : Bool)
    (allows denies : BTreeSet HostKey) (allowPrecedence : U32) : Prop :=
  ∀ bytes, OfDirection endpoint egress bytes →
    policy[bytes]? =
      (insertAll ∅ (entryPairs endpoint egress allows denies allowPrecedence))[bytes]?

def AllCanonical (keys : BTreeSet HostKey) : Prop := ∀ key ∈ keys, key.Canonical

section Written

variable {endpoint : U32} {egress : Bool} {allowPrecedence : U32} {deny : Bool}
  {keys allows denies : BTreeSet HostKey} {bytes : TrieKey} {value : PolicyEntry}

theorem exists_of_mem_encodedPairs (canonical : AllCanonical keys)
    (member : (bytes, value) ∈ encodedPairs endpoint egress allowPrecedence deny keys) :
    ∃ key ∈ keys, bytes = key.bytes endpoint egress ∧ value.auth = 0 ∧ value.denies = deny ∧
      value.precedence = if deny then hostDenyPrecedence else allowPrecedence := by
  rcases List.mem_filterMap.mp member with ⟨key, inKeys, encoded⟩
  have isKey : key ∈ keys := by simpa using inKeys
  rcases encodeEntry_of_canonical (canonical key isKey) endpoint egress allowPrecedence deny with
    ⟨written, writes, fields⟩
  rw [writes] at encoded
  cases encoded
  exact ⟨key, isKey, rfl, fields⟩

theorem exists_mem_encodedPairs (canonical : AllCanonical keys) {key : HostKey}
    (isKey : key ∈ keys) :
    ∃ value, (key.bytes endpoint egress, value) ∈
      encodedPairs endpoint egress allowPrecedence deny keys := by
  rcases encodeEntry_of_canonical (canonical key isKey) endpoint egress allowPrecedence deny with
    ⟨written, writes, _⟩
  exact ⟨written, List.mem_filterMap.mpr ⟨key, by simpa using isKey, writes⟩⟩

/-- A written value is a deny's, or an allow's that no deny replaced. -/
theorem cases_of_getElem?_entryPairs (allowsCanonical : AllCanonical allows)
    (deniesCanonical : AllCanonical denies) (below : allowPrecedence ≠ maxPrecedence)
    (found : (insertAll ∅ (entryPairs endpoint egress allows denies allowPrecedence))[bytes]? =
      some value) :
    Plain value ∧
      ((value.denies = true ∧ ∃ key ∈ denies, bytes = key.bytes endpoint egress) ∨
        (value.denies = false ∧ (∃ key ∈ allows, bytes = key.bytes endpoint egress) ∧
          ∀ key ∈ denies, bytes ≠ key.bytes endpoint egress)) := by
  rw [entryPairs, insertAll_append] at found
  rcases getElem?_insertAll_eq_some found with denied | ⟨untouched, earlier⟩
  · rcases exists_of_mem_encodedPairs deniesCanonical denied with
      ⟨key, isKey, rfl, auth, isDeny, precedence⟩
    refine ⟨⟨auth, ?_⟩, .inl ⟨isDeny, key, isKey, rfl⟩⟩
    simp [isDeny, precedence, hostDenyPrecedence, maxPrecedence]
  · rcases getElem?_insertAll_eq_some earlier with allowed | ⟨_, absent⟩
    · rcases exists_of_mem_encodedPairs allowsCanonical allowed with
        ⟨key, isKey, rfl, auth, isAllow, precedence⟩
      refine ⟨⟨auth, ?_⟩, .inr ⟨isAllow, ⟨key, isKey, rfl⟩, fun other isDeny same => ?_⟩⟩
      · simp [isAllow, precedence, below]
      · rcases exists_mem_encodedPairs deniesCanonical isDeny with ⟨written, member⟩
        exact untouched _ member same.symm
    · simp at absent

theorem getElem?_entryPairs_ne_none (allowsCanonical : AllCanonical allows)
    (deniesCanonical : AllCanonical denies) {key : HostKey} (isKey : key ∈ allows ∨ key ∈ denies) :
    (insertAll ∅ (entryPairs endpoint egress allows denies allowPrecedence))[
      key.bytes endpoint egress]? ≠ none := by
  intro missing
  have untouched := getElem?_insertAll_eq_none missing
  rcases isKey with isAllow | isDeny
  · rcases exists_mem_encodedPairs allowsCanonical isAllow with ⟨value, member⟩
    exact untouched _ (List.mem_append_left _ member) rfl
  · rcases exists_mem_encodedPairs deniesCanonical isDeny with ⟨value, member⟩
    exact untouched _ (List.mem_append_right _ member) rfl

end Written

section Lookup

variable {policy : Trie PolicyEntry} {endpoint identity : U32} {egress : Bool}
  {allows denies : BTreeSet HostKey} {allowPrecedence : U32} {protocol : U8} {port : U16}

theorem covers_of_matches {key : HostKey} (canonical : key.Canonical)
    (matched : key.l4Matches protocol port) :
    Trie.covers endpointPolicyFullPrefix
      (policyData endpoint key.identity (bit egress) protocol port)
      (key.bytes endpoint egress) :=
  (covers_bytes canonical).mpr ⟨rfl, rfl, rfl, matched⟩

theorem ofDirection_of_matches {key : HostKey} (canonical : key.Canonical)
    (matched : key.l4Matches protocol port) :
    OfDirection endpoint egress (key.bytes endpoint egress) :=
  ⟨key.identity, protocol, port, covers_of_matches canonical matched⟩

section

variable (carries : Carries policy endpoint egress allows denies allowPrecedence)
  (allowsCanonical : AllCanonical allows) (deniesCanonical : AllCanonical denies)

include carries allowsCanonical deniesCanonical

theorem held_of_matches
    {key : HostKey} (isKey : key ∈ allows ∨ key ∈ denies) (matched : key.l4Matches protocol port) :
    ∃ value, policy[key.bytes endpoint egress]? = some value := by
  have canonical : key.Canonical := isKey.elim (allowsCanonical key) (deniesCanonical key)
  apply Option.ne_none_iff_exists'.mp
  rw [carries _ (ofDirection_of_matches canonical matched)]
  exact getElem?_entryPairs_ne_none allowsCanonical deniesCanonical isKey

theorem not_matches_of_lookup_none (missed : Trie.lookup policy endpointPolicyFullPrefix
      (policyData endpoint identity (bit egress) protocol port) = none)
    {key : HostKey} (isKey : key ∈ allows ∨ key ∈ denies) (same : key.identity = identity) :
    ¬key.l4Matches protocol port := by
  intro matched
  have canonical : key.Canonical := isKey.elim (allowsCanonical key) (deniesCanonical key)
  rcases held_of_matches carries allowsCanonical deniesCanonical isKey matched with
    ⟨value, holds⟩
  rw [Trie.lookup, Option.map_eq_none_iff, longest_eq_none_iff] at missed
  have uncovered := missed _ value holds
  subst same
  rw [covers_of_matches canonical matched] at uncovered
  cases uncovered

/-- A hit: a deny of the identity matches, or an allow that is longer than every
matching deny. -/
theorem cases_of_lookup_some (below : allowPrecedence ≠ maxPrecedence) {value : PolicyEntry}
    (found : Trie.lookup policy endpointPolicyFullPrefix
      (policyData endpoint identity (bit egress) protocol port) = some value) :
    Plain value ∧
      ((value.denies = true ∧
          ∃ key ∈ denies, key.identity = identity ∧ key.l4Matches protocol port) ∨
        (value.denies = false ∧
          ∃ key ∈ allows, key.identity = identity ∧ key.l4Matches protocol port ∧
            ∀ deny ∈ denies, deny.identity = identity → deny.l4Matches protocol port →
              deny.length < key.length)) := by
  rw [Trie.lookup, Option.map_eq_some_iff] at found
  rcases found with ⟨⟨bytes, held⟩, best, rfl⟩
  rcases longest_spec best with ⟨holds, covering, longestKey⟩
  have direction : OfDirection endpoint egress bytes := ⟨identity, protocol, port, covering⟩
  rw [carries bytes direction] at holds
  rcases cases_of_getElem?_entryPairs allowsCanonical deniesCanonical below holds with
    ⟨plain, cases⟩
  refine ⟨plain, ?_⟩
  rcases cases with ⟨isDeny, key, member, rfl⟩ | ⟨isAllow, ⟨key, member, rfl⟩, unreplaced⟩
  · rcases (covers_bytes (deniesCanonical key member)).mp covering with ⟨_, same, _, matched⟩
    exact .inl ⟨isDeny, key, member, same, matched⟩
  · have canonical := allowsCanonical key member
    rcases (covers_bytes canonical).mp covering with ⟨_, same, _, matched⟩
    refine .inr ⟨isAllow, key, member, same, matched, fun deny isDeny denySame denyMatches => ?_⟩
    have denyCanonical := deniesCanonical deny isDeny
    rcases held_of_matches carries allowsCanonical deniesCanonical (.inr isDeny) denyMatches with
      ⟨denyValue, denyHolds⟩
    have denyCovers : Trie.covers endpointPolicyFullPrefix
        (policyData endpoint identity (bit egress) protocol port) (deny.bytes endpoint egress) :=
      (covers_bytes denyCanonical).mpr ⟨rfl, denySame, rfl, denyMatches⟩
    have atMost := longestKey _ denyValue denyHolds denyCovers
    simp only [HostKey.bytes, Trie.keyLength_encode, HostKey.toNat_length denyCanonical,
      HostKey.toNat_length canonical] at atMost
    rcases Nat.lt_or_eq_of_le atMost with shorter | equal
    · exact shorter
    · rcases l4_eq_of_length_eq denyCanonical canonical denyMatches matched equal with
        ⟨protocols, ports, prefixes⟩
      have identical : deny = key := by
        cases deny
        cases key
        simp_all
      exact absurd (congrArg (·.bytes endpoint egress) identical).symm (unreplaced deny isDeny)

end

end Lookup

/-! ## The packet's fate -/

def MatchAt (keys : BTreeSet HostKey) (flow : Flow) (identity : U32) : Prop :=
  ∃ key ∈ keys, key.identity = identity ∧ key.l4Matches flow.key.protocol flow.port

section Fate

variable {policy : Trie PolicyEntry} {endpoint : U32} {egress : Bool}
  {allows denies : BTreeSet HostKey} {allowPrecedence : U32} {flow : Flow}

theorem allCanonical_kept (canonical : AllCanonical allows) :
    AllCanonical (denyOverAllow allows denies).1 := fun key member =>
  canonical key (mem_denyOverAllow_kept.mp member).1

theorem allCanonical_denies (canonical : AllCanonical denies) :
    AllCanonical (denyOverAllow allows denies).2 := by
  intro key member
  rcases cases_of_mem_denyOverAllow member with ⟨deny, isDeny, _, equal⟩
  rw [equal]
  exact canonical deny isDeny

/-- An allow kept by the rewriting that beats every rewritten deny of its identity
meets no original deny of its identity or of every identity. -/
theorem not_matches_of_kept (allowsCanonical : AllCanonical allows)
    (deniesCanonical : AllCanonical denies) {key deny : HostKey}
    (kept : key ∈ (denyOverAllow allows denies).1)
    (matched : key.l4Matches flow.key.protocol flow.port)
    (longer : ∀ other ∈ (denyOverAllow allows denies).2, other.identity = key.identity →
      other.l4Matches flow.key.protocol flow.port → other.length < key.length)
    (isDeny : deny ∈ denies) (concerns : Concerns deny key) :
    ¬deny.l4Matches flow.key.protocol flow.port := by
  intro denyMatches
  have keyCanonical := allCanonical_kept allowsCanonical key kept
  have denyCanonical := deniesCanonical deny isDeny
  rcases Nat.le_total deny.length key.length with shorter | atLeast
  · have covered := l4Holds_of_length_le denyCanonical keyCanonical denyMatches matched shorter
    rw [(mem_denyOverAllow_kept.mp kept).2 deny isDeny concerns] at covered
    cases covered
  · have inside := l4Holds_of_length_le keyCanonical denyCanonical matched denyMatches atLeast
    have repeated := repeated_mem_denyOverAllow kept isDeny concerns inside
    have beaten := longer _ repeated rfl denyMatches
    exact absurd atLeast (Nat.not_le.mpr beaten)

theorem exists_deny_of_covered (allowsCanonical : AllCanonical allows)
    (deniesCanonical : AllCanonical denies) {key : HostKey} (isAllow : key ∈ allows)
    (matched : key.l4Matches flow.key.protocol flow.port)
    (covered : key ∉ (denyOverAllow allows denies).1) :
    MatchAt denies flow key.identity ∨ MatchAt denies flow wildcard := by
  have notUncovered : ¬Uncovered denies key := fun uncovered =>
    covered (mem_denyOverAllow_kept.mpr ⟨isAllow, uncovered⟩)
  simp only [Uncovered, not_forall, Bool.not_eq_false] at notUncovered
  rcases notUncovered with ⟨deny, isDeny, concerns, holds⟩
  have denyMatches := l4Matches_of_l4Holds (deniesCanonical deny isDeny)
    (allowsCanonical key isAllow) holds matched
  rcases concerns with same | any
  · exact .inl ⟨deny, isDeny, same, denyMatches⟩
  · exact .inr ⟨deny, isDeny, any, denyMatches⟩

section Answers

variable (carries : Carries policy endpoint egress (denyOverAllow allows denies).1
    (denyOverAllow allows denies).2 allowPrecedence)
  (allowsCanonical : AllCanonical allows) (deniesCanonical : AllCanonical denies)
  (below : allowPrecedence ≠ maxPrecedence)

include carries allowsCanonical deniesCanonical below

theorem plain_of_carries (identity : U32) :
    (entry policy endpoint identity (bit egress) flow).Plain := by
  intro found
  cases looked : Trie.lookup policy endpointPolicyFullPrefix
      (policyData endpoint identity (bit egress) flow.key.protocol flow.port) with
  | none =>
      rw [entry_of_lookup_none looked] at found
      cases found
  | some value =>
      rw [entry_of_lookup_some looked]
      exact (cases_of_lookup_some carries (allCanonical_kept allowsCanonical)
        (allCanonical_denies deniesCanonical) below looked).1

/-- After the rewriting, the answers speak for the original rules. -/
theorem speaksFor_of_carries :
    SpeaksFor (fun identity => (entry policy endpoint identity (bit egress) flow).answer)
      (MatchAt allows flow) (MatchAt denies flow) := by
  have hit := fun identity value => @cases_of_lookup_some policy endpoint identity egress _ _ _
    flow.key.protocol flow.port carries (allCanonical_kept allowsCanonical)
    (allCanonical_denies deniesCanonical) below value
  have answered := fun identity => answer_cases policy endpoint identity (bit egress) flow
  refine ⟨fun identity denied => ?_, fun identity allows => ?_, fun identity misses => ?_⟩
  · rcases answered identity with ⟨_, missed⟩ | ⟨value, looked, verdict⟩
    · rw [missed] at denied
      cases denied
    · rcases (hit identity value looked).2 with ⟨_, key, isDeny, same, matched⟩ | ⟨isAllow, _⟩
      · rcases cases_of_mem_denyOverAllow isDeny with ⟨deny, original, concerns, equal⟩
        rw [equal] at matched
        rcases concerns with here | any
        · exact .inl ⟨deny, original, here.trans same, matched⟩
        · exact .inr ⟨deny, original, any, matched⟩
      · rw [verdict, isAllow] at denied
        cases denied
  · rcases answered identity with ⟨_, missed⟩ | ⟨value, looked, verdict⟩
    · rw [missed] at allows
      cases allows
    · rcases (hit identity value looked).2 with
        ⟨isDeny, _⟩ | ⟨_, key, kept, same, matched, longer⟩
      · rw [verdict, isDeny] at allows
        cases allows
      · subst same
        have undenied := fun deny isDeny concerns => @not_matches_of_kept _ _ flow
          allowsCanonical deniesCanonical key deny kept matched longer isDeny concerns
        refine ⟨⟨key, (mem_denyOverAllow_kept.mp kept).1, rfl, matched⟩, ?_, ?_⟩
        · intro denied
          rcases denied with ⟨deny, isDeny, here, denyMatches⟩
          exact undenied deny isDeny (.inl here) denyMatches
        · intro denied
          rcases denied with ⟨deny, isDeny, any, denyMatches⟩
          exact undenied deny isDeny (.inr any) denyMatches
  · rcases answered identity with ⟨missed, _⟩ | ⟨value, looked, verdict⟩
    · have unmatched := fun key isKey same => @not_matches_of_lookup_none policy endpoint identity
        egress _ _ _ flow.key.protocol flow.port carries (allCanonical_kept allowsCanonical)
        (allCanonical_denies deniesCanonical) missed key isKey same
      have undenied : ¬MatchAt denies flow identity := by
        intro denied
        rcases denied with ⟨deny, isDeny, here, matched⟩
        exact unmatched deny (.inr (mem_denyOverAllow_denies_of_mem isDeny)) here matched
      refine ⟨undenied, fun allowed => ?_⟩
      rcases allowed with ⟨key, isAllow, here, matched⟩
      have covered : key ∉ (denyOverAllow allows denies).1 := fun kept =>
        unmatched key (.inl kept) here matched
      have denied := exists_deny_of_covered allowsCanonical deniesCanonical isAllow matched covered
      rw [here] at denied
      exact denied.resolve_left undenied
    · rw [verdict] at misses
      split at misses <;> cases misses

/-- The datapath lets a packet through exactly when an allow matches it at one of
the identities it consults and no deny does. -/
theorem allowed_iff_of_carries (clusterId remote : U32) :
    allowed clusterId policy endpoint remote (bit egress) flow ↔
      (∃ identity, Consulted clusterId remote identity ∧ MatchAt allows flow identity) ∧
        ¬∃ identity, Consulted clusterId remote identity ∧ MatchAt denies flow identity := by
  rw [allowed_eq_settle (plain_of_carries carries allowsCanonical deniesCanonical below),
    settle_iff (speaksFor_of_carries carries allowsCanonical deniesCanonical below),
    exists_consulted, exists_consulted]

end Answers

end Fate

/-! ## End to end -/

theorem carries_writeEntries {entries : Trie PolicyEntry} {endpoint : U32} {egress : Bool}
    (foreign : Foreign entries endpoint egress) (allows denies : BTreeSet HostKey)
    (allowPrecedence : U32) :
    Carries (writeEntries entries endpoint egress allows denies allowPrecedence).1
      endpoint egress allows denies allowPrecedence := by
  intro bytes direction
  have absent : entries[bytes]? = none := by
    by_contra present
    exact foreign bytes present direction
  rw [writeEntries_entries]
  exact getElem?_insertAll_congr (by rw [absent]; simp)

theorem exists_consulted_matchAt {clusterId remote : U32} {keys : BTreeSet HostKey} {flow : Flow} :
    (∃ identity, Consulted clusterId remote identity ∧ MatchAt keys flow identity) ↔
      ∃ key ∈ keys, Consulted clusterId remote key.identity ∧
        key.l4Matches flow.key.protocol flow.port := by
  constructor
  · intro found
    rcases found with ⟨identity, consulted, key, member, rfl, matched⟩
    exact ⟨key, member, consulted, matched⟩
  · intro found
    rcases found with ⟨key, member, consulted, matched⟩
    exact ⟨key.identity, consulted, key, member, rfl, matched⟩

theorem below_maxPrecedence {precedence : U32}
    (used : precedence = allowPrecedence ∨ precedence = hostAllowPrecedence) :
    precedence ≠ maxPrecedence := by
  rcases used with rfl | rfl <;> decide

/-- Deny wins end to end: whatever the trie holds for others, a packet passes exactly
when a written allow matches it at its identity, its aggregate or the wildcard, and
no written deny does. -/
theorem allowed_writeEntries_denyOverAllow_iff {entries : Trie PolicyEntry} {endpoint : U32}
    {egress : Bool} {allows denies : BTreeSet HostKey} {precedence : U32}
    (allowsProduced : ∀ key ∈ allows, ∃ identity protocol range,
      key ∈ l4Keys identity protocol range)
    (deniesProduced : ∀ key ∈ denies, ∃ identity protocol range,
      key ∈ l4Keys identity protocol range)
    (used : precedence = allowPrecedence ∨ precedence = hostAllowPrecedence)
    (foreign : Foreign entries endpoint egress) (clusterId remote : U32) (flow : Flow) :
    allowed clusterId (writeEntries entries endpoint egress (denyOverAllow allows denies).1
          (denyOverAllow allows denies).2 precedence).1
        endpoint remote (bit egress) flow ↔
      (∃ key ∈ allows, Consulted clusterId remote key.identity ∧
          key.l4Matches flow.key.protocol flow.port) ∧
        ¬∃ key ∈ denies, Consulted clusterId remote key.identity ∧
          key.l4Matches flow.key.protocol flow.port := by
  have canonical : ∀ keys : BTreeSet HostKey,
      (∀ key ∈ keys, ∃ identity protocol range, key ∈ l4Keys identity protocol range) →
        AllCanonical keys := by
    intro keys produced key member
    rcases produced key member with ⟨identity, protocol, range, inside⟩
    exact canonical_of_mem_l4Keys inside
  rw [allowed_iff_of_carries (carries_writeEntries foreign _ _ precedence)
    (canonical allows allowsProduced) (canonical denies deniesProduced)
    (below_maxPrecedence used), exists_consulted_matchAt, exists_consulted_matchAt]

/-- TCP from everyone, except SSH from identity 300: endpoint 7 refuses its SSH. -/
theorem not_allowed_ssh :
    ¬allowed 0 (writeEntries ∅ 7 false (denyOverAllow (collect (l4Keys wildcard 6 .any))
          (collect (l4Keys 300 6 ⟨22, 22, by decide⟩))).1
        (denyOverAllow (collect (l4Keys wildcard 6 .any))
          (collect (l4Keys 300 6 ⟨22, 22, by decide⟩))).2 allowPrecedence).1
      7 300 (bit false) { key := { protocol := 6 }, port := 22 } := by
  rw [allowed_writeEntries_denyOverAllow_iff _ _ (.inl rfl)]
  · intro passes
    exact passes.2 ⟨⟨300, 6, 22, 16⟩, by decide, .inl rfl, by decide⟩
  · intro bytes present
    simp at present
  · intro key member
    exact ⟨_, _, _, mem_collect.mp member⟩
  · intro key member
    exact ⟨_, _, _, mem_collect.mp member⟩

end FlowSdn.Agent
