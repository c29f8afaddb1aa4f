import FlowSdn.Foundation.FiniteMap
import FlowSdn.Policy.Ports

/-! # Named-port contributions

What the selectors have resolved named ports to, merged into one mapping that is rebuilt
from all of them whenever one changes, and the changes that bring a mirror of the mapping
up to date.
-/

namespace FlowSdn.Policy.NamedPorts

open OrderedMap

structure Key where
  identity : U32
  protocol : U8
  port : U16
  deriving DecidableEq

namespace Key

instance : Ord Key where
  compare := compareLex (compareOn identity) (compareLex (compareOn protocol) (compareOn port))

instance : Std.TransOrd Key := inferInstanceAs (Std.TransCmp (compareLex _ _))

instance : Std.LawfulEqOrd Key where
  eq_of_compare {left right} equal := by
    cases left
    cases right
    simp_all [compare]

end Key

structure Contribution where
  key : Key
  precedence : U32
  deriving DecidableEq

structure NamedPortState where
  selectors : BTreeMap String (List Contribution) := ∅
  desired : BTreeMap Key U32 := ∅

structure Changes where
  upserts : BTreeMap Key U32 := ∅
  deletes : List Key := []

def greater (left right : U32) : U32 := if left < right then right else left

def merge (desired : BTreeMap Key U32) (contribution : Contribution) : BTreeMap Key U32 :=
  desired.insert contribution.key ((desired[contribution.key]?).elim contribution.precedence
      (greater · contribution.precedence))

def merged (contributions : List Contribution) : BTreeMap Key U32 := contributions.foldl merge ∅

namespace NamedPortState

def replace (state : NamedPortState) (selector : String) (contributions : List Contribution) :
    Except Error Changes × NamedPortState :=
  if selector = "" then (.error .invalidName, state)
  else if contributions.any fun contribution => contribution.key.protocol = 0 ||
      contribution.key.port = 0 || contribution.key.identity = 0 then
    (.error .invalidProtocol, state)
  else
    let selectors := relist state.selectors selector contributions
    let desired := merged selectors.values.flatten
    (.ok { upserts := insertAll ∅ (changed state.desired desired)
           deletes := stale state.desired desired },
      { selectors, desired })

end NamedPortState

def Changes.apply (changes : Changes) (mirror : BTreeMap Key U32) : BTreeMap Key U32 :=
  applyAll (insertAll mirror changes.upserts.toList) (changes.deletes.map .remove)

/-! ## The merged mapping -/

theorem le_greater (left right : U32) :
    left ≤ greater left right ∧ right ≤ greater left right ∧
      (greater left right = left ∨ greater left right = right) := by
  unfold greater
  split
  · rename_i less
    refine ⟨?_, BitVec.le_refl right, .inr rfl⟩
    rw [BitVec.lt_def] at less
    rw [BitVec.le_def]
    omega
  · rename_i more
    refine ⟨BitVec.le_refl left, ?_, .inl rfl⟩
    rw [BitVec.lt_def] at more
    rw [BitVec.le_def]
    omega

theorem getElem?_merge_self (desired : BTreeMap Key U32) (contribution : Contribution) :
    (merge desired contribution)[contribution.key]? =
      some ((desired[contribution.key]?).elim contribution.precedence
        (greater · contribution.precedence)) :=
  Std.ExtTreeMap.getElem?_insert_self

variable {key : Key} {desired : BTreeMap Key U32} {precedence : U32}
  {contributions : List Contribution}

theorem getElem?_merge_of_ne (desired : BTreeMap Key U32) {contribution : Contribution}
    (different : contribution.key ≠ key) : (merge desired contribution)[key]? = desired[key]? :=
  getElem?_insert_of_ne different

/-- A value of the mapping is a contribution's, and none is greater. -/
structure Leads (desired : BTreeMap Key U32) (contributions : List Contribution) (key : Key)
    (precedence : U32) : Prop where
  held : desired[key]? = some precedence ∨ ⟨key, precedence⟩ ∈ contributions
  above : ∀ value, desired[key]? = some value → value ≤ precedence
  greatest : ∀ value, ⟨key, value⟩ ∈ contributions → value ≤ precedence

theorem leads_of_merge {first : Contribution} {rest : List Contribution}
    (leads : Leads (merge desired first) rest key precedence) :
    Leads desired (first :: rest) key precedence := by
  by_cases same : first.key = key
  · subst same
    have value := getElem?_merge_self desired first
    have above := leads.above _ value
    refine ⟨?_, fun old found => ?_, fun other member => ?_⟩
    · rcases leads.held with found | member
      · rw [value, Option.some.injEq] at found
        cases old : desired[first.key]? with
        | none =>
            rw [old] at found
            exact .inr (found ▸ List.mem_cons_self)
        | some earlier =>
            rw [old, Option.elim_some] at found
            rcases (le_greater earlier first.precedence).2.2 with left | right
            · exact .inl (congrArg some (left.symm.trans found))
            · exact .inr (right.symm.trans found ▸ List.mem_cons_self)
      · exact .inr (List.mem_cons_of_mem _ member)
    · rw [found, Option.elim_some] at above
      exact BitVec.le_trans (le_greater old first.precedence).1 above
    · rcases List.mem_cons.mp member with same | later
      · rw [← congrArg Contribution.precedence same] at above
        cases old : desired[first.key]? with
        | none =>
            rw [old, Option.elim_none] at above
            exact above
        | some earlier =>
            rw [old, Option.elim_some] at above
            exact BitVec.le_trans (le_greater earlier _).2.1 above
      · exact leads.greatest other later
  · have value := getElem?_merge_of_ne desired same
    refine ⟨?_, fun old found => leads.above old (value.trans found), fun other member => ?_⟩
    · rcases leads.held with found | member
      · exact .inl (value.symm.trans found)
      · exact .inr (List.mem_cons_of_mem _ member)
    · rcases List.mem_cons.mp member with rfl | later
      · exact absurd rfl same
      · exact leads.greatest other later

theorem leads_foldl (found : (contributions.foldl merge desired)[key]? = some precedence) :
    Leads desired contributions key precedence := by
  induction contributions generalizing desired with
  | nil =>
      refine ⟨.inl found, fun value held => ?_,
        fun _ member => absurd member List.not_mem_nil⟩
      rw [List.foldl_nil, held, Option.some.injEq] at found
      exact found ▸ BitVec.le_refl value
  | cons first rest induction => exact leads_of_merge (induction found)

theorem foldl_merge_ne_none
    (present : desired[key]? ≠ none ∨ ∃ value, ⟨key, value⟩ ∈ contributions) :
    (contributions.foldl merge desired)[key]? ≠ none := by
  induction contributions generalizing desired with
  | nil =>
      rcases present with held | ⟨value, member⟩
      · exact held
      · cases member
  | cons first rest induction =>
      apply induction
      by_cases same : first.key = key
      · subst same
        rw [getElem?_merge_self]
        exact .inl (Option.some_ne_none _)
      · rw [getElem?_merge_of_ne desired same]
        rcases present with held | ⟨value, member⟩
        · exact .inl held
        · rcases List.mem_cons.mp member with rfl | later
          · exact absurd rfl same
          · exact .inr ⟨value, later⟩

theorem getElem?_merged :
    (merged contributions)[key]? = some precedence ↔
      ⟨key, precedence⟩ ∈ contributions ∧
        ∀ value, ⟨key, value⟩ ∈ contributions → value ≤ precedence := by
  constructor
  · intro found
    have leads := leads_foldl found
    refine ⟨?_, leads.greatest⟩
    rcases leads.held with absent | member
    · simp at absent
    · exact member
  · rintro ⟨member, greatest⟩
    have present : (merged contributions)[key]? ≠ none :=
      foldl_merge_ne_none (.inr ⟨precedence, member⟩)
    rcases Option.ne_none_iff_exists'.mp present with ⟨value, found⟩
    have leads := leads_foldl found
    have below : value ≤ precedence := by
      rcases leads.held with absent | contributed
      · simp at absent
      · exact greatest value contributed
    rw [found, BitVec.le_antisymm below (leads.greatest precedence member)]

/-! ## Runs -/

structure Call where
  selector : String
  contributions : List Contribution
  deriving DecidableEq

def Call.accepted (call : Call) : Bool :=
  call.selector ≠ "" && !call.contributions.any fun contribution =>
    contribution.key.protocol = 0 || contribution.key.port = 0 || contribution.key.identity = 0

/-- The state with a mirror that makes the changes it is told. -/
structure Mirrored where
  state : NamedPortState := {}
  mirror : BTreeMap Key U32 := ∅

def Mirrored.follow (mirrored : Mirrored) (call : Call) : Mirrored :=
  match mirrored.state.replace call.selector call.contributions with
  | (.ok changes, state) => { state, mirror := changes.apply mirrored.mirror }
  | (.error _, state) => { mirrored with state }

def Mirrored.followAll (calls : List Call) : Mirrored := calls.foldl Mirrored.follow {}

def last (calls : List Call) (selector : String) : List Contribution :=
  ((calls.filter Call.accepted).reverse.find? (·.selector = selector)).elim [] Call.contributions

theorem last_snoc (calls : List Call) (call : Call) (selector : String) :
    last (calls ++ [call]) selector =
      if call.accepted ∧ call.selector = selector then call.contributions
      else last calls selector := by
  unfold last
  rw [List.filter_append]
  by_cases accepted : call.accepted
  · by_cases same : call.selector = selector
    · simp [accepted, same]
    · simp [accepted, same]
  · simp [accepted]

theorem replace_of_accepted (state : NamedPortState) {call : Call}
    (accepted : call.accepted = true) :
    state.replace call.selector call.contributions =
      (let selectors := relist state.selectors call.selector call.contributions
       let desired := merged selectors.values.flatten
       (.ok { upserts := insertAll ∅ (changed state.desired desired)
              deletes := stale state.desired desired },
         { selectors, desired })) := by
  simp only [Call.accepted, Bool.and_eq_true, decide_eq_true_eq, Bool.not_eq_true'] at accepted
  rw [NamedPortState.replace, if_neg accepted.1, if_neg (Bool.eq_false_iff.mp accepted.2)]

theorem replace_of_refused (state : NamedPortState) {call : Call}
    (refused : call.accepted = false) :
    ∃ error, state.replace call.selector call.contributions = (.error error, state) := by
  unfold NamedPortState.replace
  split
  · exact ⟨_, rfl⟩
  · rename_i named
    split
    · exact ⟨_, rfl⟩
    · rename_i valid
      rw [Call.accepted, Bool.eq_false_iff.mpr valid] at refused
      simp [named] at refused

/-- After some calls: every selector is stored as it was last given, the mapping is merged
from what is stored, and the mirror has followed it. -/
structure Tracks (calls : List Call) (mirrored : Mirrored) : Prop where
  last : ∀ selector, listed mirrored.state.selectors selector = last calls selector
  merged : mirrored.state.desired = merged mirrored.state.selectors.values.flatten
  mirror : mirrored.mirror = mirrored.state.desired

theorem Tracks.follow {calls : List Call} {mirrored : Mirrored} (tracks : Tracks calls mirrored)
    (call : Call) : Tracks (calls ++ [call]) (mirrored.follow call) := by
  cases accepted : call.accepted with
  | false =>
      rcases replace_of_refused mirrored.state accepted with ⟨error, refused⟩
      have same : mirrored.follow call = mirrored := by
        rw [Mirrored.follow, refused]
      rw [same]
      refine ⟨fun selector => ?_, tracks.merged, tracks.mirror⟩
      rw [last_snoc, if_neg (by simp [accepted])]
      exact tracks.last selector
  | true =>
      unfold Mirrored.follow
      rw [replace_of_accepted mirrored.state accepted]
      refine ⟨fun selector => ?_, rfl, ?_⟩
      · rw [listed_relist, last_snoc]
        by_cases same : call.selector = selector
        · rw [if_pos same, if_pos ⟨accepted, same⟩]
        · rw [if_neg same, if_neg fun both => same both.2]
          exact tracks.last selector
      · change Changes.apply _ mirrored.mirror = _
        rw [tracks.mirror]
        exact applyAll_collected

theorem tracks_followAll (calls : List Call) : Tracks calls (Mirrored.followAll calls) := by
  induction calls using List.reverseRecOn with
  | nil =>
      refine ⟨fun selector => ?_, ?_, rfl⟩
      · simp [listed, Mirrored.followAll, last]
      · have empty : (∅ : BTreeMap String (List Contribution)).values = [] := rfl
        simp [Mirrored.followAll, merged, empty]
  | append_singleton calls call induction =>
      rw [Mirrored.followAll, List.foldl_append]
      exact induction.follow call

theorem desired_iff (calls : List Call) :
    (Mirrored.followAll calls).state.desired[key]? = some precedence ↔
      (∃ selector, ⟨key, precedence⟩ ∈ last calls selector) ∧
        ∀ value, (∃ selector, ⟨key, value⟩ ∈ last calls selector) → value ≤ precedence := by
  have tracks := tracks_followAll calls
  rw [tracks.merged, getElem?_merged]
  simp only [mem_flatten_values, tracks.last]

/-- After any calls the mirror is the mapping; this has for each key the greatest of what the
selectors were last given, so that other calls which leave the selectors with the same
contributions, in any order, give the same mapping; and a call that is refused changes
neither the state nor the mirror. -/
theorem mirror_tracks_desired (calls : List Call) :
    (Mirrored.followAll calls).mirror = (Mirrored.followAll calls).state.desired ∧
    (∀ key precedence, (Mirrored.followAll calls).state.desired[key]? = some precedence ↔
      (∃ selector, ⟨key, precedence⟩ ∈ last calls selector) ∧
        ∀ value, (∃ selector, ⟨key, value⟩ ∈ last calls selector) → value ≤ precedence) ∧
    (∀ others, (∀ selector, (last calls selector).Perm (last others selector)) →
      (Mirrored.followAll others).state.desired = (Mirrored.followAll calls).state.desired) ∧
    ∀ call error,
      ((Mirrored.followAll calls).state.replace call.selector call.contributions).1 = .error error →
      ((Mirrored.followAll calls).state.replace call.selector call.contributions).2 =
        (Mirrored.followAll calls).state ∧
      Mirrored.followAll (calls ++ [call]) = Mirrored.followAll calls := by
  refine ⟨(tracks_followAll calls).mirror, fun key precedence => desired_iff calls, ?_, ?_⟩
  · intro others same
    apply Std.ExtTreeMap.ext_getElem?
    intro key
    apply Option.ext
    intro precedence
    have equal : ∀ contribution : Contribution, (∃ selector, contribution ∈ last others selector) ↔
        ∃ selector, contribution ∈ last calls selector :=
      fun contribution => exists_congr fun selector => (same selector).mem_iff.symm
    rw [desired_iff, desired_iff, equal]
    simp only [equal]
  · intro call error failed
    cases accepted : call.accepted with
    | true =>
        rw [replace_of_accepted _ accepted] at failed
        cases failed
    | false =>
        rcases replace_of_refused (Mirrored.followAll calls).state accepted with ⟨found, refused⟩
        rw [refused]
        refine ⟨rfl, ?_⟩
        rw [Mirrored.followAll, List.foldl_append]
        change (Mirrored.followAll calls).follow call = Mirrored.followAll calls
        rw [Mirrored.follow, refused]

/-- A contribution that is withdrawn leaves what another selector contributes. -/
example : (Mirrored.followAll [⟨"a", [⟨⟨123, 6, 443⟩, 10⟩]⟩, ⟨"b", [⟨⟨123, 6, 443⟩, 20⟩]⟩,
    ⟨"b", []⟩, ⟨"", [⟨⟨123, 6, 443⟩, 30⟩]⟩]).mirror.toList = [(⟨123, 6, 443⟩, 10)] := by
  decide +kernel

end FlowSdn.Policy.NamedPorts
