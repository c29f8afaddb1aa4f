import Mathlib

/-! # Ordered maps and their reconciliation

The source's `BTreeMap` and `BTreeSet` are the standard library's extensional tree maps and sets.
Over them: inserting a list of pairs, and the difference of two maps.
-/

namespace FlowSdn

abbrev BTreeMap (κ : Type u) (ν : Type v) [Ord κ] := Std.ExtTreeMap κ ν compare
abbrev BTreeSet (κ : Type u) [Ord κ] := Std.ExtTreeSet κ compare

/-! The orders of the commonest keys have names, so that a definition over such a map holds no
proof of its own. -/

instance transOrdWord16 : Std.TransOrd (BitVec 16) := inferInstance

instance transOrdWord32 : Std.TransOrd (BitVec 32) := inferInstance

instance transOrdBytes : Std.TransOrd (List (BitVec 8)) := inferInstance

namespace OrderedMap

@[simp] theorem compareOn_eq_iff [Ord β] [Std.LawfulEqOrd β] {field : α → β} {left right : α} :
    compareOn field left right = .eq ↔ field left = field right :=
  Std.compare_eq_iff_eq

variable {κ : Type u} {ν : Type v} [Ord κ] [Std.TransOrd κ]

variable {key : κ} {map : BTreeMap κ ν} {value : ν} {elements : List κ} {pairs : List (κ × ν)}

theorem mem_of_getElem? (found : map[key]? = some value) : key ∈ map :=
  Std.ExtTreeMap.mem_iff_isSome_getElem?.mpr (by rw [found]; rfl)

theorem exists_of_mem (member : key ∈ map) :
    ∃ value, map[key]? = some value :=
  Option.isSome_iff_exists.mp (Std.ExtTreeMap.mem_iff_isSome_getElem?.mp member)

def insertAll (map : BTreeMap κ ν) (pairs : List (κ × ν)) : BTreeMap κ ν :=
  pairs.foldl (fun map pair => map.insert pair.1 pair.2) map

@[simp] theorem insertAll_nil (map : BTreeMap κ ν) : insertAll map [] = map := rfl

@[simp] theorem insertAll_cons (map : BTreeMap κ ν) (pair : κ × ν) (pairs : List (κ × ν)) :
    insertAll map (pair :: pairs) = insertAll (map.insert pair.1 pair.2) pairs := rfl

theorem insertAll_append (map : BTreeMap κ ν) (first second : List (κ × ν)) :
    insertAll map (first ++ second) = insertAll (insertAll map first) second := by
  simp [insertAll, List.foldl_append]

def insertNew (map : BTreeMap κ ν) (pairs : List (κ × ν)) : BTreeMap κ ν :=
  pairs.foldl (fun map pair => map.insertIfNew pair.1 pair.2) map

theorem insertNew_cons (map : BTreeMap κ ν) (pair : κ × ν) (pairs : List (κ × ν)) :
    insertNew map (pair :: pairs) = insertNew (map.insertIfNew pair.1 pair.2) pairs := rfl

def extend (set : BTreeSet κ) (elements : List κ) : BTreeSet κ :=
  elements.foldl (fun set element => set.insert element) set

def collect (elements : List κ) : BTreeSet κ := extend ∅ elements

theorem mem_extend [Std.LawfulEqOrd κ] {set : BTreeSet κ} {element : κ} :
    element ∈ extend set elements ↔ element ∈ set ∨ element ∈ elements := by
  induction elements generalizing set with
  | nil => simp [extend]
  | cons head elements induction =>
      have step : extend set (head :: elements) = extend (set.insert head) elements := rfl
      rw [step, induction, Std.ExtTreeSet.mem_insert, Std.compare_eq_iff_eq, List.mem_cons]
      tauto

@[simp] theorem mem_collect [Std.LawfulEqOrd κ] {element : κ} :
    element ∈ collect elements ↔ element ∈ elements := by
  simp [collect, mem_extend]

theorem nodup_of_size_collect [Std.LawfulEqOrd κ]
    (size : (collect elements).size = elements.length) : elements.Nodup := by
  have distinct : (collect elements).toList.Nodup := by
    refine Std.ExtTreeSet.distinct_toList.imp ?_
    intro left right different same
    subst same
    exact different Std.ReflCmp.compare_self
  have inside : (collect elements).toList ⊆ elements := by
    intro element member
    simpa using member
  have length : elements.length ≤ (collect elements).toList.length := by
    rw [Std.ExtTreeSet.length_toList, size]
  exact ((distinct.subperm inside).perm_of_length_le length).nodup_iff.mp distinct

/-- One write to a map. -/
inductive Update (κ : Type u) (ν : Type v)
  | upsert (key : κ) (value : ν)
  | remove (key : κ)
  deriving DecidableEq

def Update.apply (map : BTreeMap κ ν) : Update κ ν → BTreeMap κ ν
  | .upsert key value => map.insert key value
  | .remove key => map.erase key

def applyAll (map : BTreeMap κ ν) (updates : List (Update κ ν)) : BTreeMap κ ν :=
  updates.foldl Update.apply map

def changed [DecidableEq ν] (current desired : BTreeMap κ ν) : List (κ × ν) :=
  desired.toList.filter fun pair => current[pair.1]? ≠ some pair.2

def stale (current desired : BTreeMap κ ν) : List κ :=
  current.keys.filter fun key => !desired.contains key

theorem mem_stale {current desired : BTreeMap κ ν} [Std.LawfulEqOrd κ] :
    key ∈ stale current desired ↔ current[key]? ≠ none ∧ desired[key]? = none := by
  simp [stale, ← Std.ExtTreeMap.isSome_getElem?_eq_contains]

/-! ## Values after writes -/

variable [Std.LawfulEqOrd κ]

theorem getElem?_insert_of_ne {other : κ}
    (different : other ≠ key) : (map.insert other value)[key]? = map[key]? := by
  have distinct : compare other key ≠ .eq := fun equal =>
    different (Std.LawfulEqOrd.eq_of_compare equal)
  simp [Std.ExtTreeMap.getElem?_insert, distinct]

theorem getElem?_erase_of_ne {other : κ} (different : other ≠ key) :
    (map.erase other)[key]? = map[key]? := by
  have distinct : compare other key ≠ .eq := fun equal =>
    different (Std.LawfulEqOrd.eq_of_compare equal)
  simp [Std.ExtTreeMap.getElem?_erase, distinct]

theorem getElem?_insert_eq_some_iff {other : κ} {new : ν} :
    (map.insert other new)[key]? = some value ↔
      other = key ∧ new = value ∨ other ≠ key ∧ map[key]? = some value := by
  by_cases same : other = key
  · simp [same]
  · simp [getElem?_insert_of_ne same, same]

theorem getElem?_erase_eq_some_iff {other : κ} :
    (map.erase other)[key]? = some value ↔ other ≠ key ∧ map[key]? = some value := by
  by_cases same : other = key
  · simp [same]
  · simp [getElem?_erase_of_ne same, same]

theorem getElem?_insertAll_of_not_mem (absent : ∀ pair, pair ∈ pairs → pair.1 ≠ key) :
    (insertAll map pairs)[key]? = map[key]? := by
  induction pairs generalizing map with
  | nil => rfl
  | cons pair pairs induction =>
      rw [insertAll_cons, induction fun other member =>
        absent other (List.mem_cons_of_mem _ member)]
      exact getElem?_insert_of_ne (absent pair (List.mem_cons_self ..))

/-- A value after inserting is one of the pairs', or the old one of an untouched key. -/
theorem getElem?_insertAll_eq_some (found : (insertAll map pairs)[key]? = some value) :
    (key, value) ∈ pairs ∨ (∀ pair, pair ∈ pairs → pair.1 ≠ key) ∧ map[key]? = some value := by
  induction pairs generalizing map with
  | nil => exact .inr ⟨by simp, found⟩
  | cons pair pairs induction =>
      rcases induction found with member | ⟨untouched, earlier⟩
      · exact .inl (List.mem_cons_of_mem _ member)
      · by_cases same : pair.1 = key
        · subst same
          have equal : pair.2 = value := by
            simpa [Std.ExtTreeMap.getElem?_insert_self] using earlier
          exact .inl (by simp [← equal])
        · rw [getElem?_insert_of_ne same] at earlier
          exact .inr ⟨by simpa [same] using untouched, earlier⟩

theorem getElem?_insertAll_eq_none
    (missing : (insertAll map pairs)[key]? = none) : ∀ pair, pair ∈ pairs → pair.1 ≠ key := by
  induction pairs generalizing map with
  | nil => simp
  | cons head pairs induction =>
      have untouched := induction missing
      rw [insertAll_cons, getElem?_insertAll_of_not_mem untouched] at missing
      have different : head.1 ≠ key := by
        intro same
        subst same
        rw [Std.ExtTreeMap.getElem?_insert_self] at missing
        cases missing
      simpa [different] using untouched

omit [Std.LawfulEqOrd κ] in
theorem getElem?_insertAll_congr {other : BTreeMap κ ν} (same : map[key]? = other[key]?) :
    (insertAll map pairs)[key]? = (insertAll other pairs)[key]? := by
  induction pairs generalizing map other with
  | nil => exact same
  | cons pair pairs induction =>
      apply induction
      simp [Std.ExtTreeMap.getElem?_insert, same]

theorem getElem?_insertAll_middle {before after : List (κ × ν)}
    (fresh : ∀ pair ∈ before, pair.1 ≠ key) (untouched : ∀ pair ∈ after, pair.1 ≠ key) :
    (insertAll (∅ : BTreeMap κ ν) (before ++ pairs ++ after))[key]? =
      (insertAll (∅ : BTreeMap κ ν) pairs)[key]? := by
  rw [insertAll_append, getElem?_insertAll_of_not_mem untouched, insertAll_append]
  exact getElem?_insertAll_congr (getElem?_insertAll_of_not_mem fresh)

theorem getElem?_insertAll_of_mem (member : (key, value) ∈ pairs)
    (unique : ∀ other, (key, other) ∈ pairs → other = value) :
    (insertAll map pairs)[key]? = some value := by
  induction pairs generalizing map with
  | nil => cases member
  | cons pair pairs induction =>
      by_cases later : (key, value) ∈ pairs
      · exact induction later fun other inside => unique other (List.mem_cons_of_mem _ inside)
      · have here : (key, value) = pair := by
          rcases List.mem_cons.mp member with equal | inside
          · exact equal
          · exact absurd inside later
        subst here
        have fresh : ∀ other, other ∈ pairs → other.1 ≠ key := by
          rintro ⟨otherKey, otherValue⟩ inside rfl
          have equal := unique otherValue (List.mem_cons_of_mem _ inside)
          exact later (equal ▸ inside)
        rw [insertAll_cons, getElem?_insertAll_of_not_mem fresh]
        exact Std.ExtTreeMap.getElem?_insert_self

theorem getElem?_insertIfNew_cases (map : BTreeMap κ ν) (key other : κ) (value : ν) :
    (map.insertIfNew key value)[other]? = map[other]? ∧ (key = other → map[other]? ≠ none) ∨
      key = other ∧ map[other]? = none ∧ (map.insertIfNew key value)[other]? = some value := by
  rw [Std.ExtTreeMap.getElem?_insertIfNew]
  by_cases new : compare key other = .eq ∧ ¬key ∈ map
  · have same := Std.LawfulEqOrd.eq_of_compare new.1
    subst same
    rw [if_pos new]
    exact .inr ⟨rfl, Std.ExtTreeMap.getElem?_eq_none new.2, rfl⟩
  · rw [if_neg new]
    refine .inl ⟨rfl, fun same missing => new ?_⟩
    subst same
    exact ⟨Std.ReflCmp.compare_self, fun held => by
      rw [Std.ExtTreeMap.mem_iff_isSome_getElem?, missing] at held
      cases held⟩

theorem getElem?_insertNew_eq_some (found : (insertNew map pairs)[key]? = some value) :
    map[key]? = some value ∨ map[key]? = none ∧ (key, value) ∈ pairs := by
  induction pairs generalizing map with
  | nil => exact .inl found
  | cons pair pairs induction =>
      rw [insertNew_cons] at found
      rcases getElem?_insertIfNew_cases map pair.1 key pair.2 with ⟨same, _⟩ | ⟨here, new, holds⟩
      · rcases induction found with held | ⟨missing, member⟩
        · exact .inl (same ▸ held)
        · exact .inr ⟨same ▸ missing, List.mem_cons_of_mem _ member⟩
      · rcases induction found with held | ⟨missing, _⟩
        · rw [holds, Option.some.injEq] at held
          subst here held
          exact .inr ⟨new, List.mem_cons_self ..⟩
        · rw [holds] at missing
          cases missing

theorem getElem?_insertNew_eq_none (missing : (insertNew map pairs)[key]? = none) :
    map[key]? = none ∧ ∀ pair ∈ pairs, pair.1 ≠ key := by
  induction pairs generalizing map with
  | nil => exact ⟨missing, by simp⟩
  | cons pair pairs induction =>
      rw [insertNew_cons] at missing
      rcases induction missing with ⟨before, absent⟩
      rcases getElem?_insertIfNew_cases map pair.1 key pair.2 with ⟨same, held⟩ | ⟨_, _, holds⟩
      · rw [same] at before
        refine ⟨before, fun other member => ?_⟩
        rcases List.mem_cons.mp member with equal | inside
        · rw [equal]
          exact fun here => held here before
        · exact absent other inside
      · rw [holds] at before
        cases before

/-- Of pairs that agree on a key, the new map has the one with that key. -/
theorem getElem?_insertNew_empty_iff (agree : (key, value) ∈ pairs → ∀ other,
      (key, other) ∈ pairs → other = value) :
    (insertNew ∅ pairs)[key]? = some value ↔ (key, value) ∈ pairs := by
  have listed : ∀ other, (insertNew ∅ pairs)[key]? = some other → (key, other) ∈ pairs := by
    intro other found
    rcases getElem?_insertNew_eq_some found with held | ⟨_, member⟩
    · simp at held
    · exact member
  refine ⟨listed value, fun member => ?_⟩
  cases found : (insertNew ∅ pairs)[key]? with
  | none => exact absurd rfl ((getElem?_insertNew_eq_none found).2 _ member)
  | some other => rw [agree member other (listed other found)]

omit [Std.LawfulEqOrd κ] in
theorem getElem?_applyAll_removes_of_mem {keys : List κ}
    (member : key ∈ keys) : (applyAll map (keys.map Update.remove))[key]? = none := by
  induction keys generalizing map with
  | nil => cases member
  | cons head keys induction =>
      by_cases inside : key ∈ keys
      · exact induction inside
      · have same : key = head := by simpa [inside] using member
        subst same
        have untouched : ∀ map : BTreeMap κ ν, map[key]? = none →
            (applyAll map (keys.map Update.remove))[key]? = none := by
          clear induction inside member
          induction keys with
          | nil => exact fun _ absent => absent
          | cons head keys induction =>
              intro map absent
              refine induction (map.erase head) ?_
              simp [Std.ExtTreeMap.getElem?_erase, absent]
        exact untouched (map.erase key) Std.ExtTreeMap.getElem?_erase_self

theorem getElem?_applyAll_removes_of_not_mem {keys : List κ}
    (absent : key ∉ keys) : (applyAll map (keys.map Update.remove))[key]? = map[key]? := by
  induction keys generalizing map with
  | nil => rfl
  | cons head keys induction =>
      have different : compare head key ≠ .eq := fun equal =>
        absent (by simp [Std.LawfulEqOrd.eq_of_compare equal])
      have step : applyAll map ((head :: keys).map Update.remove) =
          applyAll (map.erase head) (keys.map Update.remove) := rfl
      rw [step, induction fun inside => absent (List.mem_cons_of_mem _ inside)]
      simp [Std.ExtTreeMap.getElem?_erase, different]

section Reconciliation

variable [DecidableEq ν] {current desired : BTreeMap κ ν}

theorem mem_changed {key : κ} {value : ν} :
    (key, value) ∈ changed current desired ↔
      desired[key]? = some value ∧ current[key]? ≠ some value := by
  simp [changed, Std.ExtTreeMap.mem_toList_iff_getElem?_eq_some]

theorem mem_toList_insertAll_changed {key : κ} {value : ν} :
    (key, value) ∈ (insertAll ∅ (changed current desired)).toList ↔
      (key, value) ∈ changed current desired := by
  rw [Std.ExtTreeMap.mem_toList_iff_getElem?_eq_some]
  constructor
  · intro found
    rcases getElem?_insertAll_eq_some found with member | ⟨_, absent⟩
    · exact member
    · simp at absent
  · intro member
    apply getElem?_insertAll_of_mem member
    intro other inside
    exact Option.some.inj ((mem_changed.mp inside).1.symm.trans (mem_changed.mp member).1)

/-- Changed pairs that were collected in a map, and stale keys, bring a map to another. -/
theorem applyAll_collected :
    applyAll (insertAll current (insertAll ∅ (changed current desired)).toList)
      ((stale current desired).map .remove) = desired := by
  apply Std.ExtTreeMap.ext_getElem?
  intro key
  by_cases old : key ∈ stale current desired
  · rw [getElem?_applyAll_removes_of_mem old, (mem_stale.mp old).2]
  · rw [getElem?_applyAll_removes_of_not_mem old]
    cases wanted : desired[key]? with
    | none =>
        have untouched : ∀ pair ∈ (insertAll ∅ (changed current desired)).toList, pair.1 ≠ key := by
          rintro ⟨other, value⟩ member rfl
          have present := (mem_changed.mp (mem_toList_insertAll_changed.mp member)).1
          rw [wanted] at present
          cases present
        rw [getElem?_insertAll_of_not_mem untouched]
        by_contra held
        exact old (mem_stale.mpr ⟨held, wanted⟩)
    | some value =>
        by_cases held : current[key]? = some value
        · rw [getElem?_insertAll_of_not_mem, held]
          rintro ⟨other, otherValue⟩ member rfl
          rcases mem_changed.mp (mem_toList_insertAll_changed.mp member) with ⟨present, different⟩
          exact different (held.trans (wanted.symm.trans present))
        · have member := mem_changed.mpr ⟨wanted, held⟩
          apply getElem?_insertAll_of_mem (mem_toList_insertAll_changed.mpr member)
          intro other inside
          have again := (mem_changed.mp (mem_toList_insertAll_changed.mp inside)).1
          exact Option.some.inj (again.symm.trans wanted)

end Reconciliation

end OrderedMap

end FlowSdn
