import FlowSdn.Foundation.OrderedMap
import Mathlib.Data.Finset.Card
import Mathlib.Data.List.Nodup

/-! # Ordered maps as finite sets of keys

Membership after a change, the values of a map, and how many keys of a map or elements
of a set satisfy a condition.
-/

namespace FlowSdn.OrderedMap

variable {κ : Type u} {ν : Type v} [Ord κ] [Std.TransOrd κ]

theorem values_eq_map (map : BTreeMap κ ν) : map.values = map.toList.map Prod.snd := by
  have folded : map.values = map.foldr (fun _ value values => value :: values) [] := rfl
  rw [folded, Std.ExtTreeMap.foldr_eq_foldr_toList, List.map_eq_foldr]

section Membership

variable [Std.LawfulEqOrd κ]

variable {key other element : κ} {map : BTreeMap κ ν} {value : ν} {set : BTreeSet κ}

theorem mem_insert_iff : other ∈ map.insert key value ↔ key = other ∨ other ∈ map := by
  rw [Std.ExtTreeMap.mem_insert, Std.LawfulEqOrd.compare_eq_iff_eq]

theorem mem_erase_iff : other ∈ map.erase key ↔ key ≠ other ∧ other ∈ map := by
  rw [Std.ExtTreeMap.mem_erase, ne_eq, Std.LawfulEqOrd.compare_eq_iff_eq]

theorem mem_set_insert_iff : other ∈ set.insert element ↔ element = other ∨ other ∈ set := by
  rw [Std.ExtTreeSet.mem_insert, Std.LawfulEqOrd.compare_eq_iff_eq]

theorem mem_set_erase_iff : other ∈ set.erase element ↔ element ≠ other ∧ other ∈ set := by
  rw [Std.ExtTreeSet.mem_erase, ne_eq, Std.LawfulEqOrd.compare_eq_iff_eq]

theorem mem_values : value ∈ map.values ↔ ∃ key : κ, map[key]? = some value := by
  rw [values_eq_map, List.mem_map]
  constructor
  · intro found
    rcases found with ⟨pair, listed, same⟩
    exact ⟨pair.1, same ▸ Std.ExtTreeMap.mem_toList_iff_getElem?_eq_some.mp listed⟩
  · intro found
    rcases found with ⟨key, found⟩
    exact ⟨(key, value), Std.ExtTreeMap.mem_toList_iff_getElem?_eq_some.mpr found, rfl⟩

/-- A map whose values say their own keys lists these in the order of the values. -/
theorem values_map_key {keyOf : ν → κ}
    (keyed : ∀ (key : κ) (value : ν), map[key]? = some value → keyOf value = key) :
    map.values.map keyOf = map.keys := by
  rw [values_eq_map, ← Std.ExtTreeMap.map_fst_toList_eq_keys, List.map_map]
  apply List.map_congr_left
  intro pair listed
  exact keyed pair.1 pair.2 (Std.ExtTreeMap.mem_toList_iff_getElem?_eq_some.mp listed)

theorem erase_insert_of_not_mem (value : ν) (fresh : key ∉ map) :
    (map.insert key value).erase key = map := by
  apply Std.ExtTreeMap.ext_getElem?
  intro other
  by_cases same : key = other
  · subst same
    rw [Std.ExtTreeMap.getElem?_erase_self, Std.ExtTreeMap.getElem?_eq_none fresh]
  · rw [getElem?_erase_of_ne same, getElem?_insert_of_ne same]

theorem insert_insert_self (map : BTreeMap κ ν) (key : κ) (first second : ν) :
    (map.insert key first).insert key second = map.insert key second := by
  apply Std.ExtTreeMap.ext_getElem?
  intro other
  by_cases same : key = other
  · subst same
    rw [Std.ExtTreeMap.getElem?_insert_self, Std.ExtTreeMap.getElem?_insert_self]
  · rw [getElem?_insert_of_ne same, getElem?_insert_of_ne same, getElem?_insert_of_ne same]

theorem set_erase_insert_of_not_mem (fresh : element ∉ set) :
    (set.insert element).erase element = set := by
  apply Std.ExtTreeSet.ext_mem
  intro other
  rw [mem_set_erase_iff, mem_set_insert_iff]
  constructor
  · intro both
    exact both.2.resolve_left both.1
  · intro member
    exact ⟨fun same => fresh (same ▸ member), .inr member⟩

/-! ## Lists by key -/

def listed (map : BTreeMap κ (List ν)) (key : κ) : List ν := (map[key]?).getD []

/-- The map with a key listing other values; a key that lists none is not kept. -/
def relist (map : BTreeMap κ (List ν)) (key : κ) (values : List ν) : BTreeMap κ (List ν) :=
  if values.isEmpty then map.erase key else map.insert key values

theorem listed_relist [DecidableEq κ] (map : BTreeMap κ (List ν)) (key other : κ)
    (values : List ν) :
    listed (relist map key values) other = if key = other then values else listed map other := by
  unfold listed relist
  by_cases same : key = other
  · subst same
    split
    · rename_i empty
      simp [List.isEmpty_iff.mp empty]
    · simp
  · rw [if_neg same]
    split
    · rw [getElem?_erase_of_ne same]
    · rw [getElem?_insert_of_ne same]

theorem mem_flatten_values {map : BTreeMap κ (List ν)} :
    value ∈ map.values.flatten ↔ ∃ key, value ∈ listed map key := by
  rw [List.mem_flatten]
  constructor
  · rintro ⟨values, member, inside⟩
    rcases mem_values.mp member with ⟨key, found⟩
    refine ⟨key, ?_⟩
    rw [listed, found]
    exact inside
  · rintro ⟨key, inside⟩
    rw [listed] at inside
    cases found : map[key]? with
    | none =>
        rw [found] at inside
        cases inside
    | some values =>
        rw [found] at inside
        exact ⟨values, mem_values.mpr ⟨key, found⟩, inside⟩

end Membership

variable [DecidableEq κ]

def keySet (map : BTreeMap κ ν) : Finset κ := map.keys.toFinset

def elements (set : BTreeSet κ) : Finset κ := set.toList.toFinset

theorem card_keySet (map : BTreeMap κ ν) : (keySet map).card = map.size := by
  rw [keySet, List.toFinset_card_of_nodup Std.ExtTreeMap.nodup_keys, Std.ExtTreeMap.length_keys]

theorem countP_keys (map : BTreeMap κ ν) (condition : κ → Bool) :
    map.keys.countP condition = ((keySet map).filter (condition ·)).card := by
  rw [List.countP_eq_length_filter, keySet, ← List.toFinset_filter,
    List.toFinset_card_of_nodup (Std.ExtTreeMap.nodup_keys.filter _)]

theorem card_elements (set : BTreeSet κ) : (elements set).card = set.size := by
  have distinct : set.toList.Nodup := by
    refine Std.ExtTreeSet.distinct_toList.imp ?_
    intro element other different same
    subst same
    exact different Std.ReflCmp.compare_self
  rw [elements, List.toFinset_card_of_nodup distinct, Std.ExtTreeSet.length_toList]

variable [Std.LawfulEqOrd κ]

@[simp] theorem mem_keySet {map : BTreeMap κ ν} {key : κ} : key ∈ keySet map ↔ key ∈ map := by
  rw [keySet, List.mem_toFinset, Std.ExtTreeMap.mem_keys]

@[simp] theorem mem_elements {set : BTreeSet κ} {element : κ} :
    element ∈ elements set ↔ element ∈ set := by
  rw [elements, List.mem_toFinset, Std.ExtTreeSet.mem_toList]

end FlowSdn.OrderedMap
