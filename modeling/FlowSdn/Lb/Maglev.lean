import FlowSdn.Foundation.Checked
import FlowSdn.Net.Display
import Mathlib.Data.List.Sort
import Mathlib.Data.Rat.Floor
import Mathlib.Data.ZMod.Basic
import Mathlib.FieldTheory.Finite.Basic

/-! # Maglev tables

The deterministic lookup table of a set of backends: each backend walks its own
permutation of the table and takes the next free entry in its turn.
-/

namespace FlowSdn.Lb.Maglev

open Net Words OrderedMap

structure Backend where
  id : U32
  address : IpAddr
  port : U16
  protocol : String
  cluster : U32
  internal : Bool
  weight : U16
  deriving DecidableEq

def Backend.hashString (backend : Backend) : String :=
  let address :=
    match backend.address with
    | .v4 _ => backend.address.text
    | .v6 _ => "[" ++ backend.address.text ++ "]"
  let address :=
    if backend.cluster ≠ 0 then address ++ "@" ++ toString backend.cluster.toNat else address
  "[" ++ address ++ ":" ++ toString backend.port.toNat ++ "/" ++ backend.protocol ++
    (if backend.internal then "/i" else "") ++ ",State:active]"

def mix (key : U64) : U64 :=
  let key := key ^^^ (key >>> 33)
  let key := key * 0xff51afd7ed558ccd
  let key := key ^^^ (key >>> 33)
  let key := key * 0xc4ceb9fe1a85ec53
  key ^^^ (key >>> 33)

def c1 : U64 := 0x87c37b91114253d5
def c2 : U64 := 0x4cf5ad432745937f

def scramble1 (key : U64) : U64 := (key * c1).rotateLeft 31 * c2
def scramble2 (key : U64) : U64 := (key * c2).rotateLeft 33 * c1

/-- A little-endian word of at most eight bytes. -/
def leWord (bytes : List U8) : U64 := BitVec.ofNat 64 (leValue bytes)

def absorb (lanes : U64 × U64) (chunk : List U8) : U64 × U64 :=
  let h1 := lanes.1 ^^^ scramble1 (leWord (chunk.take 8))
  let h1 := (h1.rotateLeft 27 + lanes.2) * 5 + 0x52dce729
  let h2 := lanes.2 ^^^ scramble2 (leWord (chunk.drop 8))
  let h2 := (h2.rotateLeft 31 + h1) * 5 + 0x38495ab5
  (h1, h2)

def hash (bytes : List U8) (seed : U32) : U64 × U64 :=
  let whole := bytes.length / 16
  let start : U64 × U64 := (seed.setWidth 64, seed.setWidth 64)
  let (h1, h2) := ((List.range whole).map fun index =>
    (bytes.drop (16 * index)).take 16).foldl absorb start
  let tail := bytes.drop (16 * whole)
  let h2 := if tail.length > 8 then h2 ^^^ scramble2 (leWord (tail.drop 8)) else h2
  let h1 := if tail.isEmpty then h1 else h1 ^^^ scramble1 (leWord (tail.take 8))
  let h1 := h1 ^^^ BitVec.ofNat 64 bytes.length
  let h2 := h2 ^^^ BitVec.ofNat 64 bytes.length
  let h1 := h1 + h2
  let h2 := h2 + h1
  let h1 := mix h1
  let h2 := mix h2
  let h1 := h1 + h2
  let h2 := h2 + h1
  (h1, h2)

def asciiBytes (text : String) : List U8 := text.toList.map fun char => BitVec.ofNat 8 char.toNat

/-! ## Filling the table -/

def sizes : List Nat := [251, 509, 1021, 2039, 4093, 8191, 16381, 32749, 65521, 131071]

def permutationSlot (offset skip next size : Nat) : Nat := (offset + next * skip) % size

def checkedRem (value modulus : Nat) : Except String Nat :=
  if modulus = 0 then .error "size" else .ok (value % modulus)

/-- The entries in the order in which a backend tries them. -/
def permutation (backend : Backend) (size : Nat) (seed : U32) : Except String (List Nat) := do
  if size ∉ sizes then .error "invalid Maglev size"
  let (first, second) := hash (asciiBytes backend.hashString) seed
  let offset ← checkedRem first.toNat size
  let step ← checkedRem second.toNat (size - 1)
  return (List.range size).map fun next => permutationSlot offset (step + 1) next size

/-- A backend's walk: where it is in its permutation, and, for weighted tables,
how far it has been served. -/
structure Work where
  id : U32
  weight : Nat
  counter : ℚ
  offset : Nat
  skip : Nat
  next : Nat
  deriving DecidableEq

/-- The backend whose turn it is, from `index` on. A weighted backend that has been
served is passed over; a whole lap of those would never end. -/
def turn (weighted : Bool) (round : Nat) (work : List Work) : (lap index : Nat) → Option Nat
  | 0, _ => none
  | lap + 1, index =>
      match work[index]? with
      | none => none
      | some candidate =>
          if weighted ∧ (round + 1) * candidate.weight < ⌊candidate.counter⌋.toNat then
            turn weighted round work lap ((index + 1) % work.length)
          else some index

/-- The next free entry of a walk and the position after it. After as many tries as
there are entries the walk has met them all. -/
def freeSlot (entries : List (Option U32)) (walk : Work) : (tries next : Nat) → Option (Nat × Nat)
  | 0, _ => none
  | tries + 1, next =>
      let slot := permutationSlot walk.offset walk.skip next entries.length
      match entries[slot]? with
      | some none => some (slot, next + 1)
      | _ => freeSlot entries walk tries (next + 1)

structure Filling where
  entries : List (Option U32)
  work : List Work
  deriving DecidableEq

def Filling.take (filling : Filling) (weighted : Bool) (sum index : Nat) (walk : Work)
    (slot next : Nat) : Filling where
  entries := filling.entries.set slot (some walk.id)
  work := filling.work.set index { walk with
    counter := if weighted then walk.counter + sum else walk.counter
    next }

/-- One entry is taken. No result stands for a loop without end. -/
def fillOne (weighted : Bool) (sum : Nat) (filling : Filling) (round : Nat) : Option Filling :=
  match turn weighted round filling.work filling.work.length (round % filling.work.length) with
  | none => none
  | some index =>
      match filling.work[index]? with
      | none => none
      | some walk =>
          match freeSlot filling.entries walk filling.entries.length walk.next with
          | none => none
          | some (slot, next) => some (filling.take weighted sum index walk slot next)

def startWork (count size : Nat) (seed : U32) (named : String × Backend) : Work :=
  let (first, second) := hash (asciiBytes named.1) seed
  { id := named.2.id
    weight := named.2.weight.toNat
    counter := named.2.weight.toNat / count
    offset := first.toNat % size
    skip := second.toNat % (size - 1) + 1
    next := 0 }

/-- A backend a table can hold beside the ones before it. -/
def checkBackend (ids : BTreeSet U32) (backend : Backend) : Except String (BTreeSet U32) :=
  if backend.weight = 0 ∨ backend.protocol ∉ ["TCP", "UDP", "SCTP"] ∨ ids.contains backend.id then
    .error "invalid backend"
  else .ok (ids.insert backend.id)

def sortedByText (backends : List Backend) : List (String × Backend) :=
  (backends.map fun backend => (backend.hashString, backend)).insertionSort (·.1 ≤ ·.1)

def hasRepeat (sorted : List (String × Backend)) : Bool :=
  (sorted.zip sorted.tail).any fun pair => pair.1.1 = pair.2.1

def startFilling (sorted : List (String × Backend)) (size : Nat) (seed : U32) : Filling where
  entries := List.replicate size none
  work := sorted.map (startWork sorted.length size seed)

def weightSum (sorted : List (String × Backend)) : Nat :=
  (sorted.map (·.2.weight.toNat)).sum

/-- The lookup table of the backends. An answer of `none` is a loop without end. -/
def fill (sorted : List (String × Backend)) (size : Nat) (seed : U32) : Option Filling :=
  let sum := weightSum sorted
  let weighted := sum / sorted.length > 1
  (List.range size).foldlM (fillOne weighted sum) (startFilling sorted size seed)

def collectEntries (entries : List (Option U32)) : Except String (List U32) :=
  entries.mapM fun entry =>
    match entry with
    | none => .error "unfilled table"
    | some id => .ok id

def table (backends : List Backend) (size : Nat) (seed : U32) : Option (Except String (List U32)) :=
  if size ∉ sizes ∨ backends.length > 65535 then some (.error "invalid Maglev size")
  else if backends.isEmpty then some (.ok [])
  else
    match backends.foldlM checkBackend ∅ with
    | .error error => some (.error error)
    | .ok _ =>
        let sorted := sortedByText backends
        if hasRepeat sorted then some (.error "duplicate backend address")
        else (fill sorted size seed).map fun filling => collectEntries filling.entries

/-! ## The table holds the backends' IDs and nothing else -/

/-- Every entry and every walk is one of the backends. -/
structure Filling.Of (filling : Filling) (ids : List U32) : Prop where
  entries : ∀ id, some id ∈ filling.entries → id ∈ ids
  work : ∀ walk ∈ filling.work, walk.id ∈ ids

theorem of_startFilling (sorted : List (String × Backend)) (size : Nat) (seed : U32) :
    (startFilling sorted size seed).Of (sorted.map (·.2.id)) := by
  constructor
  · intro id member
    have empty := List.eq_of_mem_replicate member
    cases empty
  · intro walk member
    rcases List.mem_map.mp member with ⟨named, inSorted, equal⟩
    rw [← equal]
    exact List.mem_map.mpr ⟨named, inSorted, rfl⟩

section Filling

variable {weighted : Bool} {sum : Nat} {filling filled : Filling} {ids : List U32}

theorem Filling.Of.fillOne (of : filling.Of ids) {round : Nat}
    (taken : Maglev.fillOne weighted sum filling round = some filled) : filled.Of ids := by
  unfold Maglev.fillOne at taken
  split at taken
  · cases taken
  · rename_i index _
    split at taken
    · cases taken
    · rename_i walk walks
      split at taken
      · cases taken
      · rename_i slot next _
        cases taken
        have inWork : walk ∈ filling.work := List.mem_of_getElem? walks
        constructor
        · intro id member
          rcases List.mem_or_eq_of_mem_set member with earlier | new
          · exact of.entries id earlier
          · rw [Option.some.inj new]
            exact of.work walk inWork
        · intro other member
          rcases List.mem_or_eq_of_mem_set member with earlier | new
          · exact of.work other earlier
          · rw [new]
            exact of.work walk inWork

theorem Filling.Of.foldlM (of : filling.Of ids) {rounds : List Nat}
    (taken : rounds.foldlM (Maglev.fillOne weighted sum) filling = some filled) :
    filled.Of ids := by
  induction rounds generalizing filling with
  | nil =>
      cases taken
      exact of
  | cons round rounds induction =>
      rw [List.foldlM_cons, Option.bind_eq_bind, Option.bind_eq_some_iff] at taken
      rcases taken with ⟨next, one, rest⟩
      exact induction (of.fillOne one) rest

end Filling

variable {entries : List (Option U32)} {size : Nat}

theorem mem_collectEntries {ids : List U32}
    (collected : collectEntries entries = .ok ids) {id : U32} (member : id ∈ ids) :
    some id ∈ entries := by
  unfold collectEntries at collected
  rw [Checked.mapM_eq_ok] at collected
  rcases List.mem_iff_getElem.mp member with ⟨index, within, found⟩
  have inEntries : index < entries.length := by
    rw [collected.length_eq]
    exact within
  have related := collected.get inEntries within
  have held : entries[index] = some id := by
    simp only [List.get_eq_getElem, found] at related
    split at related
    · cases related
    · rename_i equal
      cases related
      exact equal
  rw [← held]
  exact List.getElem_mem inEntries

theorem mem_of_mem_table {backends : List Backend} {seed : U32} {ids : List U32}
    (made : table backends size seed = some (.ok ids)) {id : U32} (member : id ∈ ids) :
    ∃ backend ∈ backends, backend.id = id := by
  unfold table at made
  split at made
  · cases made
  · split at made
    · cases made
      cases member
    · split at made
      · cases made
      · simp only at made
        split at made
        · cases made
        · rcases Option.map_eq_some_iff.mp made with ⟨filling, filled, collected⟩
          have of := (of_startFilling (sortedByText backends) size seed).foldlM filled
          have inIds := of.entries id (mem_collectEntries collected member)
          rcases List.mem_map.mp inIds with ⟨named, inSorted, same⟩
          have inBackends := List.mem_insertionSort _ |>.mp inSorted
          rcases List.mem_map.mp inBackends with ⟨backend, isBackend, equal⟩
          refine ⟨backend, isBackend, ?_⟩
          rw [← same, ← equal]

/-! ## Every walk finds a free entry -/

theorem prime_of_mem_sizes (supported : size ∈ sizes) : size.Prime := by
  simp only [sizes, List.mem_cons, List.not_mem_nil, or_false] at supported
  rcases supported with rfl | rfl | rfl | rfl | rfl | rfl | rfl | rfl | rfl | rfl <;> norm_num

/-- A walk whose step is no multiple of a prime size meets every entry in one lap. -/
theorem exists_permutationSlot_eq {size : Nat} (prime : size.Prime) {offset skip next slot : Nat}
    (positive : 1 ≤ skip) (below : skip < size) (within : slot < size) :
    ∃ step < size, permutationSlot offset skip (next + step) size = slot := by
  have : Fact size.Prime := ⟨prime⟩
  have unit : (skip : ZMod size) ≠ 0 := by
    intro zero
    have divides := (ZMod.natCast_eq_zero_iff skip size).mp zero
    exact absurd (Nat.le_of_dvd positive divides) (by omega)
  obtain ⟨step, lands⟩ : ∃ step : ZMod size, (offset + (next + step) * skip : ZMod size) = slot :=
    ⟨(slot - offset) / skip - next, by field_simp; ring⟩
  refine ⟨step.val, ZMod.val_lt step, ?_⟩
  have congruent :
      ((offset + (next + step.val) * skip : Nat) : ZMod size) = (slot : ZMod size) := by
    push_cast
    rw [ZMod.natCast_zmod_val]
    exact lands
  have equal := (ZMod.natCast_eq_natCast_iff' _ _ _).mp congruent
  rw [permutationSlot, equal, Nat.mod_eq_of_lt within]

theorem freeSlot_ne_none {walk : Work} {tries next : Nat} (step : Nat) (within : step < tries)
    (free : entries[permutationSlot walk.offset walk.skip (next + step) entries.length]? =
      some none) : freeSlot entries walk tries next ≠ none := by
  induction tries generalizing next step with
  | zero => omega
  | succ tries induction =>
      rw [freeSlot]
      split
      · simp
      · rename_i occupied
        cases step with
        | zero => exact absurd free occupied
        | succ step =>
            apply induction step (by omega)
            rw [show next + 1 + step = next + (step + 1) by omega]
            exact free

theorem freeSlot_free {walk : Work} {tries next slot after : Nat}
    (found : freeSlot entries walk tries next = some (slot, after)) :
    entries[slot]? = some none := by
  induction tries generalizing next with
  | zero => cases found
  | succ tries induction =>
      rw [freeSlot] at found
      split at found
      · rename_i free
        cases found
        exact free
      · exact induction found

/-- After some rounds of an unweighted table that many entries are taken, and every
walk has a step between 1 and the size. -/
structure Filling.Steady (filling : Filling) (count size round : Nat) : Prop where
  walks : filling.work.length = count
  steps : ∀ walk ∈ filling.work, 1 ≤ walk.skip ∧ walk.skip < size
  length : filling.entries.length = size
  taken : filling.entries.count none + round = size

theorem startWork_skip (count : Nat) (large : 1 < size) (seed : U32) (named : String × Backend) :
    1 ≤ (startWork count size seed named).skip ∧ (startWork count size seed named).skip < size := by
  have bound := Nat.mod_lt (hash (asciiBytes named.1) seed).2.toNat (show size - 1 > 0 by omega)
  simp only [startWork]
  omega

theorem steady_startFilling (sorted : List (String × Backend)) (large : 1 < size)
    (seed : U32) : (startFilling sorted size seed).Steady sorted.length size 0 where
  walks := by simp [startFilling]
  steps := by
    intro walk member
    rcases List.mem_map.mp member with ⟨named, _, equal⟩
    rw [← equal]
    exact startWork_skip sorted.length large seed named
  length := by simp [startFilling]
  taken := by simp [startFilling]

section Steady

variable {filling : Filling} {count size round : Nat}

theorem Filling.Steady.freeSlot (steady : filling.Steady count size round) (prime : size.Prime)
    (remaining : round < size) {walk : Work} (member : walk ∈ filling.work) :
    ∃ slot next, Maglev.freeSlot filling.entries walk filling.entries.length walk.next =
      some (slot, next) := by
  have hasFree : 0 < filling.entries.count none := by
    have taken := steady.taken
    omega
  rcases List.mem_iff_getElem.mp (List.count_pos_iff.mp hasFree) with ⟨slot, within, free⟩
  have steps := steady.steps walk member
  have below : slot < size := steady.length ▸ within
  rcases @exists_permutationSlot_eq size prime walk.offset walk.skip walk.next slot steps.1
    steps.2 below with ⟨step, stepBelow, lands⟩
  have found : Maglev.freeSlot filling.entries walk filling.entries.length walk.next ≠ none := by
    apply freeSlot_ne_none step (steady.length.symm ▸ stepBelow)
    rw [steady.length, lands, List.getElem?_eq_getElem within, free]
  rcases Option.ne_none_iff_exists'.mp found with ⟨⟨chosen, after⟩, isChosen⟩
  exact ⟨chosen, after, isChosen⟩

variable {weighted : Bool} (sum : Nat)

theorem Filling.Steady.take (steady : filling.Steady count size round) {walk : Work}
    (member : walk ∈ filling.work) {slot : Nat} (free : filling.entries[slot]? = some none)
    (index next : Nat) :
    (filling.take weighted sum index walk slot next).Steady count size (round + 1) where
  walks := by
    rw [Filling.take, List.length_set]
    exact steady.walks
  steps := by
    intro other isOther
    rcases List.mem_or_eq_of_mem_set isOther with earlier | new
    · exact steady.steps other earlier
    · rw [new]
      exact steady.steps walk member
  length := by
    rw [Filling.take, List.length_set]
    exact steady.length
  taken := by
    rcases List.getElem?_eq_some_iff.mp free with ⟨within, isFree⟩
    have positive : 0 < filling.entries.count none := by
      rw [List.count_pos_iff, ← isFree]
      exact List.getElem_mem within
    have taken := steady.taken
    simp only [Filling.take, List.count_set within, isFree]
    simp
    omega

theorem Filling.Steady.fillOne (steady : filling.Steady count size round) (prime : size.Prime)
    (nonempty : 0 < count) (remaining : round < size)
    (ready : ∀ walk, filling.work[round % count]? = some walk →
      ¬(weighted = true ∧ (round + 1) * walk.weight < ⌊walk.counter⌋.toNat)) :
    ∃ walk slot next, filling.work[round % count]? = some walk ∧
      filling.entries[slot]? = some none ∧
      Maglev.fillOne weighted sum filling round =
        some (filling.take weighted sum (round % count) walk slot next) := by
  have inWork : round % count < filling.work.length :=
    steady.walks.symm ▸ Nat.mod_lt _ nonempty
  have walks := List.getElem?_eq_getElem inWork
  have turns : turn weighted round filling.work filling.work.length (round % count) =
      some (round % count) := by
    rcases Nat.exists_eq_succ_of_ne_zero (Nat.ne_of_gt (Nat.zero_lt_of_lt inWork)) with
      ⟨lap, isLap⟩
    rw [isLap, turn, walks]
    exact if_neg (ready _ walks)
  have member := List.getElem_mem inWork
  rcases steady.freeSlot prime remaining member with ⟨slot, next, found⟩
  refine ⟨_, slot, next, walks, freeSlot_free found, ?_⟩
  rw [Maglev.fillOne]
  rw [steady.walks] at turns ⊢
  rw [turns]
  simp only [walks, found]

end Steady

end FlowSdn.Lb.Maglev
