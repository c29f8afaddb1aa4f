import FlowSdn.Foundation.Outcome
import FlowSdn.Net.Address

/-! # Allocation of node blocks from a cluster CIDR

A cluster CIDR is cut into blocks of one length, and a bit for each says whether it is used.
CIDRs of any length can be occupied and released; both act on whole blocks.
-/

namespace FlowSdn.Ipam.Blocks

open Net Checked

/-! ## Prefixes -/

def number (address : IpAddr) : Nat := address.toNat

def ip (value : Nat) (v6 : Bool) : IpAddr :=
  if v6 then .v6 (BitVec.ofNat 128 value) else .v4 (BitVec.ofNat 32 value)

/-- A shift to the right of 128 bits; all of them leave nothing. -/
def shr (value shift : Nat) : Nat := value / 2 ^ shift

/-- A shift to the left of 128 bits; all of them leave nothing. -/
def shl (value shift : Nat) : Nat := value * 2 ^ shift % 2 ^ 128

/-- The address of a number in the family of another address. -/
def sibling (address : IpAddr) (value : Nat) : IpAddr := ip value (!address.isIpv4)

@[simp] theorem hostBits_sibling (address : IpAddr) (value : Nat) :
    (sibling address value).hostBits = address.hostBits := by
  cases address <;> rfl

@[simp] theorem isIpv4_sibling (address : IpAddr) (value : Nat) :
    (sibling address value).isIpv4 = address.isIpv4 := by
  cases address <;> rfl

theorem number_sibling {address : IpAddr} {value : Nat} (bound : value < 2 ^ address.hostBits) :
    number (sibling address value) = value := by
  cases address with
  | v4 address => exact Nat.mod_eq_of_lt bound
  | v6 address => exact Nat.mod_eq_of_lt bound

theorem hostBits_of_isIpv4 {left right : IpAddr} (same : left.isIpv4 = right.isIpv4) :
    left.hostBits = right.hostBits := by
  cases left <;> cases right <;> first | rfl | cases same

theorem shl_shr {value shift : Nat} (bound : value < 2 ^ 128) :
    shl (shr value shift) shift = value / 2 ^ shift * 2 ^ shift :=
  Nat.mod_eq_of_lt (Nat.lt_of_le_of_lt (Nat.div_mul_le_self _ _) bound)

structure Prefix where
  address : IpAddr
  bits : Nat
  bounded : bits ≤ address.hostBits
  aligned : 2 ^ (address.hostBits - bits) ∣ number address

namespace Prefix

def new (address : IpAddr) (bits : Nat) : Except String Prefix :=
  if bounded : bits ≤ address.hostBits then
    let shift := address.hostBits - bits
    .ok
      { address := sibling address (shl (shr (number address) shift) shift)
        bits
        bounded := by rw [hostBits_sibling]; exact bounded
        aligned := by
          have value : number address < 2 ^ address.hostBits := address.toNat_lt
          have small : number address < 2 ^ 128 :=
            Nat.lt_of_lt_of_le value (Nat.pow_le_pow_right (by decide) address.hostBits_le)
          rw [hostBits_sibling, shl_shr small, number_sibling
            (Nat.lt_of_le_of_lt (Nat.div_mul_le_self _ _) value)]
          exact Nat.dvd_mul_left _ _ }
  else .error "invalid prefix"

def last (cidr : Prefix) : Nat :=
  number cidr.address ||| shr (2 ^ 128 - 1) (128 - (cidr.address.hostBits - cidr.bits))

def extent (cidr : Prefix) : Nat := 2 ^ (cidr.address.hostBits - cidr.bits)

theorem last_eq (cidr : Prefix) : cidr.last = number cidr.address + (cidr.extent - 1) := by
  have host := cidr.address.hostBits_le
  rcases cidr.aligned with ⟨factor, same⟩
  have ones : shr (2 ^ 128 - 1) (128 - (cidr.address.hostBits - cidr.bits)) = cidr.extent - 1 := by
    have whole : 2 ^ 128 = 2 ^ (128 - (cidr.address.hostBits - cidr.bits)) * cidr.extent := by
      rw [extent, ← Nat.pow_add]
      congr 1
      omega
    have positive : 0 < 2 ^ (128 - (cidr.address.hostBits - cidr.bits)) * cidr.extent := by
      rw [← whole]
      decide
    have divided := Nat.mul_sub_div 0 _ _ positive
    rw [← whole] at divided
    simpa [shr] using divided
  have below : cidr.extent - 1 < 2 ^ (cidr.address.hostBits - cidr.bits) :=
    Nat.sub_lt (Nat.two_pow_pos _) Nat.one_pos
  rw [last, ones, same, ← Nat.two_pow_add_eq_or_of_lt below]

theorem last_lt (cidr : Prefix) : cidr.last < 2 ^ cidr.address.hostBits := by
  rcases cidr.aligned with ⟨factor, same⟩
  have whole : 2 ^ cidr.address.hostBits = cidr.extent * 2 ^ cidr.bits := by
    rw [extent, ← Nat.pow_add, Nat.sub_add_cancel cidr.bounded]
  have below : cidr.extent * (factor + 1) ≤ cidr.extent * 2 ^ cidr.bits := by
    refine Nat.mul_le_mul_left _ (Nat.lt_of_mul_lt_mul_left (a := cidr.extent) ?_)
    rw [← whole, extent, ← same]
    exact IpAddr.toNat_lt _
  have positive : 0 < cidr.extent := Nat.two_pow_pos _
  rw [whole, last_eq, same]
  rw [Nat.mul_add_one] at below
  change cidr.extent * factor + _ < _
  omega

def Contains (cidr : Prefix) (address : IpAddr) : Prop :=
  address.isIpv4 = cidr.address.isIpv4 ∧ number cidr.address ≤ number address ∧
    number address ≤ cidr.last

def Overlaps (left right : Prefix) : Prop :=
  ∃ address, left.Contains address ∧ right.Contains address

theorem first_le_last (cidr : Prefix) : number cidr.address ≤ cidr.last := by
  rw [last_eq]
  exact Nat.le_add_right _ _

theorem overlaps_iff {left right : Prefix} :
    left.Overlaps right ↔ left.address.isIpv4 = right.address.isIpv4 ∧
      number left.address ≤ right.last ∧ number right.address ≤ left.last := by
  constructor
  · rintro ⟨address, ⟨family, low, high⟩, ⟨other, least, most⟩⟩
    exact ⟨family.symm.trans other, Nat.le_trans low most, Nat.le_trans least high⟩
  · rintro ⟨family, low, high⟩
    rcases Nat.le_total (number left.address) (number right.address) with order | order
    · exact ⟨right.address, ⟨family.symm, order, high⟩, rfl, Nat.le_refl _, right.first_le_last⟩
    · exact ⟨left.address, ⟨rfl, Nat.le_refl _, left.first_le_last⟩, family, order, low⟩

instance (left right : Prefix) : Decidable (left.Overlaps right) :=
  decidable_of_iff _ overlaps_iff.symm

end Prefix

/-! ## Blocks -/

/-- How a cluster CIDR is cut into blocks. -/
structure Layout where
  cluster : Prefix
  nodeMask : Nat
  deeper : cluster.bits ≤ nodeMask
  bounded : nodeMask ≤ cluster.address.hostBits

namespace Layout

def count (layout : Layout) : Nat := 2 ^ (layout.nodeMask - layout.cluster.bits)

def shift (layout : Layout) : Nat := layout.cluster.address.hostBits - layout.nodeMask

def index (layout : Layout) (address : IpAddr) : Except String Nat :=
  if address.isIpv4 ≠ layout.cluster.address.isIpv4 ∨
      number address < number layout.cluster.address ∨ layout.cluster.last < number address then
    .error "address outside cluster"
  else .ok (shr (number address - number layout.cluster.address) layout.shift)

def block (layout : Layout) (index : Nat) : Except String Prefix :=
  if layout.count ≤ index then .error "block index out of range"
  else
    Prefix.new (sibling layout.cluster.address
      (number layout.cluster.address ||| shl index layout.shift)) layout.nodeMask

def interval (layout : Layout) (cidr : Prefix) : Except String (Nat × Nat) :=
  if cidr.address.isIpv4 ≠ layout.cluster.address.isIpv4 ∨
      layout.cluster.last < number cidr.address ∨ cidr.last < number layout.cluster.address then
    .error "CIDR allocation failed; not in range"
  else
    let base := number layout.cluster.address
    .ok (shr (max (number cidr.address) base - base) layout.shift,
      shr (min cidr.last layout.cluster.last - base) layout.shift)

def extent (layout : Layout) : Nat := 2 ^ layout.shift

variable {layout : Layout} {index : Nat} {cidr : Prefix}

theorem extent_pos (layout : Layout) : 0 < layout.extent := Nat.two_pow_pos _

theorem extent_cluster (layout : Layout) :
    layout.cluster.extent = layout.count * layout.extent := by
  rw [Prefix.extent, count, extent, shift, ← Nat.pow_add]
  have deeper := layout.deeper
  have bounded := layout.bounded
  congr 1
  omega

theorem last_cluster (layout : Layout) :
    layout.cluster.last + 1 = number layout.cluster.address + layout.count * layout.extent := by
  have positive : 0 < layout.cluster.extent := Nat.two_pow_pos _
  rw [← extent_cluster, Prefix.last_eq]
  omega

/-- The part of the cluster that a block is. -/
structure IsBlock (layout : Layout) (index : Nat) (cidr : Prefix) : Prop where
  valid : index < layout.count
  family : cidr.address.isIpv4 = layout.cluster.address.isIpv4
  first : number cidr.address = number layout.cluster.address + index * layout.extent
  bits : cidr.bits = layout.nodeMask

theorem IsBlock.last (isBlock : layout.IsBlock index cidr) :
    cidr.last + 1 = number layout.cluster.address + (index * layout.extent + layout.extent) ∧
      cidr.last ≤ layout.cluster.last := by
  have positive := layout.extent_pos
  have whole := layout.last_cluster
  have below : (index + 1) * layout.extent ≤ layout.count * layout.extent :=
    Nat.mul_le_mul_right _ isBlock.valid
  have same : cidr.extent = layout.extent := by
    rw [Prefix.extent, hostBits_of_isIpv4 isBlock.family, isBlock.bits]
    rfl
  rw [Nat.add_one_mul] at below
  rw [Prefix.last_eq, isBlock.first, same]
  omega

theorem first_of_block (valid : index < layout.count) :
    number layout.cluster.address ||| shl index layout.shift =
      number layout.cluster.address + index * layout.extent := by
  have below : index * layout.extent < layout.cluster.extent := by
    rw [extent_cluster]
    exact Nat.mul_lt_mul_of_pos_right valid layout.extent_pos
  have small : index * layout.extent < 2 ^ 128 := by
    refine Nat.lt_of_lt_of_le below (Nat.pow_le_pow_right (by decide) ?_)
    exact Nat.le_trans (Nat.sub_le _ _) (IpAddr.hostBits_le _)
  rcases layout.cluster.aligned with ⟨factor, same⟩
  rw [shl, ← extent, Nat.mod_eq_of_lt small, same, Nat.two_pow_add_eq_or_of_lt below]

theorem block_spec (valid : index < layout.count) :
    ∃ cidr, layout.block index = .ok cidr ∧ layout.IsBlock index cidr := by
  have bounded : layout.nodeMask ≤ (sibling layout.cluster.address
      (number layout.cluster.address ||| shl index layout.shift)).hostBits := by
    rw [hostBits_sibling]
    exact layout.bounded
  rw [block, if_neg (Nat.not_le.mpr valid), Prefix.new, dif_pos bounded]
  refine ⟨_, rfl, ⟨valid, by simp, ?_, rfl⟩⟩
  have inside : number layout.cluster.address + index * layout.extent <
      2 ^ layout.cluster.address.hostBits := by
    have whole := layout.last_cluster
    have last := layout.cluster.last_lt
    have below := Nat.mul_lt_mul_of_pos_right valid layout.extent_pos
    omega
  have small : number layout.cluster.address + index * layout.extent < 2 ^ 128 :=
    Nat.lt_of_lt_of_le inside (Nat.pow_le_pow_right (by decide) (IpAddr.hostBits_le _))
  have aligned : layout.extent ∣ number layout.cluster.address + index * layout.extent := by
    refine Nat.dvd_add (Nat.dvd_trans (Nat.pow_dvd_pow 2 ?_) layout.cluster.aligned)
      (Nat.dvd_mul_left _ _)
    have deeper := layout.deeper
    rw [shift]
    omega
  simp only [hostBits_sibling, first_of_block valid]
  rw [number_sibling inside, ← shift, shl_shr small, ← extent, Nat.div_mul_cancel aligned,
    number_sibling (by rw [hostBits_sibling]; exact inside)]

theorem isBlock_of_block (found : layout.block index = .ok cidr) : layout.IsBlock index cidr := by
  by_cases valid : index < layout.count
  · rcases block_spec valid with ⟨other, same, isBlock⟩
    cases found.symm.trans same
    exact isBlock
  · rw [block, if_pos (Nat.not_lt.mp valid)] at found
    cases found

theorem contains_iff (isBlock : layout.IsBlock index cidr) {address : IpAddr} :
    cidr.Contains address ↔ layout.index address = .ok index := by
  have last := isBlock.last
  have positive := layout.extent_pos
  rw [Prefix.Contains, isBlock.family, isBlock.first, Layout.index]
  constructor
  · rintro ⟨family, low, high⟩
    rw [if_neg (not_or.mpr ⟨not_not.mpr family, by omega⟩), shr, ← extent]
    refine congrArg Except.ok (Nat.div_eq_of_lt_le ?_ ?_)
    · omega
    · rw [Nat.add_one_mul]
      omega
  · intro found
    split_ifs at found with outside
    rcases not_or.mp outside with ⟨family, within⟩
    rw [shr, ← extent] at found
    have split := Nat.div_add_mod (number address - number layout.cluster.address) layout.extent
    have rest := Nat.mod_lt (number address - number layout.cluster.address) positive
    rw [Except.ok.inj found, Nat.mul_comm] at split
    exact ⟨not_not.mp family, by omega, by omega⟩

theorem interval_eq_error (outside : ¬layout.cluster.Overlaps cidr) :
    ∃ failure, layout.interval cidr = .error failure := by
  rw [Prefix.overlaps_iff] at outside
  refine ⟨_, if_pos ?_⟩
  by_contra inside
  simp only [not_or, not_not, Nat.not_lt] at inside
  exact outside ⟨inside.1.symm, inside.2.2, inside.2.1⟩

theorem interval_spec (meets : layout.cluster.Overlaps cidr) : ∃ first last,
    layout.interval cidr = .ok (first, last) ∧ ∀ index block, layout.IsBlock index block →
      ((first ≤ index ∧ index ≤ last) ↔ block.Overlaps cidr) := by
  rcases Prefix.overlaps_iff.mp meets with ⟨family, low, high⟩
  have inside : ¬(cidr.address.isIpv4 ≠ layout.cluster.address.isIpv4 ∨
      layout.cluster.last < number cidr.address ∨ cidr.last < number layout.cluster.address) :=
    not_or.mpr ⟨not_not.mpr family.symm, by omega⟩
  refine ⟨_, _, if_neg inside, ?_⟩
  intro index block isBlock
  have last := isBlock.last
  have positive := layout.extent_pos
  have order := cidr.first_le_last
  rw [Prefix.overlaps_iff, isBlock.family, isBlock.first, and_iff_right family, shr, shr, ← extent,
    Nat.le_div_iff_mul_le positive, ← Nat.lt_add_one_iff, Nat.div_lt_iff_lt_mul positive,
    Nat.add_one_mul]
  omega

/-- The indices and the blocks of a layout belong to each other. -/
structure Tiled (layout : Layout) : Prop where
  defined : ∀ index < layout.count, ∃ cidr, layout.block index = .ok cidr
  indexed : ∀ index cidr, layout.block index = .ok cidr → layout.index cidr.address = .ok index
  covered : ∀ address, layout.cluster.Contains address →
    ∃ index cidr, layout.index address = .ok index ∧ layout.block index = .ok cidr ∧
      cidr.Contains address
  inside : ∀ index cidr, layout.block index = .ok cidr →
    ∀ address, cidr.Contains address → layout.cluster.Contains address
  disjoint : ∀ index cidr other second, layout.block index = .ok cidr →
    layout.block other = .ok second → index ≠ other → ¬cidr.Overlaps second

theorem tiled (layout : Layout) : layout.Tiled := by
  refine ⟨?_, ?_, ?_, ?_, ?_⟩
  · intro index valid
    rcases block_spec valid with ⟨cidr, found, -⟩
    exact ⟨cidr, found⟩
  · intro index cidr found
    exact (contains_iff (isBlock_of_block found)).mp ⟨rfl, Nat.le_refl _, cidr.first_le_last⟩
  · rintro address ⟨family, low, high⟩
    have found : layout.index address =
        .ok (shr (number address - number layout.cluster.address) layout.shift) :=
      if_neg (not_or.mpr ⟨not_not.mpr family, by omega⟩)
    have valid : shr (number address - number layout.cluster.address) layout.shift <
        layout.count := by
      have whole := layout.last_cluster
      rw [shr, ← extent, Nat.div_lt_iff_lt_mul layout.extent_pos]
      omega
    rcases block_spec valid with ⟨cidr, block, isBlock⟩
    exact ⟨_, cidr, found, block, (contains_iff isBlock).mpr found⟩
  · rintro index cidr found address ⟨family, low, high⟩
    have isBlock := isBlock_of_block found
    have last := isBlock.last
    rw [isBlock.first] at low
    exact ⟨family.trans isBlock.family, by omega, by omega⟩
  · rintro index cidr other second found also different ⟨address, here, there⟩
    have first := (contains_iff (isBlock_of_block found)).mp here
    have again := (contains_iff (isBlock_of_block also)).mp there
    exact different (Except.ok.inj (first.symm.trans again))

end Layout

/-! ## Sets -/

structure CidrSet where
  layout : Layout
  used : List Bool
  next : Nat
  size : used.length = layout.count

/-- The loop that writes one value at some indices, all of which are those of blocks. -/
def fill (value : Bool) (used : List Bool) (indices : List Nat) : List Bool :=
  indices.foldl (fun used index => used.set index value) used

@[simp] theorem length_fill (value : Bool) (used : List Bool) (indices : List Nat) :
    (fill value used indices).length = used.length := by
  induction indices generalizing used with
  | nil => rfl
  | cons index indices induction => exact (induction _).trans List.length_set

theorem getElem?_fill (value : Bool) (used : List Bool) (indices : List Nat) {index : Nat}
    (valid : index < used.length) :
    (fill value used indices)[index]? = if index ∈ indices then some value else used[index]? := by
  induction indices generalizing used with
  | nil => rfl
  | cons head indices induction =>
      have rest := induction (used.set head value) (by simpa using valid)
      rw [fill, List.foldl_cons, ← fill, rest, List.getElem?_set]
      by_cases same : head = index
      · simp [same, valid]
      · simp [same, Ne.symm same]

namespace CidrSet

def depth : IpAddr → Nat
  | .v4 _ => 24
  | .v6 _ => 16

def new (cluster : Prefix) (nodeMask : Nat) : Except String CidrSet :=
  if deeper : cluster.bits ≤ nodeMask then
    if wide : cluster.address.hostBits < nodeMask ∨
        depth cluster.address < nodeMask - cluster.bits then
      .error "subnet mask size too big"
    else
      .ok
        { layout := ⟨cluster, nodeMask, deeper, Nat.not_lt.mp (not_or.mp wide).1⟩
          used := List.replicate (2 ^ (nodeMask - cluster.bits)) false
          next := 0
          size := List.length_replicate }
  else .error "node mask smaller than cluster"

def mark (value : Bool) (set : CidrSet) (cidr : Prefix) : Except String CidrSet := do
  let (first, last) ← set.layout.interval cidr
  return { set with
    used := fill value set.used (List.range' first (last + 1 - first))
    size := by rw [length_fill]; exact set.size }

def occupy : CidrSet → Prefix → Except String CidrSet := mark true

def release : CidrSet → Prefix → Except String CidrSet := mark false

/-- The index of the first block from the next one on that is not used. -/
def unused (set : CidrSet) : Option Nat :=
  ((List.range set.used.length).map fun step => (set.next + step) % set.used.length).find?
    (fun index => set.used[index]? == some false)

def allocateNext (set : CidrSet) : Except String (Prefix × CidrSet) :=
  match set.unused with
  | none => .error "there are no remaining CIDRs left to allocate"
  | some index => do
      let block ← set.layout.block index
      return (block, { set with
        used := set.used.set index true
        next := (index + 1) % set.used.length
        size := by rw [List.length_set]; exact set.size })

variable {cidr : Prefix} {set : CidrSet} {value : Bool} {layout : Layout} {block : Prefix}

theorem mark_eq_error (outside : ¬set.layout.cluster.Overlaps cidr) :
    ∃ failure, set.mark value cidr = .error failure := by
  rcases Layout.interval_eq_error outside with ⟨failure, refused⟩
  rw [mark, refused]
  exact ⟨failure, rfl⟩

/-- A CIDR that meets the cluster is written at exactly the blocks it overlaps. -/
theorem mark_spec
    (meets : set.layout.cluster.Overlaps cidr) : ∃ next, set.mark value cidr = .ok next ∧
      next.layout = set.layout ∧ ∀ index block, set.layout.block index = .ok block →
        next.used[index]? = if block.Overlaps cidr then some value else set.used[index]? := by
  rcases Layout.interval_spec meets with ⟨first, last, found, spec⟩
  rw [mark, found]
  refine ⟨_, rfl, rfl, ?_⟩
  intro index block isBlock
  have valid := (Layout.isBlock_of_block isBlock).valid
  rw [← set.size] at valid
  have member : index ∈ List.range' first (last + 1 - first) ↔ block.Overlaps cidr := by
    rw [← spec index block (Layout.isBlock_of_block isBlock), List.mem_range'_1]
    omega
  simp only [getElem?_fill value set.used _ valid, member]

theorem unused_eq_none :
    set.unused = none ↔ ∀ index < set.used.length, set.used[index]? ≠ some false := by
  rw [unused, List.find?_eq_none]
  constructor
  · intro none index valid
    refine fun free => none index (List.mem_map.mpr
      ⟨(index + (set.used.length - set.next % set.used.length)) % set.used.length,
        List.mem_range.mpr (Nat.mod_lt _ (by omega)), ?_⟩) (by simpa using free)
    have next := Nat.mod_lt set.next (Nat.lt_of_le_of_lt (Nat.zero_le index) valid)
    rw [← Nat.mod_add_mod, Nat.add_mod_mod]
    have around : set.next % set.used.length +
        (index + (set.used.length - set.next % set.used.length)) = index + set.used.length := by
      omega
    rw [around, Nat.add_mod_right, Nat.mod_eq_of_lt valid]
  · intro all index member
    rcases List.mem_map.mp member with ⟨step, inRange, rfl⟩
    have positive : 0 < set.used.length :=
      Nat.lt_of_le_of_lt (Nat.zero_le step) (List.mem_range.mp inRange)
    simpa using all _ (Nat.mod_lt _ positive)

/-! ## Runs -/

inductive Operation
  | occupy (cidr : Prefix)
  | release (cidr : Prefix)
  | allocateNext

/-- What has been taken and released, the latest first; a call that fails leaves no trace. -/
abbrev History := List (Bool × Prefix)

def perform (past : History × CidrSet) : Operation → History × CidrSet
  | .occupy cidr =>
      match past.2.occupy cidr with
      | .ok set => ((true, cidr) :: past.1, set)
      | .error _ => past
  | .release cidr =>
      match past.2.release cidr with
      | .ok set => ((false, cidr) :: past.1, set)
      | .error _ => past
  | .allocateNext =>
      match past.2.allocateNext with
      | .ok (block, set) => ((true, block) :: past.1, set)
      | .error _ => past

def run (set : CidrSet) (operations : List Operation) : History × CidrSet :=
  operations.foldl perform ([], set)

/-- The block overlaps a CIDR taken after the last release that overlaps the block. -/
def Held (block : Prefix) (history : History) : Prop :=
  ∃ newer cidr older, history = newer ++ (true, cidr) :: older ∧ block.Overlaps cidr ∧
    ∀ released, (false, released) ∈ newer → ¬block.Overlaps released

theorem held_cons {taken : Bool} {history : History} :
    Held block ((taken, cidr) :: history) ↔
      if block.Overlaps cidr then taken = true else Held block history := by
  constructor
  · rintro ⟨newer, found, older, same, overlaps, kept⟩
    cases newer with
    | nil =>
        cases same
        rw [if_pos overlaps]
    | cons head newer =>
        cases same
        split_ifs with meets
        · cases taken with
          | false => exact absurd meets (kept cidr List.mem_cons_self)
          | true => rfl
        · exact ⟨newer, found, older, rfl, overlaps,
            fun released member => kept released (List.mem_cons_of_mem _ member)⟩
  · split_ifs with meets
    · rintro rfl
      exact ⟨[], cidr, history, rfl, meets, by simp⟩
    · rintro ⟨newer, found, older, rfl, overlaps, kept⟩
      refine ⟨(taken, cidr) :: newer, found, older, rfl, overlaps, ?_⟩
      intro released member
      rcases List.mem_cons.mp member with same | member
      · cases same
        exact meets
      · exact kept released member

/-- The bit of a block says whether the block is held. -/
structure Tracks (layout : Layout) (past : History × CidrSet) : Prop where
  kept : past.2.layout = layout
  used : ∀ index block, layout.block index = .ok block →
    (past.2.used[index]? = some true ↔ Held block past.1)

variable {past : History × CidrSet}

theorem Tracks.marked (tracks : Tracks layout past) (marked : past.2.mark value cidr = .ok set) :
    Tracks layout ((value, cidr) :: past.1, set) := by
  rcases tracks with ⟨rfl, used⟩
  by_cases meets : past.2.layout.cluster.Overlaps cidr
  · rcases mark_spec meets with ⟨found, same, kept, bits⟩
    cases marked.symm.trans same
    refine ⟨kept, ?_⟩
    intro index block isBlock
    rw [bits index block isBlock, held_cons]
    split_ifs with overlaps
    · exact ⟨Option.some.inj, congrArg some⟩
    · exact used index block isBlock
  · rcases mark_eq_error meets with ⟨failure, refused⟩
    cases marked.symm.trans refused

/-- An allocated block was not used, and it alone has been changed. -/
theorem allocateNext_spec {next : CidrSet} (allocated : set.allocateNext = .ok (block, next)) :
    ∃ index,
      set.layout.block index = .ok block ∧ set.used[index]? = some false ∧
        next.layout = set.layout ∧ next.used = set.used.set index true := by
  rw [allocateNext] at allocated
  cases found : set.unused with
  | none =>
      rw [found] at allocated
      cases allocated
  | some index =>
      rw [found] at allocated
      rcases bind_eq_ok.mp allocated with ⟨cidr, isBlock, same⟩
      cases same
      exact ⟨index, isBlock, by simpa using List.find?_some found, rfl, rfl⟩

theorem allocateNext_eq_error :
    (∃ failure, set.allocateNext = .error failure) ↔ set.unused = none := by
  cases found : set.unused with
  | none =>
      rw [allocateNext, found]
      exact ⟨fun _ => rfl, fun _ => ⟨_, rfl⟩⟩
  | some index =>
      have free : set.used[index]? = some false := by simpa using List.find?_some found
      have valid : index < set.layout.count := by
        rw [← set.size]
        exact (List.getElem?_eq_some_iff.mp free).1
      rcases Layout.block_spec valid with ⟨cidr, isBlock, -⟩
      simp [allocateNext, found, isBlock, bind, Except.bind, pure, Except.pure]

theorem Tracks.allocated (tracks : Tracks layout past)
    (allocated : past.2.allocateNext = .ok (cidr, set)) :
    Tracks layout ((true, cidr) :: past.1, set) := by
  rcases tracks with ⟨rfl, used⟩
  rcases allocateNext_spec allocated with ⟨index, isBlock, free, kept, bits⟩
  refine ⟨kept, ?_⟩
  intro other block found
  have valid := (List.getElem?_eq_some_iff.mp free).1
  rw [held_cons, bits, List.getElem?_set]
  by_cases same : index = other
  · subst same
    cases found.symm.trans isBlock
    rw [if_pos rfl, if_pos valid,
      if_pos (Prefix.overlaps_iff.mpr ⟨rfl, cidr.first_le_last, cidr.first_le_last⟩)]
    simp
  · rw [if_neg same, if_neg (past.2.layout.tiled.disjoint other block index cidr found isBlock
      (Ne.symm same))]
    exact used other block found

theorem Tracks.perform (tracks : Tracks layout past)
    (operation : Operation) : Tracks layout (perform past operation) := by
  unfold CidrSet.perform
  split
  · split
    · exact tracks.marked ‹_›
    · exact tracks
  · split
    · exact tracks.marked ‹_›
    · exact tracks
  · split
    · exact tracks.allocated ‹_›
    · exact tracks

theorem Tracks.run (operations : List Operation) (past : History × CidrSet)
    (tracks : Tracks layout past) : Tracks layout (operations.foldl CidrSet.perform past) := by
  induction operations generalizing past with
  | nil => exact tracks
  | cons operation operations induction => exact induction _ (tracks.perform operation)

theorem tracks_new {cluster : Prefix} {nodeMask : Nat}
    (accepted : new cluster nodeMask = .ok set) : Tracks set.layout ([], set) := by
  have fresh : set.used = List.replicate (2 ^ (nodeMask - cluster.bits)) false := by
    unfold new at accepted
    split_ifs at accepted
    cases accepted
    rfl
  refine ⟨rfl, fun index block _ => ⟨fun found => ?_, ?_⟩⟩
  · rw [fresh] at found
    cases List.eq_of_mem_replicate (List.mem_of_getElem? found)
  · rintro ⟨newer, cidr, older, same, -⟩
    simp at same

/-- After any operations the blocks tile the cluster, a block that is allocated overlaps nothing
taken since the last release that overlaps it, allocation fails exactly when no block is left,
and occupying a CIDR marks the blocks it overlaps. -/
theorem blocks_managed (cluster : Prefix) (nodeMask : Nat) (first : CidrSet)
    (accepted : new cluster nodeMask = .ok first) (operations : List Operation) :
    first.layout.Tiled ∧
    (∀ block next, (run first operations).2.allocateNext = .ok (block, next) →
      (∃ index, first.layout.block index = .ok block) ∧
        ¬Held block (run first operations).1) ∧
    ((∃ failure, (run first operations).2.allocateNext = .error failure) ↔
      ∀ index block, first.layout.block index = .ok block →
        Held block (run first operations).1) ∧
    (∀ cidr next, (run first operations).2.occupy cidr = .ok next →
      ∀ index block, first.layout.block index = .ok block →
        next.used[index]? = if block.Overlaps cidr then some true
          else (run first operations).2.used[index]?) ∧
    ∀ cidr failure, (run first operations).2.occupy cidr = .error failure →
      ∀ index block, first.layout.block index = .ok block → ¬block.Overlaps cidr := by
  have tracks : Tracks first.layout (run first operations) :=
    Tracks.run operations _ (tracks_new accepted)
  generalize run first operations = past at tracks
  rcases tracks with ⟨same, used⟩
  have size := past.2.size
  rw [same] at size
  refine ⟨first.layout.tiled, ?_, ?_, ?_, ?_⟩
  · intro block next allocated
    rcases allocateNext_spec allocated with ⟨index, isBlock, free, -, -⟩
    rw [same] at isBlock
    refine ⟨⟨index, isBlock⟩, fun held => ?_⟩
    rw [(used index block isBlock).mpr held] at free
    cases free
  · rw [allocateNext_eq_error, unused_eq_none, size]
    constructor
    · intro full index block isBlock
      have valid := (Layout.isBlock_of_block isBlock).valid
      refine (used index block isBlock).mp ?_
      have notFree := full index valid
      rw [List.getElem?_eq_getElem (size ▸ valid)] at notFree ⊢
      simpa using notFree
    · intro all index valid free
      rcases Layout.block_spec valid with ⟨block, isBlock, -⟩
      rw [(used index block isBlock).mpr (all index block isBlock)] at free
      cases free
  · intro cidr next occupied index block isBlock
    rw [← same] at isBlock
    by_cases meets : past.2.layout.cluster.Overlaps cidr
    · rcases mark_spec meets with ⟨found, again, -, bits⟩
      cases occupied.symm.trans again
      exact bits index block isBlock
    · rcases mark_eq_error meets with ⟨failure, refused⟩
      cases occupied.symm.trans refused
  · rintro cidr failure refused index block isBlock ⟨address, here, there⟩
    have meets : past.2.layout.cluster.Overlaps cidr := by
      rw [same]
      exact ⟨address, first.layout.tiled.inside index block isBlock address here, there⟩
    rcases mark_spec meets with ⟨next, occupied, -⟩
    cases occupied.symm.trans refused

def site : Prefix := ⟨.v4 0x0a000000, 23, by decide, by decide⟩

def lowQuarter : Prefix := ⟨.v4 0x0a000000, 26, by decide, by decide⟩

def nextQuarter : Prefix := ⟨.v4 0x0a000040, 26, by decide, by decide⟩

def siteSet : CidrSet :=
  { layout := ⟨site, 24, by decide, by decide⟩, used := [false, false], next := 0, size := rfl }

theorem blocks_managed_site :
    new site 24 = .ok siteSet ∧
      Held ⟨.v4 0x0a000000, 24, by decide, by decide⟩ (run siteSet [.occupy lowQuarter]).1 ∧
      siteSet.layout.Tiled :=
  ⟨rfl, ⟨[], lowQuarter, [], rfl, by decide, by simp⟩,
    (blocks_managed site 24 siteSet rfl [.occupy lowQuarter]).1⟩

/-- A quarter of a block is occupied and another quarter is released: the block is allocated
although the first quarter has never been released. -/
theorem allocated_over_occupied :
    (∃ set, (run siteSet [.occupy lowQuarter, .release nextQuarter]).2.allocateNext =
        .ok (⟨.v4 0x0a000000, 24, by decide, by decide⟩, set)) ∧
      Prefix.Overlaps ⟨.v4 0x0a000000, 24, by decide, by decide⟩ lowQuarter ∧
      ¬nextQuarter.Overlaps lowQuarter := by
  refine ⟨⟨_, rfl⟩, by decide, by decide⟩

end CidrSet

end FlowSdn.Ipam.Blocks
