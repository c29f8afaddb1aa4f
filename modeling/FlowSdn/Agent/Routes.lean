import FlowSdn.Agent.View
import FlowSdn.Foundation.FiniteMap
import FlowSdn.Net.Display

/-! # Direct routes to the pods of other nodes

Every agent of a cluster gives each node the pod CIDRs of its specification, and in the
families where pools are derived the CIDR that follows from the node's addresses. Two nodes
can end up with CIDRs that overlap; then neither gets a route.
-/

namespace FlowSdn.Agent.Routes

open Net OrderedMap Words

abbrev Cidr := IpAddr × U8

structure DesiredRoute where
  destination : IpAddr
  prefixLength : U8
  gateway : IpAddr
  node : String
  deriving DecidableEq

namespace DesiredRoute

instance : Ord DesiredRoute where
  compare := compareLex (compareOn destination) (compareLex (compareOn prefixLength)
    (compareLex (compareOn gateway) (compareOn node)))

instance : Std.TransOrd DesiredRoute := inferInstanceAs (Std.TransCmp (compareLex _ _))

instance : Std.LawfulEqOrd DesiredRoute where
  eq_of_compare {left right} equal := by
    cases left
    cases right
    simp_all [compare]

end DesiredRoute

structure Derive where
  v4 : Bool := false
  v6 : Bool := false
  deriving DecidableEq

def isIpv6 (address : IpAddr) : Bool := !address.isIpv4

def firstIpv4 (node : NodeInfo) : Option U32 :=
  node.internalIps.findSome? fun
    | .v4 address => some address
    | .v6 _ => none

def firstIpv6 (node : NodeInfo) : Option U128 :=
  node.internalIps.findSome? fun
    | .v4 _ => none
    | .v6 address => some address

def allocCidrV4 (node : NodeInfo) : Option Cidr :=
  match node.podCidrs.find? (!isIpv6 ·.1) with
  | some cidr => some cidr
  | none => (firstIpv4 node).map fun address =>
      (.v4 (0x0a#8 ++ address.setWidth 8 ++ 0#16), 16)

/-- The four bytes that a derived IPv6 CIDR ends its prefix with. -/
def derivedTail (node : NodeInfo) : Option U32 :=
  match allocCidrV4 node with
  | some (.v4 address, _) => some address
  | _ => (firstIpv6 node).map (·.setWidth 32)

def allocCidr (node : NodeInfo) (v6 : Bool) : Option Cidr :=
  if ¬v6 then allocCidrV4 node
  else
    match node.podCidrs.find? (isIpv6 ·.1) with
    | some cidr => some cidr
    | none => (derivedTail node).map fun tail => (.v6 (0xf00d#16 ++ 0#48 ++ tail ++ 0#32), 96)

def addDerived (node : NodeInfo) (cidrs : List Cidr) (family : Bool × Bool) : List Cidr :=
  if family.2 ∧ ¬(cidrs.any (isIpv6 ·.1 == family.1)) then
    cidrs ++ (allocCidr node family.1).toList
  else cidrs

def nodeCidrs (node : NodeInfo) (derive : Derive) : List Cidr :=
  [(false, derive.v4), (true, derive.v6)].foldl (addDerived node) node.podCidrs

/-- Whether two CIDRs share an address: the same family, and equal under the shorter prefix. -/
def overlaps (left right : Cidr) : Bool :=
  let shorter := min left.2.toNat right.2.toNat
  match left.1, right.1 with
  | .v4 a, .v4 b => a &&& leadingMask 32 shorter == b &&& leadingMask 32 shorter
  | .v6 a, .v6 b => a &&& leadingMask 128 shorter == b &&& leadingMask 128 shorter
  | _, _ => false

structure RoutePlan where
  routes : List DesiredRoute
  collisions : List String
  deriving DecidableEq

structure Collision where
  first : String
  firstCidr : Cidr
  second : String
  secondCidr : Cidr

def cidrText (cidr : Cidr) : String := s!"{cidr.1.text}/{cidr.2.toNat}"

def Collision.text (collision : Collision) : String :=
  s!"nodes {collision.first} ({cidrText collision.firstCidr}) and {collision.second} " ++
    s!"({cidrText collision.secondCidr}) have overlapping pod CIDRs"

def Collision.refused (collision : Collision) : List (String × Cidr) :=
  [(collision.first, collision.firstCidr), (collision.second, collision.secondCidr)]

def collide (first second : NodeInfo × List Cidr) : List Collision :=
  first.2.flatMap fun left =>
    (second.2.filter (overlaps left)).map fun right =>
      ⟨first.1.name, left, second.1.name, right⟩

def collisions : List (NodeInfo × List Cidr) → List Collision
  | [] => []
  | first :: rest => rest.flatMap (collide first) ++ collisions rest

def gateway (node : NodeInfo) (cidr : Cidr) : Option IpAddr :=
  node.internalIps.find? (isIpv6 · == isIpv6 cidr.1)

def nodeRoutes (refused : List (String × Cidr)) (entry : NodeInfo × List Cidr) :
    List DesiredRoute :=
  entry.2.filterMap fun cidr =>
    if (entry.1.name, cidr) ∈ refused then none
    else (gateway entry.1 cidr).map fun gateway => ⟨cidr.1, cidr.2, gateway, entry.1.name⟩

def desiredRoutes (localNode : String) (nodes : List NodeInfo) (derive : Derive) : RoutePlan :=
  let cidrs := nodes.map fun node => (node, nodeCidrs node derive)
  let found := collisions cidrs
  let refused := found.flatMap Collision.refused
  let routes := (cidrs.filter (·.1.name ≠ localNode)).flatMap (nodeRoutes refused)
  { routes := (collect routes).toList, collisions := found.map Collision.text }

def Covers (cidr : Cidr) (address : IpAddr) : Prop :=
  address.masked cidr.2.toNat = cidr.1.masked cidr.2.toNat

/-- Two words agree on the shorter of two prefixes when some word has both. -/
theorem agree_iff {width : Nat} (left right : BitVec width) (first second : Nat) :
    left &&& leadingMask width (min first second) =
        right &&& leadingMask width (min first second) ↔
      ∃ word : BitVec width,
        word &&& leadingMask width first = left &&& leadingMask width first ∧
          word &&& leadingMask width second = right &&& leadingMask width second := by
  simp only [masked_eq_iff]
  constructor
  · intro agree
    rcases Nat.le_total first second with shorter | shorter
    · rw [Nat.min_eq_left shorter] at agree
      exact ⟨right, agree.symm, rfl⟩
    · rw [Nat.min_eq_right shorter] at agree
      exact ⟨left, rfl, agree⟩
  · rintro ⟨word, fromLeft, fromRight⟩
    rw [← leadingBits_eq_of_le (Nat.min_le_left first second) fromLeft]
    exact leadingBits_eq_of_le (Nat.min_le_right first second) fromRight

theorem overlaps_comm (left right : Cidr) : overlaps left right = overlaps right left := by
  rcases left with ⟨left | left, leftLength⟩ <;> rcases right with ⟨right | right, rightLength⟩ <;>
    simp only [overlaps, Nat.min_comm leftLength.toNat]
  · exact Bool.beq_comm
  · exact Bool.beq_comm

/-- The function finds exactly the CIDRs that share an address. -/
theorem overlaps_iff (left right : Cidr) :
    overlaps left right = true ↔ ∃ address, Covers left address ∧ Covers right address := by
  rcases left with ⟨left | left, leftLength⟩ <;> rcases right with ⟨right | right, rightLength⟩ <;>
    simp only [overlaps, Covers, beq_iff_eq, agree_iff, Bool.false_eq_true, false_iff]
  · constructor
    · rintro ⟨word, first, second⟩
      exact ⟨.v4 word, congrArg IpAddr.v4 first, congrArg IpAddr.v4 second⟩
    · rintro ⟨word | word, first, second⟩
      · exact ⟨word, IpAddr.v4.inj first, IpAddr.v4.inj second⟩
      · cases first
  · rintro ⟨word | word, first, second⟩
    · cases second
    · cases first
  · rintro ⟨word | word, first, second⟩
    · cases first
    · cases second
  · constructor
    · rintro ⟨word, first, second⟩
      exact ⟨.v6 word, congrArg IpAddr.v6 first, congrArg IpAddr.v6 second⟩
    · rintro ⟨word | word, first, second⟩
      · cases first
      · exact ⟨word, IpAddr.v6.inj first, IpAddr.v6.inj second⟩

/-! ## What is refused -/

def Clash (first second : NodeInfo × List Cidr) (cidr : Cidr) : Prop :=
  cidr ∈ first.2 ∧ ∃ other ∈ second.2, overlaps cidr other = true

theorem mem_refused_collide {first second : NodeInfo × List Cidr} {key : String × Cidr} :
    key ∈ (collide first second).flatMap Collision.refused ↔
      (first.1.name = key.1 ∧ Clash first second key.2) ∨
        (second.1.name = key.1 ∧ Clash second first key.2) := by
  constructor
  · intro member
    rcases List.mem_flatMap.mp member with ⟨collision, found, refused⟩
    rcases List.mem_flatMap.mp found with ⟨left, inFirst, found⟩
    rcases List.mem_map.mp found with ⟨right, matching, rfl⟩
    rcases List.mem_filter.mp matching with ⟨inSecond, overlap⟩
    rcases List.mem_pair.mp refused with rfl | rfl
    · exact .inl ⟨rfl, inFirst, right, inSecond, overlap⟩
    · exact .inr ⟨rfl, inSecond, left, inFirst, (overlaps_comm _ _).trans overlap⟩
  · have listed : ∀ left ∈ first.2, ∀ right ∈ second.2, overlaps left right = true →
        ⟨first.1.name, left, second.1.name, right⟩ ∈ collide first second := by
      intro left inFirst right inSecond overlap
      exact List.mem_flatMap.mpr ⟨left, inFirst,
        List.mem_map.mpr ⟨right, List.mem_filter.mpr ⟨inSecond, overlap⟩, rfl⟩⟩
    rcases key with ⟨name, cidr⟩
    rintro (⟨rfl, inFirst, right, inSecond, overlap⟩ | ⟨rfl, inSecond, left, inFirst, overlap⟩)
    · exact List.mem_flatMap.mpr ⟨_, listed cidr inFirst right inSecond overlap, by
        simp [Collision.refused]⟩
    · rw [overlaps_comm] at overlap
      exact List.mem_flatMap.mpr ⟨_, listed left inFirst cidr inSecond overlap, by
        simp [Collision.refused]⟩

theorem mem_refused_collisions {entries : List (NodeInfo × List Cidr)} {key : String × Cidr}
    (distinct : (entries.map (·.1.name)).Nodup) :
    key ∈ (collisions entries).flatMap Collision.refused ↔
      ∃ entry ∈ entries, ∃ other ∈ entries, entry.1.name = key.1 ∧
        other.1.name ≠ entry.1.name ∧ Clash entry other key.2 := by
  induction entries with
  | nil => simp [collisions]
  | cons first rest induction =>
      rw [List.map_cons, List.nodup_cons] at distinct
      have apart : ∀ entry ∈ rest, entry.1.name ≠ first.1.name := by
        intro entry member same
        exact distinct.1 (List.mem_map.mpr ⟨entry, member, same⟩)
      rw [collisions, List.flatMap_append, List.mem_append, induction distinct.2,
        List.flatMap_assoc]
      constructor
      · rintro (member | ⟨entry, listed, other, also, found⟩)
        · rcases List.mem_flatMap.mp member with ⟨second, listed, refused⟩
          rcases mem_refused_collide.mp refused with ⟨same, clash⟩ | ⟨same, clash⟩
          · exact ⟨first, List.mem_cons_self, second, List.mem_cons_of_mem _ listed, same,
              apart second listed, clash⟩
          · exact ⟨second, List.mem_cons_of_mem _ listed, first, List.mem_cons_self, same,
              (apart second listed).symm, clash⟩
        · exact ⟨entry, List.mem_cons_of_mem _ listed, other, List.mem_cons_of_mem _ also, found⟩
      · rintro ⟨entry, listed, other, also, same, different, clash⟩
        rcases List.mem_cons.mp listed with rfl | later
        · rcases List.mem_cons.mp also with rfl | behind
          · exact absurd rfl different
          · exact .inl (List.mem_flatMap.mpr
              ⟨other, behind, mem_refused_collide.mpr (.inl ⟨same, clash⟩)⟩)
        · rcases List.mem_cons.mp also with rfl | behind
          · exact .inl (List.mem_flatMap.mpr
              ⟨entry, later, mem_refused_collide.mpr (.inr ⟨same, clash⟩)⟩)
          · exact .inr ⟨entry, later, other, behind, same, different, clash⟩

/-! ## What is routed -/

/-- The CIDR shares no address with the CIDRs of any other node. -/
def Alone (nodes : List NodeInfo) (derive : Derive) (node : NodeInfo) (cidr : Cidr) : Prop :=
  ∀ other ∈ nodes, other.name ≠ node.name → ∀ taken ∈ nodeCidrs other derive,
    ¬∃ address, Covers cidr address ∧ Covers taken address

theorem mem_refused_iff {nodes : List NodeInfo} {derive : Derive} {node : NodeInfo} {cidr : Cidr}
    (distinct : (nodes.map (·.name)).Nodup) (listed : node ∈ nodes)
    (own : cidr ∈ nodeCidrs node derive) :
    (node.name, cidr) ∈ (collisions (nodes.map fun node => (node, nodeCidrs node derive))).flatMap
        Collision.refused ↔ ¬Alone nodes derive node cidr := by
  have names : ((nodes.map fun node => (node, nodeCidrs node derive)).map (·.1.name)).Nodup := by
    rw [List.map_map]
    exact distinct
  rw [mem_refused_collisions names]
  constructor
  · rintro ⟨entry, inEntries, other, alsoEntry, same, different, -, taken, used, overlap⟩ alone
    rcases List.mem_map.mp inEntries with ⟨found, _, rfl⟩
    rcases List.mem_map.mp alsoEntry with ⟨second, also, rfl⟩
    exact alone second also (fun equal => different (equal.trans same.symm)) taken used
      ((overlaps_iff _ _).mp overlap)
  · intro shared
    simp only [Alone, not_forall, not_not] at shared
    rcases shared with ⟨other, also, different, taken, used, overlap⟩
    exact ⟨_, List.mem_map_of_mem listed, _, List.mem_map_of_mem also, rfl, different, own, taken,
      used, (overlaps_iff _ _).mpr overlap⟩

theorem mem_routes {localNode : String} {nodes : List NodeInfo} {derive : Derive}
    {route : DesiredRoute} (distinct : (nodes.map (·.name)).Nodup) :
    route ∈ (desiredRoutes localNode nodes derive).routes ↔
      ∃ node ∈ nodes, node.name ≠ localNode ∧ ∃ cidr ∈ nodeCidrs node derive,
        Alone nodes derive node cidr ∧ ∃ address, gateway node cidr = some address ∧
          route = ⟨cidr.1, cidr.2, address, node.name⟩ := by
  rw [desiredRoutes, Std.ExtTreeSet.mem_toList, mem_collect, List.mem_flatMap]
  constructor
  · rintro ⟨entry, kept, member⟩
    rcases List.mem_filter.mp kept with ⟨inEntries, remote⟩
    rcases List.mem_map.mp inEntries with ⟨node, listed, rfl⟩
    rcases List.mem_filterMap.mp member with ⟨cidr, own, made⟩
    split_ifs at made with refused
    rcases Option.map_eq_some_iff.mp made with ⟨address, found, rfl⟩
    rw [mem_refused_iff distinct listed own, not_not] at refused
    exact ⟨node, listed, by simpa using remote, cidr, own, refused, address, found, rfl⟩
  · rintro ⟨node, listed, remote, cidr, own, alone, address, found, rfl⟩
    refine ⟨(node, nodeCidrs node derive), List.mem_filter.mpr
      ⟨List.mem_map_of_mem listed, by simpa using remote⟩,
      List.mem_filterMap.mpr ⟨cidr, own, ?_⟩⟩
    have kept := (mem_refused_iff distinct listed own).not.mpr (not_not.mpr alone)
    rw [if_neg kept, found]
    rfl

/-- Nodes with different names are routed to only for CIDRs that share no address with those of
another node, all of these are routed when the node has a gateway of their family, and the
order of the nodes does not matter. -/
theorem desiredRoutes_direct (localNode : String) (nodes : List NodeInfo) (derive : Derive)
    (distinct : (nodes.map (·.name)).Nodup) :
    (∀ route ∈ (desiredRoutes localNode nodes derive).routes, ∀ other ∈ nodes,
      other.name ≠ route.node → ∀ taken ∈ nodeCidrs other derive,
        ¬∃ address, Covers (route.destination, route.prefixLength) address ∧
          Covers taken address) ∧
    (∀ node ∈ nodes, node.name ≠ localNode → ∀ cidr ∈ nodeCidrs node derive,
      Alone nodes derive node cidr → ∀ address, gateway node cidr = some address →
        ⟨cidr.1, cidr.2, address, node.name⟩ ∈
          (desiredRoutes localNode nodes derive).routes) ∧
    ∀ reordered, reordered.Perm nodes →
      (desiredRoutes localNode reordered derive).routes =
        (desiredRoutes localNode nodes derive).routes := by
  refine ⟨?_, ?_, ?_⟩
  · intro route member other also different taken used
    rcases (mem_routes distinct).mp member with ⟨node, -, -, cidr, -, alone, address, -, rfl⟩
    exact alone other also different taken used
  · intro node listed remote cidr own alone address found
    exact (mem_routes distinct).mpr ⟨node, listed, remote, cidr, own, alone, address, found, rfl⟩
  · intro reordered same
    refine congrArg Std.ExtTreeSet.toList (Std.ExtTreeSet.ext_mem fun route => ?_)
    have still : (reordered.map (·.name)).Nodup := (same.map _).nodup_iff.mpr distinct
    rw [← Std.ExtTreeSet.mem_toList, ← Std.ExtTreeSet.mem_toList]
    refine (mem_routes still).trans (Iff.trans ?_ (mem_routes distinct).symm)
    simp only [Alone, same.mem_iff]

def subnets : List NodeInfo :=
  [("a", 0xc0a80105), ("b", 0xc0a80205), ("c", 0xc0a80307)].map fun node =>
    { name := node.1, internalIps := [.v4 node.2] }

theorem desiredRoutes_direct_subnets :
    (desiredRoutes "d" subnets ⟨true, false⟩).routes =
        [⟨.v4 0x0a070000, 16, .v4 0xc0a80307, "c"⟩] ∧
      (desiredRoutes "d" subnets.reverse ⟨true, false⟩).routes =
        (desiredRoutes "d" subnets ⟨true, false⟩).routes :=
  ⟨by decide +kernel, (desiredRoutes_direct "d" subnets ⟨true, false⟩ (by decide)).2.2 _
    (List.reverse_perm _)⟩

end FlowSdn.Agent.Routes
