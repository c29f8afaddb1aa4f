import FlowSdn.Ipam.Families

/-! # Pairs of addresses

An allocation takes one address of every enabled family or none at all: the IPv6 address that was
taken first is given back when IPv4 has none left.
-/

namespace FlowSdn.HostIpam

open Net OrderedMap

namespace HostScope

variable {before after : HostScope} {owner : String}

/-! ## Counts -/

variable {given : Option IpAddr}

theorem Took.mem_free (took : Took owner given before after)
    {address : IpAddr} : address ∈ after.free ↔ address ∈ before.free ∧ given ≠ some address := by
  simp only [HostScope.free, Finset.mem_filter, took.range, took.excluded]
  constructor
  · rintro ⟨listed, unowned, plain⟩
    have apart : given ≠ some address := by
      intro same
      exact unowned (mem_of_getElem? (took.owned address same))
    refine ⟨⟨listed, ?_, plain⟩, apart⟩
    rw [Std.ExtTreeMap.mem_iff_isSome_getElem?, ← took.others address plain apart,
      ← Std.ExtTreeMap.mem_iff_isSome_getElem?]
    exact unowned
  · rintro ⟨⟨listed, unowned, plain⟩, apart⟩
    refine ⟨listed, ?_, plain⟩
    rw [Std.ExtTreeMap.mem_iff_isSome_getElem?, took.others address plain apart,
      ← Std.ExtTreeMap.mem_iff_isSome_getElem?]
    exact unowned

theorem Took.available (took : Took owner given before after)
    (soundBefore : before.Sound) (soundAfter : after.Sound) :
    after.summary.available + given.toFinset.card = before.summary.available := by
  rw [summary_available soundBefore, summary_available soundAfter]
  have split : before.free = after.free ∪ given.toFinset := by
    ext address
    rw [Finset.mem_union, took.mem_free, Option.mem_toFinset, Option.mem_def]
    constructor
    · intro free
      by_cases same : given = some address
      · exact .inr same
      · exact .inl ⟨free, same⟩
    · rintro (⟨free, _⟩ | same)
      · exact free
      · exact took.fresh address same
  have apart : Disjoint after.free given.toFinset := by
    rw [Finset.disjoint_left]
    intro address free member
    rw [Option.mem_toFinset, Option.mem_def] at member
    exact (took.mem_free.mp free).2 member
  rw [split, Finset.card_union_of_disjoint apart]

/-- What an allocation does to a pool, with its bitmap and its count. -/
structure Exchange (owner : String) (given : Option IpAddr) (before after : HostScope) : Prop
    extends Took owner given before after where
  bits : ∀ address : IpAddr, address ∉ before.excluded → given ≠ some address →
    after.isAllocated address = before.isAllocated address
  bit : ∀ address, given = some address →
    before.isAllocated address = false ∧ after.isAllocated address = true
  available : after.summary.available + given.toFinset.card = before.summary.available

theorem Took.exchange (took : Took owner given before after)
    (soundBefore : before.Sound) (soundAfter : after.Sound) :
    Exchange owner given before after where
  toTook := took
  bits address plain apart := by
    rw [Bool.eq_iff_iff, isAllocated_iff_mem soundBefore, isAllocated_iff_mem soundAfter,
      Std.ExtTreeMap.mem_iff_isSome_getElem?, Std.ExtTreeMap.mem_iff_isSome_getElem?,
      took.others address plain apart]
  bit address same := by
    have free := not_mem_of_free (took.fresh address same)
    have owned : address ∈ after.owners := mem_of_getElem? (took.owned address same)
    rw [← Bool.not_eq_true, isAllocated_iff_mem soundBefore, isAllocated_iff_mem soundAfter]
    exact ⟨free.1, owned⟩
  available := took.available soundBefore soundAfter

end HostScope

inductive Ipam.Request
  | allocate (address : IpAddr) (owner : String)
  | allocateNextFamily (ipv6 : Bool) (owner : String)
  | allocateNext (owner : String)
  | exclude (address : IpAddr) (owner : String)
  | release (address : IpAddr)
  deriving DecidableEq

namespace Ipam

variable {ipam : Ipam}

/-- The pools after a request; none when it does not come to an end. -/
def perform (ipam : Ipam) : Request → Option Ipam
  | .allocate address owner => some (ipam.allocate address owner).2
  | .allocateNextFamily ipv6 owner => (ipam.allocateNextFamily ipv6 owner).map (·.2)
  | .allocateNext owner => (ipam.allocateNext owner).map (·.2)
  | .exclude address owner => some (ipam.excludeIp address owner).2
  | .release address => some (ipam.release address).2

def performAll (ipam : Ipam) (requests : List Request) : Option Ipam :=
  requests.foldlM perform ipam

open HostScope

/-! ## Every reachable state -/

theorem sound_excludeIp (sound : ipam.Sound) (address : IpAddr) (owner : String) :
    (ipam.excludeIp address owner).2.Sound := by
  unfold excludeIp
  split
  · exact sound
  · rename_i scope found
    have soundScope : (scope.excludeIp address owner).Sound :=
      HostScope.sound_excludeIp (sound _ _ found).1 address owner
    exact sound_setFamily sound found soundScope rfl

theorem sound_perform (sound : ipam.Sound) (request : Request) :
    ∃ after, ipam.perform request = some after ∧ after.Sound := by
  cases request with
  | allocate address owner => exact ⟨_, rfl, (evolves_allocate sound address owner).sound⟩
  | exclude address owner => exact ⟨_, rfl, sound_excludeIp sound address owner⟩
  | release address => exact ⟨_, rfl, (evolves_release sound address).sound⟩
  | allocateNext owner =>
      rcases allocateNext_paired sound owner with ⟨result, after, ended, _, soundAfter⟩
      exact ⟨after, by rw [perform, ended]; rfl, soundAfter⟩
  | allocateNextFamily ipv6 owner =>
      have ended : ∃ result after, ipam.allocateNextFamily ipv6 owner = some (result, after) := by
        unfold allocateNextFamily
        split
        · exact ⟨_, _, rfl⟩
        · rename_i scope found
          have present : ipam.pool (!ipv6) = some scope := by
            cases ipv6 <;> exact found
          rcases allocateNext_ends (sound _ _ present).1 owner with ⟨result, next, ended, _⟩
          exact ⟨_, _, by rw [ended]; rfl⟩
      rcases ended with ⟨result, after, ended⟩
      exact ⟨after, by rw [perform, ended]; rfl, (evolves_allocateNextFamily sound ended).1.sound⟩

theorem sound_performAll (sound : ipam.Sound) (requests : List Request) :
    ∃ after, ipam.performAll requests = some after ∧ after.Sound := by
  induction requests generalizing ipam with
  | nil => exact ⟨ipam, rfl, sound⟩
  | cons request requests induction =>
      rcases sound_perform sound request with ⟨next, performed, soundNext⟩
      rcases induction soundNext with ⟨after, rest, soundAfter⟩
      refine ⟨after, ?_, soundAfter⟩
      rw [performAll, List.foldlM_cons, performed]
      exact rest

theorem rel_exchange {after : Ipam} {given : Option IpAddr} (soundBefore : ipam.Sound)
    (soundAfter : after.Sound) {family : Bool}
    (took : Option.Rel (Took owner given) (ipam.pool family) (after.pool family)) :
    Option.Rel (Exchange owner given) (ipam.pool family) (after.pool family) := by
  cases old : ipam.pool family with
  | none =>
      rw [old] at took
      generalize after.pool family = next at took ⊢
      cases took
      exact .none
  | some scope =>
      rcases exists_of_rel took old with ⟨next, new, taken⟩
      rw [new]
      exact .some (taken.exchange (soundBefore _ _ old).1 (soundAfter _ _ new).1)

/-- After any requests to pools that were put together, an allocation of a pair ends. When it
fails, every pool holds what it held but for exclusions that are marked as taken; when it
succeeds, every enabled family has given one address that was free, and nothing else. -/
theorem allocateNext_all_or_nothing {start : Ipam} (made : start.Made) (requests : List Request)
    (owner : String) :
    ∃ before result after, start.performAll requests = some before ∧
      before.allocateNext owner = some (result, after) ∧
      (∀ error, result = .error error → ∀ family,
        Option.Rel (Exchange owner none) (before.pool family) (after.pool family)) ∧
      ∀ pair, result = .ok pair → ∀ family,
        Option.Rel (Exchange owner (pair.address family)) (before.pool family)
          (after.pool family) ∧ (pair.address family).isSome = (before.pool family).isSome := by
  rcases sound_performAll (sound_of_made made) requests with ⟨before, performed, sound⟩
  rcases allocateNext_paired sound owner with ⟨result, after, ended, paired, soundAfter⟩
  refine ⟨before, result, after, performed, ended, ?_, ?_⟩
  · rintro error rfl family
    cases paired with
    | refused _ took => exact rel_exchange sound soundAfter (took family)
  · rintro pair rfl family
    cases paired with
    | given _ took enabled =>
        exact ⟨rel_exchange sound soundAfter (took family), enabled family⟩

def smallPools : Ipam where
  ipv4 := some smallScope
  ipv6 := some
    { network := .v6 0x20, prefixLen := 127, first := 0x20, last := 0x21, capacity := 2,
      random := fun _ _ => 1 }

theorem made_smallPools : smallPools.Made := by
  refine ⟨smallPools.ipv4, smallPools.ipv6, rfl, ?_, ?_⟩
  · intro scope same
    cases same
    exact ⟨_, _, _, _, _, [], new_smallScope, rfl⟩
  · intro scope same
    cases same
    exact ⟨.v6 0x21, 127, {}, fun _ _ => 1, _, [], rfl, rfl⟩

/-- Both IPv4 addresses are excluded: the IPv6 address that was taken goes back. -/
theorem smallPools_all_or_nothing :
    ∃ before error after,
      smallPools.performAll [.exclude (.v4 0x0a000001) "router", .exclude (.v4 0x0a000002) "health",
        .allocateNextFamily true "web/one"] = some before ∧
      before.allocateNext "web/two" = some (.error error, after) ∧
      ∀ family, Option.Rel (Exchange "web/two" none) (before.pool family) (after.pool family) := by
  rcases allocateNext_all_or_nothing made_smallPools
    [.exclude (.v4 0x0a000001) "router", .exclude (.v4 0x0a000002) "health",
      .allocateNextFamily true "web/one"] "web/two" with
    ⟨before, result, after, performed, ended, refused, _⟩
  have full : ((smallPools.performAll [.exclude (.v4 0x0a000001) "router",
      .exclude (.v4 0x0a000002) "health", .allocateNextFamily true "web/one"]).bind fun before =>
      (before.allocateNext "web/two").map (·.1)) = some (.error .full) := by
    decide +kernel
  rw [performed, Option.bind_some, ended, Option.map_some, Option.some.injEq] at full
  change result = .error .full at full
  subst full
  exact ⟨before, .full, after, performed, ended, refused .full rfl⟩

end Ipam

end FlowSdn.HostIpam
