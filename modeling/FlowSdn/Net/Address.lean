import FlowSdn.Foundation.OrderedMap
import FlowSdn.Foundation.Text
import FlowSdn.Foundation.Words

/-! # IP addresses and CIDR prefixes

Addresses of both families with the text that the standard library accepts for
them, and network prefixes with all host bits cleared.
-/

namespace FlowSdn.Net

open Words

inductive IpAddr
  | v4 (address : U32)
  | v6 (address : U128)
  deriving DecidableEq

namespace IpAddr

def isIpv4 : IpAddr → Bool
  | v4 _ => true
  | v6 _ => false

/-- The family order of the source: every IPv4 address is below every IPv6 one. -/
def rank : IpAddr → Nat
  | v4 address => address.toNat
  | v6 address => 2 ^ 32 + address.toNat

theorem rank_injective {left right : IpAddr} (equal : left.rank = right.rank) : left = right := by
  cases left with
  | v4 leftAddress =>
      cases right with
      | v4 rightAddress => rw [BitVec.eq_of_toNat_eq (show leftAddress.toNat = _ from equal)]
      | v6 rightAddress =>
          have bound := leftAddress.isLt
          simp only [rank] at equal
          omega
  | v6 leftAddress =>
      cases right with
      | v4 rightAddress =>
          have bound := rightAddress.isLt
          simp only [rank] at equal
          omega
      | v6 rightAddress =>
          simp only [rank] at equal
          rw [BitVec.eq_of_toNat_eq (Nat.add_left_cancel equal)]

instance : Ord IpAddr where
  compare := compareOn rank

instance : Std.TransOrd IpAddr := inferInstanceAs (Std.TransCmp (compareOn rank))

instance : Std.LawfulEqOrd IpAddr where
  eq_of_compare equal := rank_injective (Std.LawfulEqOrd.eq_of_compare equal)

def hostBits : IpAddr → Nat
  | v4 _ => 32
  | v6 _ => 128

def toNat : IpAddr → Nat
  | v4 address => address.toNat
  | v6 address => address.toNat

theorem hostBits_le (address : IpAddr) : address.hostBits ≤ 128 := by
  cases address <;> simp [hostBits]

theorem toNat_lt (address : IpAddr) : address.toNat < 2 ^ address.hostBits := by
  cases address with
  | v4 address => exact address.isLt
  | v6 address => exact address.isLt

def masked (length : Nat) : IpAddr → IpAddr
  | v4 address => v4 (address &&& leadingMask 32 length)
  | v6 address => v6 (address &&& leadingMask 128 length)

@[simp] theorem hostBits_masked (length : Nat) (address : IpAddr) :
    (address.masked length).hostBits = address.hostBits := by
  cases address <;> rfl

@[simp] theorem masked_masked (length : Nat) (address : IpAddr) :
    (address.masked length).masked length = address.masked length := by
  cases address <;> simp [masked]

end IpAddr

/-! ## Address text -/

/-- Digits of a number at the front of a text, at most `limit` of them: their
value, how many there are, and the rest. -/
def readDigits (radix : Nat) : (limit value count : Nat) → List Char → Nat × Nat × List Char
  | 0, value, count, text => (value, count, text)
  | _, value, count, [] => (value, count, [])
  | limit + 1, value, count, char :: rest =>
      match Text.digitValue radix char with
      | some digit => readDigits radix limit (radix * value + digit) (count + 1) rest
      | none => (value, count, char :: rest)

/-- One decimal octet: at most three digits and no needless leading zero. A fourth
digit refuses it. -/
def readOctet (text : List Char) : Option (Nat × List Char) :=
  match readDigits 10 4 0 0 text with
  | (value, count, rest) =>
      if count = 0 ∨ 3 < count ∨ 255 < value ∨ (1 < count ∧ text.head? = some '0') then none
      else some (value, rest)

/-- One group of at most four hexadecimal digits. A fifth digit refuses it. -/
def readGroup (text : List Char) : Option (Nat × List Char) :=
  match readDigits 16 5 0 0 text with
  | (value, count, rest) => if count = 0 ∨ 4 < count then none else some (value, rest)

def readChar (char : Char) : List Char → Option (List Char)
  | head :: rest => if head = char then some rest else none
  | [] => none

/-- The reader after a separator, which nothing precedes at index zero. -/
def readSeparated (separator : Char) (index : Nat) (read : List Char → Option (α × List Char))
    (text : List Char) : Option (α × List Char) :=
  if index = 0 then read text else (readChar separator text).bind read

def readIpv4 (text : List Char) : Option (U32 × List Char) := do
  let (first, text) ← readSeparated '.' 0 readOctet text
  let (second, text) ← readSeparated '.' 1 readOctet text
  let (third, text) ← readSeparated '.' 2 readOctet text
  let (fourth, text) ← readSeparated '.' 3 readOctet text
  return (BitVec.ofNat 32 (((first * 256 + second) * 256 + third) * 256 + fourth), text)

/-- Up to `remaining` colon-separated groups, the last two possibly as an embedded
IPv4 address: the groups, whether they end in one, and the rest. -/
def readGroups : (remaining index : Nat) → List Char → List Nat × Bool × List Char
  | 0, _, text => ([], false, text)
  | remaining + 1, index, text =>
      let embedded :=
        if remaining = 0 then none else readSeparated ':' index readIpv4 text
      match embedded with
      | some (address, rest) => ([address.toNat / 65536, address.toNat % 65536], true, rest)
      | none =>
          match readSeparated ':' index readGroup text with
          | none => ([], false, text)
          | some (group, rest) =>
              match readGroups remaining (index + 1) rest with
              | (groups, ipv4, rest) => (group :: groups, ipv4, rest)

def groupsValue (groups : List Nat) : U128 :=
  BitVec.ofNat 128 (groups.foldl (fun value group => value * 65536 + group) 0)

def readIpv6 (text : List Char) : Option (U128 × List Char) :=
  match readGroups 8 0 text with
  | (front, ipv4, rest) =>
      if front.length = 8 then some (groupsValue front, rest)
      else if ipv4 then none
      else do
        let rest ← readChar ':' rest
        let rest ← readChar ':' rest
        match readGroups (8 - (front.length + 1)) 0 rest with
        | (back, _, rest) =>
            let zeros := List.replicate (8 - front.length - back.length) 0
            return (groupsValue (front ++ zeros ++ back), rest)

def IpAddr.parse (text : String) : Option IpAddr :=
  match readIpv4 text.toList with
  | some (address, rest) => if rest.isEmpty then some (.v4 address) else none
  | none =>
      match readIpv6 text.toList with
      | some (address, rest) => if rest.isEmpty then some (.v6 address) else none
      | none => none

example : IpAddr.parse "10.2.0.5" = some (.v4 0x0A020005) := by decide

example : IpAddr.parse "fd00::1:10.0.0.7" = some (.v6 0xfd0000000000000000000001_0A000007) := by
  decide

example : IpAddr.parse "10.2.0.05" = none := by decide

/-! ## Prefixes -/

inductive CidrError
  | invalidPrefix
  | invalidAddress
  | invalidLength
  deriving DecidableEq

/-- A family-preserving network prefix, with all host bits cleared. -/
structure CidrPrefix where
  network : IpAddr
  length : Nat
  fits : length ≤ network.hostBits
  cleared : network.masked length = network
  deriving DecidableEq

namespace CidrPrefix

instance : Ord CidrPrefix where
  compare := compareLex (compareOn network) (compareOn length)

instance : Std.TransOrd CidrPrefix := inferInstanceAs (Std.TransCmp (compareLex _ _))

instance : Std.LawfulEqOrd CidrPrefix where
  eq_of_compare {left right} equal := by
    cases left
    cases right
    simp_all [compare]

def new (address : IpAddr) (length : Nat) : Except CidrError CidrPrefix :=
  if fits : length ≤ address.hostBits then
    .ok {
      network := address.masked length
      length
      fits := by simpa using fits
      cleared := by simp }
  else .error .invalidLength

def containsAddress (self : CidrPrefix) (address : IpAddr) : Bool :=
  if self.network.isIpv4 ≠ address.isIpv4 then false
  else
    match new address self.length with
    | .ok masked => masked.network = self.network
    | .error _ => false

def containsPrefix (self candidate : CidrPrefix) : Bool :=
  self.length ≤ candidate.length && self.containsAddress candidate.network

def parse (text : String) : Except CidrError CidrPrefix :=
  match Text.splitOnce '/' text with
  | none => .error .invalidPrefix
  | some (address, length) =>
      if !Text.isDigits length then .error .invalidPrefix
      else
        match Text.parseUnsigned 256 length with
        | none => .error .invalidLength
        | some length =>
            match IpAddr.parse address with
            | none => .error .invalidAddress
            | some address => new address length

end CidrPrefix

/-! ## What prefixes hold -/

def IpAddr.Agree (length : Nat) : IpAddr → IpAddr → Prop
  | .v4 left, .v4 right => leadingBits length left = leadingBits length right
  | .v6 left, .v6 right => leadingBits length left = leadingBits length right
  | _, _ => False

namespace IpAddr

variable {left middle right : IpAddr} {length : Nat}

theorem Agree.symm (agree : Agree length left right) : Agree length right left := by
  cases left <;> cases right <;> simp_all [Agree]

theorem Agree.trans (first : Agree length left middle) (second : Agree length middle right) :
    Agree length left right := by
  cases left <;> cases middle <;> cases right <;> simp_all [Agree]

theorem Agree.shorten {short : Nat} (agree : Agree length left right) (shorter : short ≤ length) :
    Agree short left right := by
  cases left <;> cases right
  · exact leadingBits_eq_of_le shorter agree
  · exact agree
  · exact agree
  · exact leadingBits_eq_of_le shorter agree

theorem agree_iff_masked : Agree length left right ↔ left.masked length = right.masked length := by
  cases left <;> cases right <;> simp [Agree, masked, masked_eq_iff]

theorem agree_hostBits_iff : Agree left.hostBits left right ↔ left = right := by
  cases left <;> cases right
  · simpa [Agree, hostBits] using leadingBits_of_width_le (Nat.le_refl 32)
  · simp [Agree]
  · simp [Agree]
  · simpa [Agree, hostBits] using leadingBits_of_width_le (Nat.le_refl 128)

theorem hostBits_eq_of_agree (agree : Agree length left right) :
    left.hostBits = right.hostBits := by
  cases left <;> cases right <;> simp_all [Agree, hostBits]

end IpAddr

namespace CidrPrefix

variable {outer inner : CidrPrefix} {address : IpAddr}

theorem containsAddress_iff :
    outer.containsAddress address ↔ IpAddr.Agree outer.length outer.network address := by
  rw [IpAddr.agree_iff_masked, outer.cleared]
  unfold containsAddress
  have fits := outer.fits
  cases family : outer.network <;> cases address <;>
    simp_all [IpAddr.isIpv4, new, IpAddr.hostBits, IpAddr.masked, eq_comm]

theorem containsPrefix_iff :
    outer.containsPrefix inner ↔
      outer.length ≤ inner.length ∧ IpAddr.Agree outer.length outer.network inner.network := by
  rw [containsPrefix, Bool.and_eq_true, decide_eq_true_eq, containsAddress_iff]

/-- Of prefixes that hold an address, the shorter holds the longer: what a block says
of a prefix it says of the prefix's addresses. -/
theorem containsPrefix_iff_containsAddress (inside : inner.containsAddress address)
    (shorter : outer.length ≤ inner.length) :
    outer.containsPrefix inner ↔ outer.containsAddress address := by
  rw [containsAddress_iff] at inside
  rw [containsPrefix_iff, containsAddress_iff]
  constructor
  · intro holds
    exact holds.2.trans (inside.shorten shorter)
  · intro holds
    exact ⟨shorter, holds.trans (inside.shorten shorter).symm⟩

theorem containsAddress_of_containsPrefix (holds : outer.containsPrefix inner)
    (inside : inner.containsAddress address) : outer.containsAddress address := by
  have shorter := (containsPrefix_iff.mp holds).1
  exact (containsPrefix_iff_containsAddress inside shorter).mp holds

theorem eq_of_containsAddress (first : outer.containsAddress address)
    (second : inner.containsAddress address) (sameLength : outer.length = inner.length) :
    outer = inner := by
  rw [containsAddress_iff] at first second
  rw [← sameLength] at second
  have agree := IpAddr.agree_iff_masked.mp (first.trans second.symm)
  have network : outer.network = inner.network := by
    rw [← outer.cleared, agree, sameLength, inner.cleared]
  cases outer
  cases inner
  simp_all

def ofAddress (address : IpAddr) : CidrPrefix where
  network := address.masked address.hostBits
  length := address.hostBits
  fits := by simp
  cleared := by simp

theorem new_hostBits (address : IpAddr) :
    new address address.hostBits = .ok (ofAddress address) := by
  simp [new, ofAddress]

theorem network_ofAddress (address : IpAddr) : (ofAddress address).network = address := by
  have agree : IpAddr.Agree address.hostBits address (address.masked address.hostBits) := by
    rw [IpAddr.agree_iff_masked, IpAddr.masked_masked]
  exact (IpAddr.agree_hostBits_iff.mp agree).symm

theorem containsAddress_ofAddress {other : IpAddr} :
    (ofAddress other).containsAddress address ↔ other = address := by
  rw [containsAddress_iff, network_ofAddress]
  exact IpAddr.agree_hostBits_iff

theorem containsPrefix_ofAddress :
    outer.containsPrefix (ofAddress address) ↔ outer.containsAddress address := by
  rw [containsPrefix_iff, containsAddress_iff, network_ofAddress]
  constructor
  · exact fun holds => holds.2
  · intro holds
    refine ⟨?_, holds⟩
    have fits := outer.fits
    rw [IpAddr.hostBits_eq_of_agree holds] at fits
    exact fits

end CidrPrefix

end FlowSdn.Net
