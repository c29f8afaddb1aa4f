import FlowSdn.Foundation.OrderedMap
import FlowSdn.Foundation.Words

/-! # Load-balancer map layouts

Keys and values of the service, backend and affinity maps. Both families share
one layout but for the width of the address. Keys are ordered as their bytes:
addresses and ports are in network order, the slot and the IDs little-endian.
-/

namespace FlowSdn.Abi

open Words OrderedMap

/-- A service key: slot 0 is the master, the others its backends. -/
structure LbKey (width : Nat) where
  address : BitVec width
  dport : U16
  backendSlot : U16
  proto : U8
  scope : U8
  deriving DecidableEq

abbrev Lb4Key := LbKey 32
abbrev Lb6Key := LbKey 128

namespace LbKey

def slotBytes (key : LbKey width) : List U8 := leBytes 2 key.backendSlot.toNat

instance : Ord (LbKey width) where
  compare := compareLex (compareOn address) (compareLex (compareOn dport)
    (compareLex (compareOn slotBytes) (compareLex (compareOn proto) (compareOn scope))))

instance : Std.TransOrd (LbKey width) := inferInstanceAs (Std.TransCmp (compareLex _ _))

instance transOrdLb4Key : Std.TransOrd Lb4Key := inferInstance

instance transOrdLb6Key : Std.TransOrd Lb6Key := inferInstance

instance : Std.LawfulEqOrd (LbKey width) where
  eq_of_compare {left right} equal := by
    simp only [compare, compareLex_eq_eq, compareOn_eq_iff] at equal
    have sameSlot : left.backendSlot = right.backendSlot := (leBytes_word_inj 2).mp equal.2.2.1
    cases left
    cases right
    simp_all

end LbKey

/-! ## Services -/

inductive Algorithm
  | random
  | maglev
  deriving DecidableEq

def Algorithm.code : Algorithm → U8
  | random => 1
  | maglev => 2

namespace ServiceFlags

def sessionAffinity : U16 := 0x0010
def routable : U16 := 0x0040
def nat46x64 : U16 := 0x0200
def fwdModeDsr : U16 := 0x8000

end ServiceFlags

structure LbService where
  unionRaw : U32 := 0
  count : U16 := 0
  revNatIndex : U16 := 0
  flags : U8 := 0
  flags2 : U8 := 0
  deriving DecidableEq

namespace LbService

/-- The master's algorithm and timeout; none for a timeout of more than 24 bits. -/
def setAffinity (service : LbService) (algorithm : Algorithm) (seconds : U32) :
    Option LbService :=
  if seconds > 0x00ffffff#32 then none
  else some { service with unionRaw := (algorithm.code.setWidth 32 <<< 24) ||| seconds }

def backendId (service : LbService) : U32 := service.unionRaw

def serviceFlags (service : LbService) : U16 :=
  (service.flags2.setWidth 16 <<< 8) ||| service.flags.setWidth 16

def setServiceFlags (service : LbService) (flags : U16) : LbService :=
  { service with flags := flags.setWidth 8, flags2 := (flags >>> 8).setWidth 8 }

/-- Whether a master's backends are the other family's. -/
def isNat46x64 (service : LbService) : Bool :=
  service.serviceFlags &&& ServiceFlags.nat46x64 != 0

theorem serviceFlags_setServiceFlags (service : LbService) (flags : U16) :
    (service.setServiceFlags flags).serviceFlags = flags := by
  apply BitVec.eq_of_getLsbD_eq
  intro index within
  by_cases low : index < 8
  · simp [serviceFlags, setServiceFlags, low]
    omega
  · have high : index - 8 < 8 := by omega
    have back : 8 + (index - 8) = index := by omega
    simp [serviceFlags, setServiceFlags, low, high, back, within]

end LbService

structure LbBackend (width : Nat) where
  address : BitVec width
  port : U16
  proto : U8
  deriving DecidableEq

abbrev Lb4Backend := LbBackend 32
abbrev Lb6Backend := LbBackend 128

/-- A backend that a remembered affinity to a service may still use. -/
structure LbAffinityMatch where
  backendId : U32
  revNatId : U16
  deriving DecidableEq

namespace LbAffinityMatch

def backendBytes (key : LbAffinityMatch) : List U8 := leBytes 4 key.backendId.toNat
def revNatBytes (key : LbAffinityMatch) : List U8 := leBytes 2 key.revNatId.toNat

instance : Ord LbAffinityMatch where
  compare := compareLex (compareOn backendBytes) (compareOn revNatBytes)

instance : Std.TransOrd LbAffinityMatch := inferInstanceAs (Std.TransCmp (compareLex _ _))

instance : Std.LawfulEqOrd LbAffinityMatch where
  eq_of_compare {left right} equal := by
    simp only [compare, compareLex_eq_eq, compareOn_eq_iff] at equal
    have backends : left.backendId = right.backendId := (leBytes_word_inj 4).mp equal.1
    have services : left.revNatId = right.revNatId := (leBytes_word_inj 2).mp equal.2
    cases left
    cases right
    simp_all

end LbAffinityMatch

end FlowSdn.Abi
