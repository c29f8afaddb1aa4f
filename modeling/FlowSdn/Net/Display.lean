import FlowSdn.Net.Address

/-! # The text of an address

The standard library's canonical text: dotted decimal for IPv4; for IPv6
lowercase hexadecimal groups with the first longest run of zero groups left
out, and an IPv4-mapped address with its IPv4 part in decimal.
-/

namespace FlowSdn.Net

def ipv4Text (address : U32) : String :=
  String.intercalate "." ([24, 16, 8, 0].map fun shift =>
    toString ((address >>> (shift : Nat)).setWidth 8).toNat)

def segments (address : U128) : List Nat :=
  [112, 96, 80, 64, 48, 32, 16, 0].map fun shift => ((address >>> (shift : Nat)).setWidth 16).toNat

def hexText (value : Nat) : String := String.ofList (Nat.toDigits 16 value)

def groupsText (groups : List Nat) : String := String.intercalate ":" (groups.map hexText)

structure Span where
  start : Nat := 0
  length : Nat := 0
  deriving DecidableEq

/-- The longest run so far and the run that ends here, after one more group. -/
def extendSpan (spans : Span × Span) (indexed : Nat × Nat) : Span × Span :=
  if indexed.1 = 0 then
    let current : Span :=
      if spans.2.length = 0 then ⟨indexed.2, 1⟩ else ⟨spans.2.start, spans.2.length + 1⟩
    (if current.length > spans.1.length then current else spans.1, current)
  else (spans.1, {})

def longestZeros (groups : List Nat) : Span := (groups.zipIdx.foldl extendSpan ({}, {})).1

def ipv6Text (address : U128) : String :=
  if address >>> 32 = 0xffff then "::ffff:" ++ ipv4Text (address.setWidth 32)
  else
    let groups := segments address
    let zeros := longestZeros groups
    if zeros.length > 1 then
      groupsText (groups.take zeros.start) ++ "::" ++
        groupsText (groups.drop (zeros.start + zeros.length))
    else groupsText groups

def IpAddr.text : IpAddr → String
  | v4 address => ipv4Text address
  | v6 address => ipv6Text address

example : (IpAddr.v6 0x20010db8000000000001000000000001).text = "2001:db8::1:0:0:1" := by
  decide +kernel

end FlowSdn.Net
