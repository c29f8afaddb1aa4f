import FlowSdn.Foundation.OrderedMap
import FlowSdn.Foundation.Words

/-! # Longest-prefix lookup

The entry of the longest covering key of an ordered map, and its instance for
the kernel's longest-prefix-match tries, whose keys are a 32-bit little-endian
prefix length followed by data bytes.
-/

namespace FlowSdn.LongestPrefix

open OrderedMap

variable {κ : Type u} {ν : Type v} [Ord κ] [Std.TransOrd κ]

/-- The pair with the longest key among those that cover. -/
def longest (length : κ → Nat) (covers : κ → Bool) (map : BTreeMap κ ν) :
    Option (κ × ν) :=
  (map.toList.filter fun pair => covers pair.1).argmax fun pair => length pair.1

section Longest

variable [Std.LawfulEqOrd κ] {length : κ → Nat} {covers : κ → Bool} {map : BTreeMap κ ν}

variable {key : κ} {value : ν}

theorem mem_candidates :
    (key, value) ∈ (map.toList.filter fun pair => covers pair.1) ↔
      map[key]? = some value ∧ covers key := by
  simp [Std.ExtTreeMap.mem_toList_iff_getElem?_eq_some]

theorem longest_eq_none_iff :
    longest length covers map = none ↔
      ∀ key value, map[key]? = some value → covers key = false := by
  simp only [longest, List.argmax_eq_none, List.eq_nil_iff_forall_not_mem, Prod.forall,
    mem_candidates, not_and, Bool.not_eq_true]

/-- What a hit says: the key is held, it covers, and no covering key is longer. -/
theorem longest_spec (found : longest length covers map = some (key, value)) :
    map[key]? = some value ∧ covers key ∧
      ∀ other otherValue, map[other]? = some otherValue → covers other →
        length other ≤ length key := by
  unfold longest at found
  rcases mem_candidates.mp (List.argmax_mem found) with ⟨held, covering⟩
  refine ⟨held, covering, fun other otherValue otherHeld otherCovers => ?_⟩
  have candidate := mem_candidates.mpr ⟨otherHeld, otherCovers⟩
  have bound := List.le_of_mem_argmax candidate found
  exact bound

theorem longest_eq_some (held : map[key]? = some value) (covering : covers key)
    (longer : ∀ other otherValue, map[other]? = some otherValue → covers other →
      other = key ∨ length other < length key) : longest length covers map = some (key, value) := by
  cases found : longest length covers map with
  | none =>
      have missed := longest_eq_none_iff.mp found key value held
      rw [missed] at covering
      cases covering
  | some pair =>
      rcases pair with ⟨best, bestValue⟩
      rcases longest_spec found with ⟨bestHeld, bestCovers, bestLongest⟩
      have atLeast := bestLongest key value held covering
      rcases longer best bestValue bestHeld bestCovers with same | shorter
      · subst same
        rw [held] at bestHeld
        rw [Option.some.inj bestHeld]
      · omega

end Longest

/-- A trie key as bytes: its prefix length, then its data. -/
abbrev TrieKey := List U8

abbrev Trie (ν : Type v) := BTreeMap TrieKey ν

namespace Trie

def keyLength (key : TrieKey) : Nat := Words.leValue (key.take 4)

def keyData (key : TrieKey) : List U8 := key.drop 4

/-- A stored key matches a lookup when it is no longer than the lookup's own
prefix and their data agree on its length. -/
def covers (bits : Nat) (data : List U8) (key : TrieKey) : Bool :=
  keyLength key ≤ bits && Words.bitsAgree (keyLength key) (keyData key) data

/-- The kernel's `trie_lookup_elem`. -/
def lookup (trie : Trie ν) (bits : Nat) (data : List U8) : Option ν :=
  (longest keyLength (covers bits data) trie).map Prod.snd

/-- The bytes of a key with a 32-bit prefix length. -/
def encode (length : U32) (data : List U8) : TrieKey :=
  Words.leBytes 4 length.toNat ++ data

@[simp] theorem keyLength_encode (length : U32) (data : List U8) :
    keyLength (encode length data) = length.toNat := by
  have fits : length.toNat < 256 ^ 4 := length.isLt
  rw [keyLength, encode, List.take_append_of_le_length (by simp),
    List.take_of_length_le (by simp), Words.leValue_leBytes fits]

@[simp] theorem keyData_encode (length : U32) (data : List U8) :
    keyData (encode length data) = data := by
  rw [keyData, encode, List.drop_append_of_le_length (by simp),
    List.drop_of_length_le (by simp), List.nil_append]

theorem covers_encode {bits : Nat} {data : List U8} {length : U32} {keyData : List U8} :
    covers bits data (encode length keyData) ↔
      length.toNat ≤ bits ∧ Words.bitsAgree length.toNat keyData data := by
  simp [covers]

end Trie

end FlowSdn.LongestPrefix
