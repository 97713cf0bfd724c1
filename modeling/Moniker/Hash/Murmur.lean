import Moniker.Text.Units

/-! # The local-name hash

A local name is hashed by Murmur3 for 32-bit words with seed zero. A block is two units, the
first of them in the low half; an odd last unit is a tail. The length counts bytes, two for each
unit. -/

namespace Moniker.Hash

/-- A word turned left by `k` places, for `0 < k < 32`. -/
def rotateLeft (x k : UInt32) : UInt32 :=
  x <<< k ||| x >>> (32 - k)

/-- A block before it meets the state. -/
def scramble (block : UInt32) : UInt32 :=
  rotateLeft (block * 0xcc9e2d51) 15 * 0x1b873593

@[irreducible] def absorb (state block : UInt32) : UInt32 :=
  rotateLeft (state ^^^ scramble block) 13 * 5 + 0xe6546b64

/-- Two units as one block, the first in the low half. -/
def blockOf (low high : UInt16) : UInt32 :=
  low.toUInt32 ||| high.toUInt32 <<< 16

/-- The state after all units, the tail included. -/
def absorbUnits (state : UInt32) : List UInt16 → UInt32
  | [] => state
  | [last] => state ^^^ scramble last.toUInt32
  | low :: high :: rest => absorbUnits (absorb state (blockOf low high)) rest

/-- The last mixing, which spreads every bit of the state over the word. -/
def avalanche (state : UInt32) : UInt32 :=
  let a := state ^^^ state >>> 16
  let b := a * 0x85ebca6b
  let c := b ^^^ b >>> 13
  let d := c * 0xc2b2ae35
  d ^^^ d >>> 16

def murmurUnits (us : List UInt16) : UInt32 :=
  avalanche (absorbUnits 0 us ^^^ UInt32.ofNat (2 * us.length))

/-- The Murmur3 hash of a text, as a signed word. -/
def murmur (s : String) : Int32 :=
  (murmurUnits (Text.units s)).toInt32

/-! ## Small laws -/

/-- Whole blocks are absorbed before what follows them. -/
theorem absorbUnits_cons_cons (state : UInt32) (low high : UInt16) (rest : List UInt16) :
    absorbUnits state (low :: high :: rest) =
      absorbUnits (absorb state (blockOf low high)) rest := by
  simp only [absorbUnits]

end Moniker.Hash
