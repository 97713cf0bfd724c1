/-! # Combining two hash codes

The code of a qualified name joins the codes of its two parts. The join is not symmetric: the
seed is shifted into the sum and the other code is not. -/

namespace Moniker.Hash

/-- The golden ratio as a fraction of the 32-bit range. -/
def goldenRatio : Int32 :=
  (0x9e3779b9 : UInt32).toInt32

/-- The join of a code to a seed. The right shift keeps the sign. -/
def combine (seed code : Int32) : Int32 :=
  seed ^^^ (code + goldenRatio + seed <<< 6 + seed >>> 2)

/-- Under one seed, two codes join to the same result only if they are the same. -/
theorem combine_left_inj {seed a b : Int32} : combine seed a = combine seed b ↔ a = b := by
  simp only [combine, Int32.xor_right_inj, Int32.add_left_inj]

end Moniker.Hash
