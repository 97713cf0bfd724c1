import Moniker.Proofs.Murmur
import Moniker.Proofs.Reversible
import Moniker.Proofs.Units

/-! # Mixing keeps texts apart

Turns of a word, products with odd words, and a word joined to its own shift can all be undone.
The local-name hash is made of these, so texts of one length that differ inside one block never
have the same hash. -/

namespace Moniker.Hash

/-! ## Words -/

theorem bitVec_rotateLeft_inj {w k : Nat} {x y : BitVec w} (hk : k < w) :
    x.rotateLeft k = y.rotateLeft k ↔ x = y := by
  refine ⟨fun h => ?_, fun h => by rw [h]⟩
  ext i hi
  -- bit `i` goes `k` places up, and around if that leaves the word
  by_cases hup : i + k < w
  · have hbit := congrArg (fun z : BitVec w => z.getLsbD (i + k)) h
    have hlow : ¬i + k < k := by omega
    simpa [BitVec.getLsbD_rotateLeft, Nat.mod_eq_of_lt hk, hup, hi, hlow] using hbit
  · have hbit := congrArg (fun z : BitVec w => z.getLsbD (i + k - w)) h
    have haround : i + k - w < k := by omega
    have hback : w - k + (i + k - w) = i := by omega
    simpa [BitVec.getLsbD_rotateLeft, Nat.mod_eq_of_lt hk, haround, hback, hi] using hbit

theorem rotateLeft_inj {k x y : UInt32} (hpos : 0 < k.toNat) (hk : k.toNat < 32) :
    rotateLeft x k = rotateLeft y k ↔ x = y := by
  rw [← UInt32.toBitVec_inj, Murmur3.toBitVec_rotateLeft x k hpos hk,
    Murmur3.toBitVec_rotateLeft y k hpos hk, bitVec_rotateLeft_inj hk, UInt32.toBitVec_inj]

/-- A word that is its own shift to the right has no bits. -/
theorem eq_zero_of_eq_shiftRight {k x : UInt32} (hpos : 0 < k.toNat) (hk : k.toNat < 32)
    (h : x = x >>> k) : x = 0 := by
  have hnat : x.toNat = x.toNat / 2 ^ k.toNat := by
    have hshift := congrArg UInt32.toNat h
    rwa [UInt32.toNat_shiftRight, Nat.mod_eq_of_lt hk, Nat.shiftRight_eq_div_pow] at hshift
  have hzero : x.toNat = 0 := by
    by_contra hne
    have hless := Nat.div_lt_self (Nat.pos_of_ne_zero hne) (Nat.one_lt_two_pow hpos.ne')
    omega
  exact UInt32.toNat_inj.mp hzero

theorem xor_shiftRight_inj {k x y : UInt32} (hpos : 0 < k.toNat) (hk : k.toNat < 32) :
    x ^^^ x >>> k = y ^^^ y >>> k ↔ x = y := by
  refine ⟨fun h => ?_, fun h => by rw [h]⟩
  have hshift : x ^^^ y = (x ^^^ y) >>> k := by
    rw [UInt32.shiftRight_xor]
    calc x ^^^ y = (x ^^^ x >>> k) ^^^ (x >>> k ^^^ y) := by
          rw [UInt32.xor_assoc, ← UInt32.xor_assoc (x >>> k), UInt32.xor_self, UInt32.zero_xor]
      _ = (y ^^^ y >>> k) ^^^ (x >>> k ^^^ y) := by rw [h]
      _ = x >>> k ^^^ y >>> k := by
          rw [UInt32.xor_comm y, UInt32.xor_comm (x >>> k) y, UInt32.xor_assoc,
            ← UInt32.xor_assoc y y, UInt32.xor_self, UInt32.zero_xor, UInt32.xor_comm]
  exact UInt32.xor_eq_zero_iff.mp (eq_zero_of_eq_shiftRight hpos hk hshift)

/-! ## Mixing -/

theorem scramble_inj {j k : UInt32} : scramble j = scramble k ↔ j = k := by
  simp (disch := decide) only [scramble, mul_left_inj_of_odd, rotateLeft_inj]

theorem absorb_left_inj {s t k : UInt32} : absorb s k = absorb t k ↔ s = t := by
  unfold absorb
  simp (disch := decide) only [UInt32.add_left_inj, mul_left_inj_of_odd, rotateLeft_inj,
    UInt32.xor_left_inj]

theorem absorb_right_inj {s j k : UInt32} : absorb s j = absorb s k ↔ j = k := by
  unfold absorb
  simp (disch := decide) only [UInt32.add_left_inj, mul_left_inj_of_odd, rotateLeft_inj,
    UInt32.xor_right_inj, scramble_inj]

theorem avalanche_inj {s t : UInt32} : avalanche s = avalanche t ↔ s = t := by
  simp (disch := decide) only [avalanche, xor_shiftRight_inj, mul_left_inj_of_odd]

theorem toNat_blockOf (low high : UInt16) :
    (blockOf low high).toNat = high.toNat * 2 ^ 16 + low.toNat := by
  have hhigh : (high.toUInt32 <<< 16).toNat = high.toNat <<< 16 := by
    rw [UInt32.toNat_shiftLeft, Nat.mod_eq_of_lt]
    · rfl
    · have := high.toNat_lt
      simp [Nat.shiftLeft_eq]
      omega
  rw [blockOf, UInt32.toNat_or, hhigh, Nat.or_comm, UInt16.toNat_toUInt32,
    ← Nat.shiftLeft_add_eq_or_of_lt low.toNat_lt, Nat.shiftLeft_eq]

theorem blockOf_inj {low high low' high' : UInt16} :
    blockOf low high = blockOf low' high' ↔ low = low' ∧ high = high' := by
  have hlow := low.toNat_lt
  have hlow' := low'.toNat_lt
  rw [← UInt32.toNat_inj, ← UInt16.toNat_inj, ← UInt16.toNat_inj, toNat_blockOf, toNat_blockOf]
  omega

/-! ## Blocks -/

/-- An aligned pair of units, or the last unit of an odd number. -/
inductive Block where
  | pair (low high : UInt16)
  | tail (last : UInt16)
  deriving DecidableEq, Repr

/-- The blocks that a sequence of units is made of. -/
def blocks : List UInt16 → List Block
  | [] => []
  | [last] => [.tail last]
  | low :: high :: rest => .pair low high :: blocks rest

namespace Block

def size : Block → Nat
  | pair _ _ => 2
  | tail _ => 1

/-- The state after one more block. -/
def mix (state : UInt32) : Block → UInt32
  | pair low high => absorb state (blockOf low high)
  | tail last => state ^^^ scramble last.toUInt32

theorem mix_injective (b : Block) : Function.Injective fun state => mix state b := by
  intro s t h
  cases b with
  | pair low high => exact absorb_left_inj.mp h
  | tail last => exact (UInt32.xor_left_inj _).mp h

/-- Blocks of one size mix into a state alike only if they are the same. -/
theorem mix_right_inj {state : UInt32} {b c : Block} (hsize : b.size = c.size) :
    mix state b = mix state c ↔ b = c := by
  refine ⟨fun h => ?_, fun h => by rw [h]⟩
  cases b with
  | pair low high =>
      cases c with
      | pair low' high' =>
          obtain ⟨rfl, rfl⟩ := blockOf_inj.mp (absorb_right_inj.mp h)
          rfl
      | tail last => cases hsize
  | tail last =>
      cases c with
      | pair low high => cases hsize
      | tail last' =>
          obtain rfl := UInt16.toUInt32_inj.mp (scramble_inj.mp ((UInt32.xor_right_inj _).mp h))
          rfl

end Block

theorem sum_size_blocks (us : List UInt16) : ((blocks us).map Block.size).sum = us.length := by
  fun_induction blocks us with
  | case1 => rfl
  | case2 last => rfl
  | case3 low high rest ih =>
      rw [List.map_cons, List.sum_cons, ih, Block.size, List.length_cons, List.length_cons]
      omega

theorem absorbUnits_eq_foldl (state : UInt32) (us : List UInt16) :
    absorbUnits state us = (blocks us).foldl Block.mix state := by
  fun_induction absorbUnits state us with
  | case1 state => rfl
  | case2 state last => rfl
  | case3 state low high rest ih => exact ih

/-! ## Texts of one length -/

theorem murmurUnits_ne {us vs : List UInt16} (hlength : us.length = vs.length)
    (hdiffer : DifferInOnePlace (blocks us) (blocks vs)) : murmurUnits us ≠ murmurUnits vs := by
  obtain ⟨before, b, c, after, hus, hvs, hne⟩ := hdiffer.exists_split
  have hsize : b.size = c.size := by
    have hsum := sum_size_blocks us
    rw [hlength, ← sum_size_blocks vs, hus, hvs] at hsum
    simp only [List.map_append, List.map_cons, List.sum_append, List.sum_cons] at hsum
    omega
  intro h
  -- the same length enters both states, and the last mixing can be undone
  rw [murmurUnits, murmurUnits, hlength, avalanche_inj, UInt32.xor_left_inj, absorbUnits_eq_foldl,
    absorbUnits_eq_foldl, hus, hvs, foldl_append_cons_inj Block.mix_injective,
    Block.mix_right_inj hsize] at h
  exact hne h

/-- Up to two units are one block at most. -/
theorem differInOnePlace_blocks {us vs : List UInt16} (hlength : us.length = vs.length)
    (hshort : us.length ≤ 2) (hne : us ≠ vs) : DifferInOnePlace (blocks us) (blocks vs) := by
  match us, vs with
  | [], [] => exact absurd rfl hne
  | [u], [v] => exact differInOnePlace_append_cons [] [] (by simpa [blocks] using hne)
  | [u, u'], [v, v'] =>
      exact differInOnePlace_append_cons [] [] (by simpa [blocks] using hne)

theorem murmur_eq_iff {a b : String} : murmur a = murmur b ↔
    murmurUnits (Text.units a) = murmurUnits (Text.units b) :=
  ⟨congrArg Int32.toUInt32, congrArg UInt32.toInt32⟩

/-- Texts of one length that differ inside one block have different hashes; so of texts of at most
two units and one length, no two have the same. -/
theorem one_block_changes_murmur :
    (∀ a b : String, (Text.units a).length = (Text.units b).length →
      DifferInOnePlace (blocks (Text.units a)) (blocks (Text.units b)) → murmur a ≠ murmur b) ∧
    ∀ a b : String, (Text.units a).length = (Text.units b).length → (Text.units a).length ≤ 2 →
      (murmur a = murmur b ↔ a = b) := by
  constructor
  · intro a b hlength hdiffer h
    exact murmurUnits_ne hlength hdiffer (murmur_eq_iff.mp h)
  · intro a b hlength hshort
    refine ⟨fun h => ?_, fun h => by rw [h]⟩
    by_contra hne
    have hdiffer := differInOnePlace_blocks hlength hshort (mt Text.units_inj.mp hne)
    exact murmurUnits_ne hlength hdiffer (murmur_eq_iff.mp h)

/-- The two halves of one character are a block in the middle of a text and a text by themselves;
the last unit of an odd number is a block too. -/
theorem one_block_changes_murmur_crab :
    let crab := Text.units "ab🦀cde"
    let lion := Text.units "ab🦁cde"
    let other := Text.units "ab🦀cdf"
    crab.length = lion.length ∧ DifferInOnePlace (blocks crab) (blocks lion) ∧
      murmur "ab🦀cde" ≠ murmur "ab🦁cde" ∧
      crab.length = other.length ∧ DifferInOnePlace (blocks crab) (blocks other) ∧
      murmur "ab🦀cde" ≠ murmur "ab🦀cdf" ∧
      (Text.units "🦀").length = (Text.units "🦁").length ∧ (Text.units "🦀").length ≤ 2 ∧
      (murmur "🦀" = murmur "🦁" ↔ "🦀" = "🦁") := by
  intro crab lion other
  have hmiddle : DifferInOnePlace (blocks crab) (blocks lion) := by
    have hcrab : blocks crab =
        [.pair 97 98] ++ .pair 0xD83E 0xDD80 :: [.pair 99 100, .tail 101] := by decide
    have hlion : blocks lion =
        [.pair 97 98] ++ .pair 0xD83E 0xDD81 :: [.pair 99 100, .tail 101] := by decide
    rw [hcrab, hlion]
    exact differInOnePlace_append_cons _ _ (by decide)
  have hlast : DifferInOnePlace (blocks crab) (blocks other) := by
    have hcrab : blocks crab =
        [.pair 97 98, .pair 0xD83E 0xDD80, .pair 99 100] ++ .tail 101 :: [] := by decide
    have hother : blocks other =
        [.pair 97 98, .pair 0xD83E 0xDD80, .pair 99 100] ++ .tail 102 :: [] := by decide
    rw [hcrab, hother]
    exact differInOnePlace_append_cons _ _ (by decide)
  obtain ⟨hlong, hshort⟩ := one_block_changes_murmur
  exact ⟨by decide, hmiddle, hlong _ _ (by decide) hmiddle, by decide, hlast,
    hlong _ _ (by decide) hlast, by decide, by decide, hshort _ _ (by decide) (by decide)⟩

end Moniker.Hash
