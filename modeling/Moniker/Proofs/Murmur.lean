import Moniker.Hash.Murmur

/-! # Murmur3 over bytes

The 32-bit Murmur3 of a sequence of bytes, read by position as its authors define it: blocks of
four bytes, a tail of up to three, and a last mixing with the number of bytes. The hash of a text
is this one, taken of the bytes of its units. -/

namespace Moniker.Hash.Murmur3

/-! ## The hash of bytes -/

def byteAt (bytes : List UInt8) (i : Nat) : BitVec 32 :=
  (bytes.getD i 0).toBitVec.setWidth 32

/-- The `i`-th block, its first byte lowest. -/
def block (bytes : List UInt8) (i : Nat) : BitVec 32 :=
  byteAt bytes (4 * i) ||| byteAt bytes (4 * i + 1) <<< 8 ||| byteAt bytes (4 * i + 2) <<< 16 |||
    byteAt bytes (4 * i + 3) <<< 24

def mixBlock (k : BitVec 32) : BitVec 32 :=
  (k * 0xcc9e2d51#32).rotateLeft 15 * 0x1b873593#32

def mixState (h k : BitVec 32) : BitVec 32 :=
  (h ^^^ mixBlock k).rotateLeft 13 * 5#32 + 0xe6546b64#32

def body (seed : BitVec 32) (bytes : List UInt8) : BitVec 32 :=
  (List.range (bytes.length / 4)).foldl (fun h i => mixState h (block bytes i)) seed

/-- The state after the bytes that fill no block. If there are none, it stays. -/
def withTail (h : BitVec 32) (bytes : List UInt8) : BitVec 32 :=
  let start := bytes.length / 4 * 4
  match bytes.length % 4 with
  | 3 => h ^^^ mixBlock
      (byteAt bytes (start + 2) <<< 16 ^^^ byteAt bytes (start + 1) <<< 8 ^^^ byteAt bytes start)
  | 2 => h ^^^ mixBlock (byteAt bytes (start + 1) <<< 8 ^^^ byteAt bytes start)
  | 1 => h ^^^ mixBlock (byteAt bytes start)
  | _ => h

def finish (h : BitVec 32) : BitVec 32 :=
  let h := (h ^^^ h >>> 16) * 0x85ebca6b#32
  let h := (h ^^^ h >>> 13) * 0xc2b2ae35#32
  h ^^^ h >>> 16

/-- Murmur3 of a sequence of bytes, for 32-bit words. -/
def hashBytes (seed : BitVec 32) (bytes : List UInt8) : BitVec 32 :=
  finish (withTail (body seed bytes) bytes ^^^ BitVec.ofNat 32 bytes.length)

/-- Ten blocks and a tail of three bytes. -/
example : hashBytes 0 ("The quick brown fox jumps over the lazy dog".toList.map fun c =>
    c.toNat.toUInt8) = 0x2e4ff723#32 := by decide

/-- The bytes of units, the low byte of each first. -/
def littleEndian (us : List UInt16) : List UInt8 :=
  us.flatMap fun (u : UInt16) => [u.toUInt8, (u >>> 8).toUInt8]

@[simp] theorem littleEndian_nil : littleEndian [] = [] := rfl

@[simp] theorem littleEndian_cons (u : UInt16) (us : List UInt16) :
    littleEndian (u :: us) = u.toUInt8 :: (u >>> 8).toUInt8 :: littleEndian us := rfl

theorem length_littleEndian (us : List UInt16) : (littleEndian us).length = 2 * us.length := by
  induction us with
  | nil => rfl
  | cons u us ih =>
      simp only [littleEndian_cons, List.length_cons, ih]
      omega

/-! ## Words -/

theorem toBitVec_rotateLeft (x k : UInt32) (hpos : 0 < k.toNat) (hk : k.toNat < 32) :
    (rotateLeft x k).toBitVec = x.toBitVec.rotateLeft k.toNat := by
  have hsub : (32 - k).toNat = 32 - k.toNat := by
    rw [UInt32.toNat_sub_of_le _ _ (UInt32.le_iff_toNat_le.mpr (Nat.le_of_lt hk))]
    rfl
  rw [rotateLeft, BitVec.rotateLeft_def, Nat.mod_eq_of_lt hk]
  simp only [UInt32.toBitVec_or, UInt32.toBitVec_shiftLeft, UInt32.toBitVec_shiftRight,
    BitVec.shiftLeft_eq', BitVec.ushiftRight_eq', BitVec.toNat_umod, UInt32.toNat_toBitVec, hsub]
  rw [show BitVec.toNat (32 : BitVec 32) = 32 from rfl, Nat.mod_eq_of_lt hk,
    Nat.mod_eq_of_lt (show 32 - k.toNat < 32 by omega)]

theorem toBitVec_scramble (k : UInt32) : (scramble k).toBitVec = mixBlock k.toBitVec := by
  rw [scramble, UInt32.toBitVec_mul, toBitVec_rotateLeft _ _ (by decide) (by decide),
    UInt32.toBitVec_mul]
  rfl

theorem toBitVec_absorb (h k : UInt32) :
    (absorb h k).toBitVec = mixState h.toBitVec k.toBitVec := by
  have hrotate : (rotateLeft (h ^^^ scramble k) 13).toBitVec =
      (h.toBitVec ^^^ mixBlock k.toBitVec).rotateLeft 13 := by
    rw [toBitVec_rotateLeft _ _ (by decide) (by decide), UInt32.toBitVec_xor, toBitVec_scramble]
    rfl
  unfold absorb
  simp only [UInt32.toBitVec_add, UInt32.toBitVec_mul, UInt32.toBitVec_ofNat, hrotate, mixState]

theorem toBitVec_avalanche (h : UInt32) : (avalanche h).toBitVec = finish h.toBitVec := by
  simp only [avalanche, UInt32.toBitVec_xor, UInt32.toBitVec_mul, UInt32.toBitVec_shiftRight]
  rfl

/-- A unit is its low byte with its high byte above it. -/
theorem toBitVec_unit (u : UInt16) :
    u.toUInt32.toBitVec =
      u.toUInt8.toBitVec.setWidth 32 ||| (u >>> 8).toUInt8.toBitVec.setWidth 32 <<< 8 := by
  have hshift : (u >>> 8).toBitVec = u.toBitVec >>> 8 := rfl
  ext i hi
  simp only [UInt16.toBitVec_toUInt32, UInt16.toBitVec_toUInt8, hshift, BitVec.getElem_or,
    BitVec.getElem_setWidth, BitVec.getElem_shiftLeft, BitVec.getLsbD_setWidth,
    BitVec.getLsbD_ushiftRight]
  by_cases hlow : i < 8
  · simp [hlow]
  · have hback : 8 + (i - 8) = i := by omega
    by_cases hhigh : i < 16
    · simp [hlow, hback, show i - 8 < 8 by omega]
    · have hnone : u.toBitVec.getLsbD i = false := BitVec.getLsbD_of_ge _ _ (by omega)
      simp [hlow, hback, hnone]

/-- Bytes in different places share no bit, so exclusive or joins them as well. -/
theorem xor_bytes (low high : BitVec 8) :
    high.setWidth 32 <<< 8 ^^^ low.setWidth 32 =
      low.setWidth 32 ||| high.setWidth 32 <<< 8 := by
  ext i hi
  by_cases hlow : i < 8
  · simp [hlow]
  · have hnone : low.getLsbD i = false := BitVec.getLsbD_of_ge _ _ (by omega)
    simp [hlow, hnone]

theorem toBitVec_blockOf (low high : UInt16) (bytes : List UInt8) :
    (blockOf low high).toBitVec =
      block (low.toUInt8 :: (low >>> 8).toUInt8 :: high.toUInt8 :: (high >>> 8).toUInt8 :: bytes)
        0 := by
  have hshift : (high.toUInt32 <<< 16).toBitVec = high.toUInt32.toBitVec <<< 16 := rfl
  rw [blockOf, UInt32.toBitVec_or, hshift, toBitVec_unit low, toBitVec_unit high,
    BitVec.shiftLeft_or_distrib, ← BitVec.shiftLeft_add, BitVec.or_assoc, block]
  simp only [byteAt, Nat.mul_zero, Nat.zero_add, List.getD_cons_zero, List.getD_cons_succ,
    BitVec.or_assoc]

/-! ## Bytes from the front -/

theorem byteAt_add_four (b₀ b₁ b₂ b₃ : UInt8) (bytes : List UInt8) (i : Nat) :
    byteAt (b₀ :: b₁ :: b₂ :: b₃ :: bytes) (i + 4) = byteAt bytes i := rfl

theorem block_succ (b₀ b₁ b₂ b₃ : UInt8) (bytes : List UInt8) (i : Nat) :
    block (b₀ :: b₁ :: b₂ :: b₃ :: bytes) (i + 1) = block bytes i := by
  have hplace (j : Nat) : 4 * (i + 1) + j = 4 * i + j + 4 := by omega
  rw [block, hplace 1, hplace 2, hplace 3, Nat.mul_succ]
  simp only [byteAt_add_four, block]

theorem body_cons (seed : BitVec 32) (b₀ b₁ b₂ b₃ : UInt8) (bytes : List UInt8) :
    body seed (b₀ :: b₁ :: b₂ :: b₃ :: bytes) =
      body (mixState seed (block (b₀ :: b₁ :: b₂ :: b₃ :: bytes) 0)) bytes := by
  have hcount : (b₀ :: b₁ :: b₂ :: b₃ :: bytes).length / 4 = bytes.length / 4 + 1 := by
    simp only [List.length_cons]
    omega
  rw [body, hcount, List.range_succ_eq_map, List.foldl_cons, List.foldl_map]
  simp only [Nat.succ_eq_add_one, block_succ, body]

theorem withTail_cons (h : BitVec 32) (b₀ b₁ b₂ b₃ : UInt8) (bytes : List UInt8) :
    withTail h (b₀ :: b₁ :: b₂ :: b₃ :: bytes) = withTail h bytes := by
  have hrest : (b₀ :: b₁ :: b₂ :: b₃ :: bytes).length % 4 = bytes.length % 4 := by
    simp only [List.length_cons]
    omega
  have hstart : (b₀ :: b₁ :: b₂ :: b₃ :: bytes).length / 4 * 4 = bytes.length / 4 * 4 + 4 := by
    simp only [List.length_cons]
    omega
  have hplace (j : Nat) : bytes.length / 4 * 4 + 4 + j = bytes.length / 4 * 4 + j + 4 := by omega
  simp only [withTail, hrest, hstart, hplace, byteAt_add_four]

/-! ## Units and bytes -/

theorem withTail_body_littleEndian (state : UInt32) (us : List UInt16) :
    withTail (body state.toBitVec (littleEndian us)) (littleEndian us) =
      (absorbUnits state us).toBitVec := by
  fun_induction absorbUnits state us with
  | case1 state => rfl
  | case2 state last =>
      -- an odd last unit is a tail of two bytes, which the tail joins by exclusive or
      rw [UInt32.toBitVec_xor, toBitVec_scramble, toBitVec_unit, ← xor_bytes]
      simp [withTail, body, byteAt]
  | case3 state low high rest ih =>
      rw [littleEndian_cons, littleEndian_cons, withTail_cons, body_cons, ← toBitVec_blockOf,
        ← toBitVec_absorb]
      exact ih

theorem toBitVec_murmurUnits (us : List UInt16) :
    (murmurUnits us).toBitVec = hashBytes 0 (littleEndian us) := by
  rw [murmurUnits, toBitVec_avalanche, hashBytes, UInt32.toBitVec_xor,
    ← withTail_body_littleEndian, length_littleEndian]
  rfl

/-- The hash of a text is Murmur3 with seed zero of the little-endian bytes of its units, read as
a signed number. -/
theorem murmur_eq_hashBytes (s : String) :
    (murmur s).toInt = (hashBytes 0 (littleEndian (Text.units s))).toInt := by
  rw [← toBitVec_murmurUnits]
  rfl

end Moniker.Hash.Murmur3
