import Mathlib.Algebra.BigOperators.Fin
import Mathlib.Tactic.Ring
import Moniker.Hash.Polynomial

/-! # The namespace hash as a number

The units of a text are the digits, to the base 31, of a number. The hash of the text is what
that number leaves in a signed word, and joining texts joins the digits. -/

namespace Moniker.Hash

open Text

/-! ## Words and numbers -/

theorem toInt32_unit (u : UInt16) : u.toUInt32.toInt32 = Int32.ofInt u.toNat := by
  have hu := u.toNat_lt
  apply Int32.toBitVec_inj.mp
  apply BitVec.eq_of_toNat_eq
  rw [Int32.toBitVec_ofInt, BitVec.ofInt_natCast, BitVec.toNat_ofNat, Nat.mod_eq_of_lt (by omega)]
  rfl

theorem ofInt_pow (z : Int) (n : Nat) : Int32.ofInt (z ^ n) = Int32.ofInt z ^ n := by
  induction n with
  | zero =>
      rw [pow_zero, Int32.pow_zero]
      rfl
  | succ n ih => rw [pow_succ, Int32.ofInt_mul, ih, Int32.pow_succ]

/-! ## Digits -/

/-- The number whose digits to the base 31 are the units, the last of them the lowest. -/
def numeral (us : List UInt16) : Int :=
  ∑ i : Fin us.length, (us[i].toNat : Int) * 31 ^ (us.length - 1 - i)

theorem numeral_cons (u : UInt16) (us : List UInt16) :
    numeral (u :: us) = u.toNat * 31 ^ us.length + numeral us := by
  refine (Fin.sum_univ_succ _).trans (congrArg₂ (· + ·) rfl (Finset.sum_congr rfl fun i _ => ?_))
  have hplace : us.length + 1 - 1 - (i + 1) = us.length - 1 - i := by omega
  simp only [List.length_cons, Fin.val_succ, hplace]
  rfl

/-- A hash that starts at a number ends at that number with the digits written after it. -/
theorem polynomialFrom_ofInt (z : Int) (us : List UInt16) :
    polynomialFrom (Int32.ofInt z) us = Int32.ofInt (z * 31 ^ us.length + numeral us) := by
  induction us generalizing z with
  | nil => simp [numeral]
  | cons u us ih =>
      have hstep : Int32.ofInt z * 31 + u.toUInt32.toInt32 = Int32.ofInt (z * 31 + u.toNat) := by
        rw [Int32.ofInt_add, Int32.ofInt_mul, toInt32_unit]
        rfl
      have hdigits : (z * 31 + u.toNat) * 31 ^ us.length + numeral us =
          z * 31 ^ (us.length + 1) + (u.toNat * 31 ^ us.length + numeral us) := by ring
      rw [polynomialFrom_cons, hstep, ih, numeral_cons, List.length_cons, hdigits]

theorem polynomial_eq_ofInt (s : String) : polynomial s = Int32.ofInt (numeral (units s)) := by
  have h := polynomialFrom_ofInt 0 (units s)
  rwa [zero_mul, zero_add] at h

theorem polynomial_append (a b : String) :
    polynomial (a ++ b) = polynomial a * 31 ^ (units b).length + polynomial b := by
  calc polynomial (a ++ b)
      = polynomialFrom (Int32.ofInt (polynomial a).toInt) (units b) := by
        rw [polynomial, units_append, polynomialFrom_append, Int32.ofInt_toInt, polynomial]
    _ = Int32.ofInt (polynomial a).toInt * Int32.ofInt 31 ^ (units b).length +
          Int32.ofInt (numeral (units b)) := by
        rw [polynomialFrom_ofInt, Int32.ofInt_add, Int32.ofInt_mul, ofInt_pow]
    _ = polynomial a * 31 ^ (units b).length + polynomial b := by
        rw [Int32.ofInt_toInt, ← polynomial_eq_ofInt]
        rfl

/-- The hash of a text is the signed word of its units read as digits to the base 31. Joined texts
have joined digits, so the first hash moves up by as many places as the second text has units;
neither its characters nor its bytes would do. -/
theorem polynomial_is_positional :
    (∀ s : String, (polynomial s).toInt =
      (∑ i : Fin (units s).length,
        ((units s)[i].toNat : Int) * 31 ^ ((units s).length - 1 - i)).bmod (2 ^ 32)) ∧
    (∀ a b : String,
      polynomial (a ++ b) = polynomial a * 31 ^ (units b).length + polynomial b) ∧
    ∃ a b : String,
      polynomial (a ++ b) ≠ polynomial a * 31 ^ b.length + polynomial b ∧
      polynomial (a ++ b) ≠ polynomial a * 31 ^ b.utf8ByteSize + polynomial b := by
  refine ⟨fun s => ?_, polynomial_append, "a", "🦀", by decide, by decide⟩
  rw [polynomial_eq_ofInt, Int32.toInt_ofInt]
  rfl

end Moniker.Hash
