import Moniker.Text.Units

/-! # The namespace hash

A namespace is hashed as a polynomial in 31 whose coefficients are the units of the text, the
last unit being the constant term. The value is a 32-bit word. -/

namespace Moniker.Hash

/-- The polynomial hash of a sequence of units, continued from the value `start`. -/
def polynomialFrom (start : Int32) (us : List UInt16) : Int32 :=
  us.foldl (fun h u => h * 31 + u.toUInt32.toInt32) start

def polynomial (s : String) : Int32 :=
  polynomialFrom 0 (Text.units s)

/-! ## Small laws -/

@[simp] theorem polynomialFrom_nil (start : Int32) : polynomialFrom start [] = start := rfl

@[simp] theorem polynomialFrom_cons (start : Int32) (u : UInt16) (us : List UInt16) :
    polynomialFrom start (u :: us) = polynomialFrom (start * 31 + u.toUInt32.toInt32) us := rfl

/-- Hashing can stop between two sequences and continue from the value reached. -/
theorem polynomialFrom_append (start : Int32) (us vs : List UInt16) :
    polynomialFrom start (us ++ vs) = polynomialFrom (polynomialFrom start us) vs := by
  simp [polynomialFrom]

@[simp] theorem polynomial_empty : polynomial "" = 0 := rfl

end Moniker.Hash
