import Moniker.Hash.Qualified

/-! # Keywords

A keyword is an instance made by a table: which table, and as which of its keywords, is all that
counts for equality. Its name and hash code never change. -/

namespace Moniker

/-- Which keyword this is: the number of its table and its place in the order in which that
table made its keywords. -/
structure KeywordId where
  table : Nat
  place : Nat
  deriving DecidableEq, Repr

/-- A keyword with its name and the hash code computed when it was made. -/
structure Keyword where
  id : KeywordId
  name : Name
  code : Int32

namespace Keyword

def marker : Char := ':'

/-- Keywords are equal when they are the same instance, whatever their names. -/
instance : BEq Keyword where
  beq a b := a.id == b.id

/-- The printed form, marker and fully qualified text. -/
def text (k : Keyword) : String :=
  String.singleton marker ++ k.name.fqn

def diagnostic (k : Keyword) : String :=
  "Keyword(" ++ k.text ++ ")"

/-- Keywords are ordered by name, and different instances of one name by their addresses. -/
def compareBy (address : KeywordId → Nat) (a b : Keyword) : Ordering :=
  if a == b then .eq
  else (compare a.name b.name).then (compare (address a.id) (address b.id))

instance : EquivBEq Keyword where
  rfl := by simp [BEq.beq]
  symm h := by simp_all [BEq.beq]
  trans h₁ h₂ := by simp_all [BEq.beq]

theorem beq_iff_id_eq {a b : Keyword} : a == b ↔ a.id = b.id := by
  simp [BEq.beq]

end Keyword

end Moniker
