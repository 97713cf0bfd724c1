import Moniker.Hash.Combine

/-! # Kinds of identifier

An identifier is a symbol or a keyword. The two kinds of one name have hash codes a fixed
distance apart. -/

namespace Moniker

/-- The kinds in their order: symbols come before keywords. -/
inductive Kind where
  | symbol
  | keyword
  deriving DecidableEq, Repr, Ord

namespace Kind

/-- The word by which reports and manifests name a kind. -/
def text : Kind → String
  | symbol => "symbol"
  | keyword => "keyword"

/-- Reads a kind's word, which must be exact. -/
def ofText? : String → Option Kind
  | "symbol" => some symbol
  | "keyword" => some keyword
  | _ => none

/-- The distance of the kind's hash codes from those of symbols. -/
def tag : Kind → Int32
  | symbol => 0
  | keyword => Hash.goldenRatio

/-- The hash code of a kind from the code that its name has in every kind. -/
def fold (k : Kind) (base : Int32) : Int32 :=
  base + k.tag

/-! ## Small laws -/

@[simp] theorem ofText?_text (k : Kind) : ofText? k.text = some k := by
  cases k <;> rfl

@[simp] theorem fold_symbol (base : Int32) : symbol.fold base = base := by
  simp [fold, tag]

theorem fold_inj {k : Kind} {a b : Int32} : k.fold a = k.fold b ↔ a = b := by
  simp [fold, Int32.add_left_inj]

end Kind

end Moniker
