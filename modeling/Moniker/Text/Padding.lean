/-! # Fields of a fixed width

A field shows a text cut to a greatest length and filled with spaces to a least width. Both are
counted in scalars. -/

namespace Moniker.Text

/-- Where a text stands in a wider field. -/
inductive Alignment where
  | left
  | center
  | right
  deriving DecidableEq, Repr

def spaces (n : Nat) : String :=
  String.ofList (List.replicate n ' ')

/-- A text of at least `width` scalars. In the center an odd space goes to the right. -/
def padded (alignment : Alignment) (width : Nat) (s : String) : String :=
  let fill := width - s.length
  match alignment with
  | .left => s ++ spaces fill
  | .right => spaces fill ++ s
  | .center => spaces (fill / 2) ++ s ++ spaces (fill - fill / 2)

/-- A text cut to at most `precision` scalars, if there is such a limit. -/
def truncated (precision : Option Nat) (s : String) : String :=
  match precision with
  | none => s
  | some n => String.ofList (s.toList.take n)

/-- A text that starts its field, as the columns of a report do. -/
def column (width : Nat) (s : String) : String :=
  padded .left width s

/-! ## Small laws -/

@[simp] theorem length_spaces (n : Nat) : (spaces n).length = n := by
  simp [spaces]

/-- A padded text has the width of its field, or its own where that is greater. -/
@[simp] theorem length_padded (alignment : Alignment) (width : Nat) (s : String) :
    (padded alignment width s).length = max width s.length := by
  cases alignment <;> simp only [padded, String.length_append, length_spaces] <;> omega

end Moniker.Text
