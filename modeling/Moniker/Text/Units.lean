/-! # Sixteen-bit units of text

Hash codes and the order of names look at a text as its sequence of UTF-16 units, so a
scalar beyond the basic plane counts as two. -/

namespace Moniker.Text

/-- A scalar below `0x10000` is its own unit; any other becomes a high and a low surrogate. -/
def charUnits (c : Char) : List UInt16 :=
  if c.val < 0x10000 then [c.val.toUInt16]
  else
    let offset : UInt32 := c.val - 0x10000
    let high : UInt32 := 0xD800 + offset / 0x400
    let low : UInt32 := 0xDC00 + offset % 0x400
    [high.toUInt16, low.toUInt16]

def units (s : String) : List UInt16 :=
  s.toList.flatMap charUnits

/-- Texts are compared unit by unit, and a text that ends first comes first. -/
def compareUnits (a b : String) : Ordering :=
  compare (units a) (units b)

/-! ## Small laws -/

@[simp] theorem units_empty : units "" = [] := rfl

@[simp] theorem units_append (a b : String) : units (a ++ b) = units a ++ units b := by
  simp [units]

theorem charUnits_ne_nil (c : Char) : charUnits c ≠ [] := by
  unfold charUnits; split <;> simp

theorem units_eq_nil_iff {s : String} : units s = [] ↔ s = "" := by
  simp only [units, List.flatMap_eq_nil_iff]
  constructor
  · intro h
    cases hs : s.toList with
    | nil => exact String.toList_eq_nil_iff.mp hs
    | cons c r => exact absurd (h c (by simp [hs])) (charUnits_ne_nil c)
  · rintro rfl; simp

/-- A text sorts as equal to itself. -/
@[simp] theorem compareUnits_self (a : String) : compareUnits a a = .eq := by
  simp [compareUnits]

end Moniker.Text
