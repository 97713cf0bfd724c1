import Moniker.Proofs.Units

/-! # The order by units and the order by scalars

Characters beyond the basic plane are written with surrogates, and these come before the last
characters within the plane. Apart from that the units of two texts compare as their scalar
values do. -/

namespace Moniker.Text

/-- Texts compared by the scalar values of their characters, a text that ends first coming
first. -/
def compareScalars (a b : String) : Ordering :=
  compare (a.toList.map Char.toNat) (b.toList.map Char.toNat)

/-- One character is beyond the basic plane, the other within it and after the surrogates. -/
def Crossed (c d : Char) : Prop :=
  0x10000 ≤ c.toNat ∧ 0xE000 ≤ d.toNat ∧ d.toNat ≤ 0xFFFF ∨
    0x10000 ≤ d.toNat ∧ 0xE000 ≤ c.toNat ∧ c.toNat ≤ 0xFFFF

instance (c d : Char) : Decidable (Crossed c d) :=
  inferInstanceAs (Decidable (_ ∨ _))

theorem Crossed.symm {c d : Char} (h : Crossed c d) : Crossed d c :=
  Or.symm h

/-- The characters in the first place where two sequences differ. -/
def firstDifference (cs ds : List Char) : Option (Char × Char) :=
  (cs.zip ds).find? fun p => p.1 != p.2

/-- The first characters that tell two texts apart are crossed. -/
def FirstCrossed (a b : String) : Prop :=
  ∃ p ∈ firstDifference a.toList b.toList, Crossed p.1 p.2

instance (a b : String) : Decidable (FirstCrossed a b) :=
  inferInstanceAs (Decidable (∃ p ∈ firstDifference a.toList b.toList, Crossed p.1 p.2))

@[simp] theorem firstDifference_nil_left (ds : List Char) : firstDifference [] ds = none := rfl

@[simp] theorem firstDifference_nil_right (cs : List Char) : firstDifference cs [] = none := by
  simp [firstDifference]

theorem firstDifference_cons_self (c : Char) (cs ds : List Char) :
    firstDifference (c :: cs) (c :: ds) = firstDifference cs ds := by
  simp [firstDifference]

theorem firstDifference_cons_of_ne {c d : Char} (h : c ≠ d) (cs ds : List Char) :
    firstDifference (c :: cs) (d :: ds) = some (c, d) := by
  simp [firstDifference, h]

theorem firstDifference_self (cs : List Char) : firstDifference cs cs = none := by
  induction cs with
  | nil => rfl
  | cons c cs ih => rw [firstDifference_cons_self, ih]

/-! ## Lexicographic comparison -/

section Lexicographic

variable {α : Type} [Ord α]

theorem compare_append_left [Std.ReflOrd α] (xs ys zs : List α) :
    compare (xs ++ ys) (xs ++ zs) = compare ys zs := by
  induction xs with
  | nil => rfl
  | cons x xs ih =>
      rw [List.cons_append, List.cons_append, List.compare_cons_cons, Std.ReflOrd.compare_self,
        Ordering.eq_then, ih]

theorem compare_cons_of_eq [Std.ReflOrd α] (x : α) (ys zs : List α) :
    compare (x :: ys) (x :: zs) = compare ys zs :=
  compare_append_left [x] ys zs

end Lexicographic

theorem compare_cons_of_ne {x y : Nat} (h : x ≠ y) (xs ys : List Nat) :
    compare (x :: xs) (y :: ys) = compare x y := by
  rw [List.compare_cons_cons]
  cases hxy : compare x y with
  | lt => rfl
  | eq => exact absurd (Nat.compare_eq_eq.mp hxy) h
  | gt => rfl

theorem compare_cons_of_lt {x y : Nat} (h : x < y) (xs ys : List Nat) :
    compare (x :: xs) (y :: ys) = .lt := by
  rw [compare_cons_of_ne (Nat.ne_of_lt h), Nat.compare_eq_lt.mpr h]

theorem compare_cons_of_gt {x y : Nat} (h : y < x) (xs ys : List Nat) :
    compare (x :: xs) (y :: ys) = .gt := by
  rw [compare_cons_of_ne (Nat.ne_of_gt h), Nat.compare_eq_gt.mpr h]

/-- Units compare as numbers do. -/
theorem compare_toNat (u v : UInt16) : compare u.toNat v.toNat = compare u v := by
  simp only [compare, compareOfLessAndEq, UInt16.lt_iff_toNat_lt, UInt16.toNat_inj]

theorem compare_map_toNat (us vs : List UInt16) :
    compare (us.map (·.toNat)) (vs.map (·.toNat)) = compare us vs := by
  induction us generalizing vs with
  | nil => cases vs <;> rfl
  | cons u us ih =>
      cases vs with
      | nil => rfl
      | cons v vs =>
          rw [List.map_cons, List.map_cons, List.compare_cons_cons, List.compare_cons_cons, ih,
            compare_toNat]

/-! ## One character against another -/

/-- The units of two characters compare as the characters do, unless these are crossed. -/
theorem compare_charUnits_of_lt {c d : Char} (h : c.toNat < d.toNat) (us vs : List UInt16) :
    compare (charUnits c ++ us) (charUnits d ++ vs) = if Crossed c d then .gt else .lt := by
  have hc := toNat_lt_or_gt_surrogates c
  have hd := toNat_lt_or_gt_surrogates d
  have hcrossed : Crossed c d ↔ 0x10000 ≤ d.toNat ∧ 0xE000 ≤ c.toNat ∧ c.toNat ≤ 0xFFFF := by
    unfold Crossed
    omega
  rw [← compare_map_toNat, List.map_append, List.map_append, map_toNat_charUnits,
    map_toNat_charUnits]
  simp only [hcrossed]
  by_cases hbasic : d.toNat < 0x10000
  · rw [if_pos (show c.toNat < 0x10000 by omega), if_pos hbasic, if_neg (by omega)]
    exact compare_cons_of_lt h _ _
  · rw [if_neg hbasic]
    by_cases hlow : c.toNat < 0x10000
    · rw [if_pos hlow]
      -- a high surrogate against a scalar on either side of the surrogates
      by_cases hafter : 0xE000 ≤ c.toNat
      · rw [if_pos (by omega)]
        exact compare_cons_of_gt (by omega) _ _
      · rw [if_neg (by omega)]
        exact compare_cons_of_lt (by omega) _ _
    · rw [if_neg hlow, if_neg (by omega)]
      by_cases hhigh : (c.toNat - 0x10000) / 0x400 < (d.toNat - 0x10000) / 0x400
      · exact compare_cons_of_lt (by omega) _ _
      · have hsame : (c.toNat - 0x10000) / 0x400 = (d.toNat - 0x10000) / 0x400 := by omega
        rw [hsame, List.cons_append, List.cons_append, List.cons_append, List.cons_append,
          compare_cons_of_eq]
        exact compare_cons_of_lt (by omega) _ _

theorem compare_charUnits_of_ne {c d : Char} (h : c ≠ d) (us vs : List UInt16) :
    compare (charUnits c ++ us) (charUnits d ++ vs) =
      if Crossed c d then (compare c.toNat d.toNat).swap else compare c.toNat d.toNat := by
  rcases Nat.lt_or_gt_of_ne (mt Char.toNat_inj.mp h) with hlt | hgt
  · rw [compare_charUnits_of_lt hlt, Nat.compare_eq_lt.mpr hlt]
    rfl
  · have hswap : compare (charUnits c ++ us) (charUnits d ++ vs) =
        (compare (charUnits d ++ vs) (charUnits c ++ us)).swap := Std.OrientedOrd.eq_swap
    have hsymm : Crossed c d ↔ Crossed d c := ⟨Crossed.symm, Crossed.symm⟩
    rw [hswap, compare_charUnits_of_lt hgt, Nat.compare_eq_gt.mpr hgt]
    simp only [hsymm]
    split <;> rfl

/-! ## Texts -/

theorem compare_flatMap_charUnits (cs ds : List Char) :
    compare (cs.flatMap charUnits) (ds.flatMap charUnits) =
      if ∃ p ∈ firstDifference cs ds, Crossed p.1 p.2 then
        (compare (cs.map Char.toNat) (ds.map Char.toNat)).swap
      else compare (cs.map Char.toNat) (ds.map Char.toNat) := by
  induction cs generalizing ds with
  | nil =>
      cases ds with
      | nil => simp
      | cons d ds =>
          obtain ⟨u, us, hunits⟩ := List.exists_cons_of_ne_nil (charUnits_ne_nil d)
          simp [hunits]
  | cons c cs ih =>
      cases ds with
      | nil =>
          obtain ⟨u, us, hunits⟩ := List.exists_cons_of_ne_nil (charUnits_ne_nil c)
          simp [hunits]
      | cons d ds =>
          rw [List.flatMap_cons, List.flatMap_cons, List.map_cons, List.map_cons]
          by_cases h : c = d
          · subst h
            rw [compare_append_left, compare_cons_of_eq, firstDifference_cons_self, ih]
          · have hne : c.toNat ≠ d.toNat := mt Char.toNat_inj.mp h
            rw [compare_charUnits_of_ne h, firstDifference_cons_of_ne h, compare_cons_of_ne hne]
            simp

theorem compareUnits_eq_ite (a b : String) :
    compareUnits a b =
      if FirstCrossed a b then (compareScalars a b).swap else compareScalars a b :=
  compare_flatMap_charUnits a.toList b.toList

theorem FirstCrossed.ne {a b : String} (h : FirstCrossed a b) : a ≠ b := by
  rintro rfl
  obtain ⟨p, hp, -⟩ := h
  rw [firstDifference_self] at hp
  cases hp

theorem compareUnits_ne_compareScalars_iff (a b : String) :
    compareUnits a b ≠ compareScalars a b ↔ FirstCrossed a b := by
  constructor
  · intro h
    by_cases hcrossed : FirstCrossed a b
    · exact hcrossed
    · exact absurd (by rw [compareUnits_eq_ite, if_neg hcrossed]) h
  · intro h heq
    have hswap := compareUnits_eq_ite a b
    rw [if_pos h, ← heq] at hswap
    -- only a tie is its own reverse
    have htie : compareUnits a b = .eq := by
      cases hcmp : compareUnits a b <;> simp [hcmp] at hswap ⊢
    exact h.ne (Std.LawfulEqCmp.eq_of_compare htie)

theorem compareUnits_append_eq_lt_iff (a b : String) :
    compareUnits a (a ++ b) = .lt ↔ b ≠ "" := by
  have hrest : compareUnits a (a ++ b) = compare [] (units b) := by
    calc compareUnits a (a ++ b) = compare (units a ++ []) (units a ++ units b) := by
          rw [compareUnits, units_append, List.append_nil]
      _ = compare [] (units b) := compare_append_left (units a) [] (units b)
  rw [hrest, ne_eq, ← units_eq_nil_iff]
  cases units b <;> simp

/-- Texts compare by units as they do by scalars, except in reverse if their first difference is
between a character beyond the basic plane and one within it after the surrogates. Only equal
texts tie, and a text comes before those that go on after it. -/
theorem units_order_against_scalars (a b : String) :
    (compareUnits a b =
      if FirstCrossed a b then (compareScalars a b).swap else compareScalars a b) ∧
    (compareUnits a b ≠ compareScalars a b ↔ FirstCrossed a b) ∧
    (compareUnits a b = .eq ↔ a = b) ∧
    (compareUnits a (a ++ b) = .lt ↔ b ≠ "") :=
  ⟨compareUnits_eq_ite a b, compareUnits_ne_compareScalars_iff a b,
    Std.LawfulEqCmp.compare_eq_iff_eq, compareUnits_append_eq_lt_iff a b⟩

example : compareUnits "🦀" "Ａ" = .lt ∧ compareScalars "🦀" "Ａ" = .gt := by decide

end Moniker.Text
