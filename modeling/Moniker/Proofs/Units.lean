import Moniker.Text.Units

/-! # Texts told apart by their units

No character's units begin with those of another, so a text can be read back from its units.
Comparing the units therefore orders texts totally, and only a text itself ties with it. -/

namespace Moniker.Text

theorem toNat_lt_or_gt_surrogates (c : Char) :
    c.toNat < 0xD800 ∨ 0xDFFF < c.toNat ∧ c.toNat < 0x110000 :=
  c.valid

/-- The units as numbers: the scalar itself, or the ten high and the ten low bits of what is
left above the basic plane. -/
theorem map_toNat_charUnits (c : Char) :
    (charUnits c).map (·.toNat) =
      if c.toNat < 0x10000 then [c.toNat]
      else [0xD800 + (c.toNat - 0x10000) / 0x400, 0xDC00 + (c.toNat - 0x10000) % 0x400] := by
  have hvalid := toNat_lt_or_gt_surrogates c
  have hval : c.val.toNat = c.toNat := Char.toNat_val
  by_cases h : c.toNat < 0x10000
  · have hbasic : c.val < 0x10000 := by
      rw [UInt32.lt_iff_toNat_lt, hval]
      exact h
    simp only [charUnits, hbasic, h, if_true, List.map_cons, List.map_nil,
      UInt32.toNat_toUInt16, hval, List.cons.injEq, and_true]
    omega
  · have hbeyond : ¬c.val < 0x10000 := by
      rw [UInt32.lt_iff_toNat_lt, hval]
      exact h
    have hoffset : (c.val - 0x10000).toNat = c.toNat - 0x10000 := by
      rw [UInt32.toNat_sub_of_le _ _ (UInt32.not_lt.mp hbeyond), hval]
      rfl
    simp only [charUnits, hbeyond, h, if_false, List.map_cons, List.map_nil,
      UInt32.toNat_toUInt16, UInt32.toNat_add, UInt32.toNat_div, UInt32.toNat_mod, hoffset,
      UInt32.reduceToNat, List.cons.injEq, and_true]
    omega

/-- Where two sequences of units agree, their first characters do. -/
theorem charUnits_append_inj {c d : Char} {us vs : List UInt16}
    (h : charUnits c ++ us = charUnits d ++ vs) : c = d ∧ us = vs := by
  have hc := toNat_lt_or_gt_surrogates c
  have hd := toNat_lt_or_gt_surrogates d
  have hnat := congrArg (List.map (·.toNat)) h
  rw [List.map_append, List.map_append, map_toNat_charUnits, map_toNat_charUnits] at hnat
  have hscalar : c.toNat = d.toNat := by
    -- a scalar of the basic plane is no surrogate, so either both have one unit or both have two
    split at hnat <;> split at hnat <;>
      simp only [List.cons_append, List.nil_append, List.cons.injEq] at hnat <;> omega
  obtain rfl := Char.toNat_inj.mp hscalar
  exact ⟨rfl, List.append_cancel_left h⟩

theorem flatMap_charUnits_inj {cs ds : List Char}
    (h : cs.flatMap charUnits = ds.flatMap charUnits) : cs = ds := by
  induction cs generalizing ds with
  | nil =>
      cases ds with
      | nil => rfl
      | cons d ds => simp [charUnits_ne_nil] at h
  | cons c cs ih =>
      cases ds with
      | nil => simp [charUnits_ne_nil] at h
      | cons d ds =>
          rw [List.flatMap_cons, List.flatMap_cons] at h
          obtain ⟨rfl, hrest⟩ := charUnits_append_inj h
          rw [ih hrest]

theorem units_inj {a b : String} : units a = units b ↔ a = b := by
  constructor
  · intro h
    exact String.toList_inj.mp (flatMap_charUnits_inj h)
  · rintro rfl
    rfl

/-! ## The order of texts -/

instance : Std.TransCmp compareUnits :=
  inferInstanceAs (Std.TransCmp (compareOn units))

instance : Std.LawfulEqCmp compareUnits where
  compare_self := compareUnits_self _
  eq_of_compare h := units_inj.mp (Std.LawfulEqOrd.eq_of_compare h)

end Moniker.Text
