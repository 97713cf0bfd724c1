import Moniker.Proofs.OrderedMap

/-! # Equality of ordered maps

The test of equality compares sizes and looks the keys of the left map up in the right one. No
key is there twice, so by counting it settles the keys of the right map as well: equal maps bind
the same keys to equal values, and nothing else can be told from them. -/

namespace Moniker.OrderedMap

variable {κ ν : Type} [BEq κ] {m n : OrderedMap κ ν}

theorem size_erase_of_contains {k : κ} (h : m.contains k) : (m.erase k).size + 1 = m.size := by
  obtain ⟨e, he, hk⟩ := List.any_eq_true.mp h
  have hlength : (m.erase k).size = m.size - 1 := List.length_eraseP_of_mem he hk
  have hpos : 0 < m.size := List.length_pos_of_mem he
  omega

section Lawful

variable [EquivBEq κ]

theorem get?_congr (m : OrderedMap κ ν) {j k : κ} (h : j == k) : m.get? j = m.get? k := by
  have hsame : (fun e : κ × ν => e.1 == j) = fun e => e.1 == k :=
    funext fun e => BEq.congr_right h
  rw [get?, hsame, get?]

theorem contains_congr (m : OrderedMap κ ν) {j k : κ} (h : j == k) :
    m.contains j = m.contains k := by
  rw [contains_eq_isSome_get?, m.get?_congr h, contains_eq_isSome_get?]

theorem contains_of_mem {e : κ × ν} (he : e ∈ m.entries) : m.contains e.1 := by
  rw [contains, List.any_eq_true]
  exact ⟨e, he, BEq.rfl⟩

theorem Distinct.get?_eq_some_iff (hm : m.Distinct) {k : κ} {v : ν} :
    m.get? k = some v ↔ ∃ e ∈ m.entries, e.1 == k ∧ e.2 = v := by
  constructor
  · intro h
    obtain ⟨e, he, hv⟩ := Option.map_eq_some_iff.mp h
    have hk := List.find?_some he
    exact ⟨e, List.mem_of_find?_eq_some he, hk, hv⟩
  · rintro ⟨e, he, hk, rfl⟩
    rw [← m.get?_congr hk]
    exact hm.get?_of_mem he

/-! ## Counting -/

/-- A map is no larger than one that binds all its keys. -/
theorem Distinct.size_le (hm : m.Distinct) (hn : n.Distinct)
    (h : ∀ k, m.contains k → n.contains k) : m.size ≤ n.size := by
  obtain ⟨entries⟩ := m
  induction entries generalizing n with
  | nil => exact Nat.zero_le _
  | cons e rest ih =>
      obtain ⟨hhead, hrest⟩ := List.pairwise_cons.mp hm
      have hsize := size_erase_of_contains (h e.1 (contains_of_mem List.mem_cons_self))
      -- the other keys are still there when the first one is taken out of the larger map
      have hle := ih (hn.erase e.1) hrest fun k hk => by
        rw [hn.contains_erase]
        refine ⟨?_, h k ?_⟩
        · intro hek
          obtain ⟨j, hj, hjk⟩ := contains_iff_mem_keys.mp hk
          exact hhead j hj (BEq.trans hek (BEq.symm hjk))
        · simp only [contains, List.any_cons, Bool.or_eq_true]
          exact .inr hk
      simp only [size, List.length_cons] at hle hsize ⊢
      omega

/-- Of two maps of one size, neither binds more keys than the other. -/
theorem Distinct.contains_of_size_le (hm : m.Distinct) (hn : n.Distinct)
    (h : ∀ k, m.contains k → n.contains k) (hsize : n.size ≤ m.size) {k : κ}
    (hk : n.contains k) : m.contains k := by
  by_contra hnew
  have hle := hm.size_le (hn.erase k) fun j hj => by
    rw [hn.contains_erase]
    refine ⟨?_, h j hj⟩
    intro hkj
    rw [m.contains_congr hkj] at hnew
    exact hnew hj
  have herase := size_erase_of_contains hk
  omega

end Lawful

/-! ## Same bindings -/

/-- Maps that bind the same keys, to values that are related. -/
def SameBindings (R : ν → ν → Prop) (m n : OrderedMap κ ν) : Prop :=
  ∀ k, Option.Rel R (m.get? k) (n.get? k)

section

variable {R : ν → ν → Prop}

theorem rel_equivalence (hR : Equivalence R) : Equivalence (Option.Rel R) where
  refl a := by
    cases a with
    | none => exact .none
    | some v => exact .some (hR.refl v)
  symm h := by
    cases h with
    | none => exact .none
    | some hvw => exact .some (hR.symm hvw)
  trans hab hbc := by
    cases hab with
    | none => exact hbc
    | some huv =>
        cases hbc with
        | some hvw => exact .some (hR.trans huv hvw)

theorem rel_or {a b c d : Option ν} (hab : Option.Rel R a b) (hcd : Option.Rel R c d) :
    Option.Rel R (a.or c) (b.or d) := by
  cases hab with
  | none => exact hcd
  | some hvw => exact .some hvw

theorem sameBindings_equivalence (hR : Equivalence R) :
    Equivalence (SameBindings R : OrderedMap κ ν → OrderedMap κ ν → Prop) where
  refl m k := (rel_equivalence hR).refl (m.get? k)
  symm h k := (rel_equivalence hR).symm (h k)
  trans h h' k := (rel_equivalence hR).trans (h k) (h' k)

theorem sameBindings_of_get?_eq (hR : Equivalence R) (h : ∀ k, m.get? k = n.get? k) :
    SameBindings R m n := by
  intro k
  rw [h k]
  exact (rel_equivalence hR).refl (n.get? k)

theorem sameBindings_iff : SameBindings R m n ↔
    (∀ k, m.contains k ↔ n.contains k) ∧
      ∀ k v w, m.get? k = some v → n.get? k = some w → R v w := by
  simp only [SameBindings, contains_eq_isSome_get?]
  constructor
  · intro h
    refine ⟨?_, ?_⟩
    · intro k
      have hk := h k
      generalize m.get? k = a at hk ⊢
      generalize n.get? k = b at hk ⊢
      cases hk with
      | none => rfl
      | some _ => rfl
    · intro k v w hv hw
      have hk := h k
      rwa [hv, hw, Option.rel_some_some] at hk
  · rintro ⟨hkeys, hvalues⟩ k
    cases hv : m.get? k with
    | none =>
        have hw : n.get? k = none := by simpa [hv] using hkeys k
        rw [hw]
        exact .none
    | some v =>
        obtain ⟨w, hw⟩ : ∃ w, n.get? k = some w := by
          simpa [hv, Option.isSome_iff_exists] using hkeys k
        rw [hw]
        exact .some (hvalues k v w hv hw)

theorem SameBindings.insert [EquivBEq κ] (h : SameBindings R m n) (k : κ) {v w : ν}
    (hvw : R v w) : SameBindings R (m.insert k v) (n.insert k w) := by
  intro j
  rw [get?_insert, get?_insert]
  split
  · exact .some hvw
  · exact h j

theorem SameBindings.erase [EquivBEq κ] (h : SameBindings R m n) (hm : m.Distinct)
    (hn : n.Distinct) (k : κ) : SameBindings R (m.erase k) (n.erase k) := by
  intro j
  rw [hm.get?_erase, hn.get?_erase]
  split
  · exact .none
  · exact h j

end

section Lawful

variable [EquivBEq κ]

/-- After a merge the right map is asked first. -/
theorem Distinct.get?_merge (hn : n.Distinct) (m : OrderedMap κ ν) (k : κ) :
    (m.merge n).get? k = (n.get? k).or (m.get? k) := by
  obtain ⟨entries⟩ := n
  induction entries generalizing m with
  | nil => rfl
  | cons e rest ih =>
      obtain ⟨hhead, hrest⟩ := List.pairwise_cons.mp hn
      have hstep : m.merge ⟨e :: rest⟩ = (m.insert e.1 e.2).merge ⟨rest⟩ := rfl
      rw [hstep, ih _ hrest, get?_insert]
      by_cases hk : e.1 == k
      · -- the first key is not bound again by the rest
        have hnone : (⟨rest⟩ : OrderedMap κ ν).get? k = none := by
          rw [← Option.not_isSome_iff_eq_none, ← contains_eq_isSome_get?, contains_iff_mem_keys]
          rintro ⟨j, hj, hjk⟩
          exact hhead j hj (BEq.trans hk (BEq.symm hjk))
        rw [hnone]
        simp [get?, hk]
      · simp [get?, hk]

theorem SameBindings.merge {R : ν → ν → Prop} {m' n' : OrderedMap κ ν} (h : SameBindings R m n)
    (h' : SameBindings R m' n') (hm' : m'.Distinct) (hn' : n'.Distinct) :
    SameBindings R (m.merge m') (n.merge n') := by
  intro k
  rw [hm'.get?_merge, hn'.get?_merge]
  exact rel_or (h' k) (h k)

/-- Different keys may be bound in either order. -/
theorem get?_insert_comm (m : OrderedMap κ ν) {j k : κ} (hjk : ¬j == k) (v w : ν) (i : κ) :
    ((m.insert j v).insert k w).get? i = ((m.insert k w).insert j v).get? i := by
  simp only [get?_insert]
  by_cases hj : j == i
  · have hk : ¬k == i := fun hk => hjk (BEq.trans hj (BEq.symm hk))
    simp [hj, hk]
  · simp [hj]

/-- The order of entries is no matter to a look-up. -/
theorem Distinct.get?_eq_of_perm (hm : m.Distinct) (h : m.entries.Perm n.entries) (k : κ) :
    m.get? k = n.get? k := by
  have hn : n.Distinct :=
    (h.map _).pairwise hm fun hab hba => hab (BEq.symm hba)
  apply Option.ext
  intro v
  rw [hm.get?_eq_some_iff, hn.get?_eq_some_iff]
  simp only [h.mem_iff]

/-! ## The test of equality -/

variable [BEq ν]

omit [EquivBEq κ] in
theorem beq_iff_entries : m == n ↔
    m.size = n.size ∧ ∀ e ∈ m.entries, ∃ w, n.get? e.1 = some w ∧ e.2 == w := by
  simp [BEq.beq, Option.any_eq_true]

/-- Equal maps bind the same keys to equal values, whatever the order of the keys. -/
theorem Distinct.beq_iff (hm : m.Distinct) (hn : n.Distinct) :
    m == n ↔ SameBindings (fun v w => v == w) m n := by
  rw [beq_iff_entries]
  constructor
  · rintro ⟨hsize, hvalues⟩ k
    have hright : ∀ {j v}, m.get? j = some v → ∃ w, n.get? j = some w ∧ v == w := by
      intro j v hv
      obtain ⟨e, he, hj, rfl⟩ := hm.get?_eq_some_iff.mp hv
      rw [← n.get?_congr hj]
      exact hvalues e he
    cases hv : m.get? k with
    | some v =>
        obtain ⟨w, hw, hvw⟩ := hright hv
        rw [hw]
        exact .some hvw
    | none =>
        have hsub : ∀ j, m.contains j → n.contains j := by
          simp only [contains_eq_isSome_get?, Option.isSome_iff_exists]
          rintro j ⟨v, hv⟩
          obtain ⟨w, hw, -⟩ := hright hv
          exact ⟨w, hw⟩
        have hnone : ¬n.contains k := by
          intro hk
          have hleft := hm.contains_of_size_le hn hsub (Nat.le_of_eq hsize.symm) hk
          simp [contains_eq_isSome_get?, hv] at hleft
        rw [contains_eq_isSome_get?, Option.not_isSome_iff_eq_none] at hnone
        rw [hnone]
        exact .none
  · intro h
    obtain ⟨hkeys, hvalues⟩ := sameBindings_iff.mp h
    refine ⟨?_, ?_⟩
    · apply Nat.le_antisymm
      · exact hm.size_le hn fun k => (hkeys k).mp
      · exact hn.size_le hm fun k => (hkeys k).mpr
    · intro e he
      have hv := hm.get?_of_mem he
      have hkey := (hkeys e.1).mp (contains_of_mem he)
      rw [contains_eq_isSome_get?, Option.isSome_iff_exists] at hkey
      obtain ⟨w, hw⟩ := hkey
      exact ⟨w, hw, hvalues e.1 e.2 w hv hw⟩

end Lawful

end Moniker.OrderedMap
