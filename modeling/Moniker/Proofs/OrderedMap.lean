import Mathlib.Data.List.Basic
import Moniker.OrderedMap

/-! # Ordered maps and their histories

What a map holds, and in which order, is told by the history of its keys: a key has the value
bound last, and the place of the first binding, since the key was last removed. -/

namespace Moniker

theorem getElem?_concat_eq_some_iff {α : Type} {l : List α} {a b : α} {i : Nat} :
    (l ++ [a])[i]? = some b ↔ l[i]? = some b ∨ i = l.length ∧ a = b := by
  rw [List.getElem?_append]
  split
  · rename_i hi
    have hne : i ≠ l.length := Nat.ne_of_lt hi
    simp [hne]
  · rename_i hi
    have hnone : l[i]? = none := List.getElem?_eq_none (Nat.le_of_not_lt hi)
    simp only [hnone, List.getElem?_singleton, Nat.sub_eq_zero_iff_le]
    by_cases hle : i ≤ l.length
    · have hlast : i = l.length := Nat.le_antisymm hle (Nat.le_of_not_lt hi)
      simp [hlast]
    · have hne : i ≠ l.length := fun h => hle (Nat.le_of_eq h)
      simp [hle, hne]

end Moniker

namespace Moniker.OrderedMap

variable {κ ν : Type} [BEq κ]

/-! ## Keys -/

/-- No key is there twice. -/
def Distinct (m : OrderedMap κ ν) : Prop :=
  m.keys.Pairwise fun a b => ¬a == b

theorem contains_iff_mem_keys {m : OrderedMap κ ν} {k : κ} :
    m.contains k ↔ ∃ j ∈ m.keys, j == k := by
  simp [contains, keys]

omit [BEq κ] in
theorem length_keys (m : OrderedMap κ ν) : m.keys.length = m.size := by
  simp [keys, size]

theorem keys_insert_of_contains {m : OrderedMap κ ν} {k : κ} (h : m.contains k) (v : ν) :
    (m.insert k v).keys = m.keys := by
  obtain ⟨entries⟩ := m
  simp only [contains, keys, insert] at h ⊢
  induction entries with
  | nil => simp at h
  | cons e rest ih =>
      by_cases he : e.1 == k
      · simp [insertEntry, he]
      · have hrest : rest.any (·.1 == k) := by simpa [he] using h
        simp [insertEntry, he, ih hrest]

theorem entries_insert_of_not_contains {m : OrderedMap κ ν} {k : κ} (h : ¬m.contains k) (v : ν) :
    (m.insert k v).entries = m.entries ++ [(k, v)] := by
  obtain ⟨entries⟩ := m
  simp only [contains, insert] at h ⊢
  induction entries with
  | nil => rfl
  | cons e rest ih =>
      simp only [List.any_cons, Bool.or_eq_true, not_or] at h
      simp [insertEntry, h.1, ih h.2]

theorem keys_insert_of_not_contains {m : OrderedMap κ ν} {k : κ} (h : ¬m.contains k) (v : ν) :
    (m.insert k v).keys = m.keys ++ [k] := by
  simp [keys, entries_insert_of_not_contains h]

theorem erase_of_not_contains {m : OrderedMap κ ν} {k : κ} (h : ¬m.contains k) :
    m.erase k = m := by
  obtain ⟨entries⟩ := m
  simp only [erase, mk.injEq]
  apply List.eraseP_of_forall_not
  simpa [contains] using h

theorem insert_cases (m : OrderedMap κ ν) (k : κ) (v : ν) :
    (m.contains k ∧ (m.insert k v).keys = m.keys) ∨
      (¬m.contains k ∧ (m.insert k v).keys = m.keys ++ [k]) := by
  by_cases h : m.contains k
  · exact .inl ⟨h, keys_insert_of_contains h v⟩
  · exact .inr ⟨h, keys_insert_of_not_contains h v⟩

theorem Distinct.insert {m : OrderedMap κ ν} (hm : m.Distinct) (k : κ) (v : ν) :
    (m.insert k v).Distinct := by
  rcases m.insert_cases k v with ⟨-, hkeys⟩ | ⟨hnew, hkeys⟩
  · rw [Distinct, hkeys]
    exact hm
  · rw [Distinct, hkeys, List.pairwise_append]
    refine ⟨hm, List.pairwise_singleton _ _, ?_⟩
    intro j hj i hi hji
    rw [List.mem_singleton.mp hi] at hji
    exact hnew (contains_iff_mem_keys.mpr ⟨j, hj, hji⟩)

section Lawful

variable [EquivBEq κ]

/-- Among distinct keys, the one removal takes away is the only one there is to take. -/
theorem Distinct.entries_erase {m : OrderedMap κ ν} (hm : m.Distinct) (k : κ) :
    (m.erase k).entries = m.entries.filter fun e => !(e.1 == k) := by
  obtain ⟨entries⟩ := m
  simp only [Distinct, keys, erase] at hm ⊢
  induction entries with
  | nil => rfl
  | cons e rest ih =>
      rw [List.map_cons, List.pairwise_cons] at hm
      obtain ⟨hhead, hrest⟩ := hm
      by_cases he : e.1 == k
      · have hkeep : ∀ d ∈ rest, !(d.1 == k) := by
          intro d hd
          have hne := hhead d.1 (List.mem_map_of_mem hd)
          simp only [Bool.not_eq_true', Bool.eq_false_iff]
          intro hdk
          exact hne (BEq.trans he (BEq.symm hdk))
        simp [he, List.filter_eq_self.mpr hkeep]
      · simp [he, ih hrest]

theorem Distinct.keys_erase {m : OrderedMap κ ν} (hm : m.Distinct) (k : κ) :
    (m.erase k).keys = m.keys.filter fun j => !(j == k) := by
  rw [keys, hm.entries_erase, keys, List.filter_map]
  rfl

theorem Distinct.erase {m : OrderedMap κ ν} (hm : m.Distinct) (k : κ) :
    (m.erase k).Distinct := by
  rw [Distinct, hm.keys_erase]
  exact List.Pairwise.filter _ hm

/-! ## Entries -/

/-- The entry of a key, with the form of the key that came in first. -/
def binding? (m : OrderedMap κ ν) (k : κ) : Option (κ × ν) :=
  m.entries.find? (·.1 == k)

theorem binding?_insert (m : OrderedMap κ ν) (k j : κ) (v : ν) :
    (m.insert k v).binding? j =
      if k == j then some ((m.binding? j).elim k (·.1), v) else m.binding? j := by
  obtain ⟨entries⟩ := m
  simp only [binding?, insert]
  induction entries with
  | nil => by_cases h : k == j <;> simp [insertEntry, h]
  | cons e rest ih =>
      by_cases he : e.1 == k
      · have hsame : (e.1 == j) = (k == j) := BEq.congr_left he
        by_cases h : k == j <;> simp [insertEntry, he, hsame, h]
      · by_cases hej : e.1 == j
        · have hne : ¬k == j := fun h => he (BEq.trans hej (BEq.symm h))
          simp [insertEntry, he, hej, hne]
        · simp [insertEntry, he, hej, ih]

theorem Distinct.binding?_erase {m : OrderedMap κ ν} (hm : m.Distinct) (k j : κ) :
    (m.erase k).binding? j = if k == j then none else m.binding? j := by
  simp only [binding?, hm.entries_erase k, List.find?_filter]
  split
  · rename_i h
    simp only [List.find?_eq_none, decide_eq_true_eq, not_and]
    intro e _ hne hej
    simp only [Bool.not_eq_true', Bool.eq_false_iff] at hne
    exact hne (BEq.trans hej (BEq.symm h))
  · rename_i h
    congr 1
    funext e
    by_cases hej : e.1 == j
    · have hne : ¬e.1 == k := fun hek => h (BEq.trans (BEq.symm hek) hej)
      simp [hej, hne]
    · simp [hej]

/-- Among distinct keys, each entry is the one that a look-up of its key finds. -/
theorem Distinct.mem_entries_iff {m : OrderedMap κ ν} (hm : m.Distinct) {e : κ × ν} :
    e ∈ m.entries ↔ m.binding? e.1 = some e := by
  refine ⟨?_, List.mem_of_find?_eq_some⟩
  intro he
  obtain ⟨entries⟩ := m
  simp only [Distinct, keys, binding?] at hm he ⊢
  induction entries with
  | nil => simp at he
  | cons d rest ih =>
      rw [List.map_cons, List.pairwise_cons] at hm
      rcases List.mem_cons.mp he with rfl | he
      · simp
      · have hne := hm.1 e.1 (List.mem_map_of_mem he)
        simpa [hne] using ih hm.2 he

/-! ## Values -/

omit [EquivBEq κ] in
theorem get?_eq_map_binding? (m : OrderedMap κ ν) (k : κ) : m.get? k = (m.binding? k).map (·.2) := rfl

theorem get?_insert (m : OrderedMap κ ν) (k j : κ) (v : ν) :
    (m.insert k v).get? j = if k == j then some v else m.get? j := by
  rw [get?_eq_map_binding?, binding?_insert]
  split <;> rfl

theorem Distinct.get?_erase {m : OrderedMap κ ν} (hm : m.Distinct) (k j : κ) :
    (m.erase k).get? j = if k == j then none else m.get? j := by
  rw [get?_eq_map_binding?, hm.binding?_erase]
  split <;> rfl

theorem contains_insert (m : OrderedMap κ ν) (k j : κ) (v : ν) :
    (m.insert k v).contains j ↔ k == j ∨ m.contains j := by
  rw [contains_eq_isSome_get?, contains_eq_isSome_get?, get?_insert]
  by_cases h : k == j <;> simp [h]

theorem Distinct.contains_erase {m : OrderedMap κ ν} (hm : m.Distinct) (k j : κ) :
    (m.erase k).contains j ↔ ¬k == j ∧ m.contains j := by
  rw [contains_eq_isSome_get?, contains_eq_isSome_get?, hm.get?_erase]
  by_cases h : k == j <;> simp [h]

theorem Distinct.get?_of_mem {m : OrderedMap κ ν} (hm : m.Distinct) {e : κ × ν}
    (he : e ∈ m.entries) : m.get? e.1 = some e.2 := by
  rw [get?_eq_map_binding?, hm.mem_entries_iff.mp he]
  rfl

end Lawful

/-! ## Histories -/

/-- What happens to the keys of a map, one after another. -/
inductive Change (κ ν : Type) where
  | bound (k : κ) (v : ν)
  | removed (k : κ)

variable {history : List (Change κ ν)}

/-- At moment `i` a key is bound to a value, and from then on it is not removed. -/
structure BindsAt (history : List (Change κ ν)) (k : κ) (i : Nat) (v : ν) : Prop where
  bound : ∃ j, history[i]? = some (.bound j v) ∧ j == k
  kept : ∀ i' > i, ∀ j, history[i']? = some (.removed j) → ¬j == k

def Bound (history : List (Change κ ν)) (k : κ) : Prop :=
  ∃ i v, BindsAt history k i v

/-- The value of the most recent binding of a key since it was last removed. -/
def Latest (history : List (Change κ ν)) (k : κ) (v : ν) : Prop :=
  ∃ i, BindsAt history k i v ∧ ∀ i' w, BindsAt history k i' w → i' ≤ i

/-- The moment of the first binding of a key since it was last removed. -/
def FirstAt (history : List (Change κ ν)) (k : κ) (i : Nat) : Prop :=
  (∃ v, BindsAt history k i v) ∧ ∀ i' w, BindsAt history k i' w → i ≤ i'

theorem BindsAt.lt_length {k : κ} {i : Nat} {v : ν} (h : BindsAt history k i v) :
    i < history.length := by
  obtain ⟨j, hj, -⟩ := h.bound
  exact (List.getElem?_eq_some_iff.mp hj).1

theorem bindsAt_concat_bound {j k : κ} {i : Nat} {v w : ν} :
    BindsAt (history ++ [.bound j w]) k i v ↔
      BindsAt history k i v ∨ i = history.length ∧ j == k ∧ v = w := by
  constructor
  · rintro ⟨⟨j', hj', hk⟩, hkept⟩
    rcases getElem?_concat_eq_some_iff.mp hj' with hold | ⟨hi, hnew⟩
    · refine .inl ⟨⟨j', hold, hk⟩, ?_⟩
      intro i' hi' l hl
      exact hkept i' hi' l (getElem?_concat_eq_some_iff.mpr (.inl hl))
    · obtain ⟨rfl, rfl⟩ := Change.bound.inj hnew
      exact .inr ⟨hi, hk, rfl⟩
  · rintro (⟨⟨j', hj', hk⟩, hkept⟩ | ⟨rfl, hk, rfl⟩)
    · refine ⟨⟨j', getElem?_concat_eq_some_iff.mpr (.inl hj'), hk⟩, ?_⟩
      intro i' hi' l hl
      rcases getElem?_concat_eq_some_iff.mp hl with hold | ⟨-, hnew⟩
      · exact hkept i' hi' l hold
      · cases hnew
    · refine ⟨⟨j, getElem?_concat_eq_some_iff.mpr (.inr ⟨rfl, rfl⟩), hk⟩, ?_⟩
      intro i' hi' l hl
      have hlt := (List.getElem?_eq_some_iff.mp hl).1
      rw [List.length_append, List.length_singleton] at hlt
      omega

theorem bindsAt_concat_removed {j k : κ} {i : Nat} {v : ν} :
    BindsAt (history ++ [.removed j]) k i v ↔ BindsAt history k i v ∧ ¬j == k := by
  constructor
  · rintro ⟨⟨j', hj', hk⟩, hkept⟩
    rcases getElem?_concat_eq_some_iff.mp hj' with hold | ⟨-, hnew⟩
    · have hi := (List.getElem?_eq_some_iff.mp hold).1
      refine ⟨⟨⟨j', hold, hk⟩, ?_⟩, ?_⟩
      · intro i' hi' l hl
        exact hkept i' hi' l (getElem?_concat_eq_some_iff.mpr (.inl hl))
      · exact hkept history.length hi j (getElem?_concat_eq_some_iff.mpr (.inr ⟨rfl, rfl⟩))
    · cases hnew
  · rintro ⟨⟨⟨j', hj', hk⟩, hkept⟩, hne⟩
    refine ⟨⟨j', getElem?_concat_eq_some_iff.mpr (.inl hj'), hk⟩, ?_⟩
    intro i' hi' l hl
    rcases getElem?_concat_eq_some_iff.mp hl with hold | ⟨-, hnew⟩
    · exact hkept i' hi' l hold
    · rw [← Change.removed.inj hnew]
      exact hne

/-! ### One change more -/

theorem bound_concat_bound {j k : κ} {w : ν} :
    Bound (history ++ [.bound j w]) k ↔ j == k ∨ Bound history k := by
  simp only [Bound, bindsAt_concat_bound]
  constructor
  · rintro ⟨i, v, hold | ⟨-, hk, -⟩⟩
    · exact .inr ⟨i, v, hold⟩
    · exact .inl hk
  · rintro (hk | ⟨i, v, hold⟩)
    · exact ⟨history.length, w, .inr ⟨rfl, hk, rfl⟩⟩
    · exact ⟨i, v, .inl hold⟩

theorem bound_concat_removed {j k : κ} :
    Bound (history ++ [(.removed j : Change κ ν)]) k ↔ ¬j == k ∧ Bound history k := by
  simp only [Bound, bindsAt_concat_removed]
  constructor
  · rintro ⟨i, v, hold, hne⟩
    exact ⟨hne, i, v, hold⟩
  · rintro ⟨hne, i, v, hold⟩
    exact ⟨i, v, hold, hne⟩

theorem latest_concat_bound {j k : κ} {v w : ν} :
    Latest (history ++ [.bound j w]) k v ↔ if j == k then w = v else Latest history k v := by
  split
  · rename_i hk
    simp only [Latest, bindsAt_concat_bound]
    constructor
    · rintro ⟨i, hold | ⟨-, -, rfl⟩, hmax⟩
      · -- the last moment binds the key and is later than any moment of the history
        have hle := hmax history.length w (.inr ⟨rfl, hk, rfl⟩)
        exact absurd hold.lt_length (Nat.not_lt.mpr hle)
      · rfl
    · rintro rfl
      refine ⟨history.length, .inr ⟨rfl, hk, rfl⟩, ?_⟩
      rintro i' u (hold | ⟨rfl, -, -⟩)
      · exact Nat.le_of_lt hold.lt_length
      · exact Nat.le_refl _
  · rename_i hk
    simp [Latest, bindsAt_concat_bound, hk]

theorem latest_concat_removed {j k : κ} {v : ν} :
    Latest (history ++ [.removed j]) k v ↔ ¬j == k ∧ Latest history k v := by
  by_cases hk : j == k <;> simp [Latest, bindsAt_concat_removed, hk]

theorem FirstAt.concat_bound {k : κ} {i : Nat} (h : FirstAt history k i) (j : κ) (w : ν) :
    FirstAt (history ++ [.bound j w]) k i := by
  obtain ⟨⟨v, hv⟩, hmin⟩ := h
  refine ⟨⟨v, bindsAt_concat_bound.mpr (.inl hv)⟩, ?_⟩
  intro i' u hu
  rcases bindsAt_concat_bound.mp hu with hold | ⟨rfl, -, -⟩
  · exact hmin i' u hold
  · exact Nat.le_of_lt hv.lt_length

theorem firstAt_concat_new {k : κ} (h : ¬Bound history k) {j : κ} (hj : j == k) (w : ν) :
    FirstAt (history ++ [.bound j w]) k history.length := by
  refine ⟨⟨w, bindsAt_concat_bound.mpr (.inr ⟨rfl, hj, rfl⟩)⟩, ?_⟩
  intro i' u hu
  rcases bindsAt_concat_bound.mp hu with hold | ⟨rfl, -, -⟩
  · exact absurd ⟨i', u, hold⟩ h
  · exact Nat.le_refl _

theorem FirstAt.concat_removed {j k : κ} {i : Nat} (h : FirstAt history k i) (hj : ¬j == k) :
    FirstAt (history ++ [.removed j]) k i := by
  simpa [FirstAt, bindsAt_concat_removed, hj] using h

/-! ### Maps that follow a history -/

/-- The first key was first bound before the second. -/
def Earlier (history : List (Change κ ν)) (a b : κ) : Prop :=
  ∃ i i', FirstAt history a i ∧ FirstAt history b i' ∧ i < i'

/-- A map whose contents and order are what a history of its keys makes them. -/
structure Follows (m : OrderedMap κ ν) (history : List (Change κ ν)) : Prop where
  distinct : m.Distinct
  contains_iff : ∀ k, m.contains k ↔ Bound history k
  get?_eq_some_iff : ∀ k v, m.get? k = some v ↔ Latest history k v
  first : ∀ k ∈ m.keys, ∃ i, FirstAt history k i
  ordered : m.keys.Pairwise (Earlier history)

theorem follows_empty : Follows (empty : OrderedMap κ ν) [] where
  distinct := List.Pairwise.nil
  contains_iff k := by
    constructor
    · intro h
      cases h
    · rintro ⟨i, v, h⟩
      exact absurd h.lt_length (Nat.not_lt_zero i)
  get?_eq_some_iff k v := by
    constructor
    · intro h
      cases h
    · rintro ⟨i, h, -⟩
      exact absurd h.lt_length (Nat.not_lt_zero i)
  first := by simp [keys, empty]
  ordered := List.Pairwise.nil

section Lawful

variable [EquivBEq κ]

theorem Follows.insert {m : OrderedMap κ ν} (h : Follows m history) (k : κ) (v : ν) :
    Follows (m.insert k v) (history ++ [.bound k v]) := by
  have hearlier : ∀ {a b : κ}, Earlier history a b → Earlier (history ++ [.bound k v]) a b := by
    rintro a b ⟨i, i', hi, hi', hlt⟩
    exact ⟨i, i', hi.concat_bound k v, hi'.concat_bound k v, hlt⟩
  have hold : ∀ j ∈ m.keys, ∃ i, FirstAt (history ++ [.bound k v]) j i := by
    intro j hj
    obtain ⟨i, hi⟩ := h.first j hj
    exact ⟨i, hi.concat_bound k v⟩
  refine ⟨h.distinct.insert k v, ?_, ?_, ?_, ?_⟩
  · intro j
    rw [contains_insert, bound_concat_bound, h.contains_iff]
  · intro j w
    rw [get?_insert, latest_concat_bound]
    split
    · exact Option.some_inj
    · exact h.get?_eq_some_iff j w
  · rcases m.insert_cases k v with ⟨-, hkeys⟩ | ⟨hnew, hkeys⟩
    · rw [hkeys]
      exact hold
    · rw [hkeys, List.forall_mem_append]
      refine ⟨hold, ?_⟩
      simp only [List.forall_mem_singleton]
      exact ⟨_, firstAt_concat_new (mt (h.contains_iff k).mpr hnew) BEq.rfl v⟩
  · rcases m.insert_cases k v with ⟨-, hkeys⟩ | ⟨hnew, hkeys⟩
    · rw [hkeys]
      exact h.ordered.imp hearlier
    · -- a new key is bound after everything that happened before
      rw [hkeys, List.pairwise_append]
      refine ⟨h.ordered.imp hearlier, List.pairwise_singleton _ _, ?_⟩
      intro a ha b hb
      obtain rfl := List.mem_singleton.mp hb
      obtain ⟨i, hi⟩ := h.first a ha
      obtain ⟨w, hw⟩ := hi.1
      exact ⟨i, history.length, hi.concat_bound b v,
        firstAt_concat_new (mt (h.contains_iff b).mpr hnew) BEq.rfl v, hw.lt_length⟩

theorem Follows.erase {m : OrderedMap κ ν} (h : Follows m history) (k : κ) :
    Follows (m.erase k) (history ++ [.removed k]) := by
  have hkeys := h.distinct.keys_erase k
  have hne : ∀ j ∈ (m.erase k).keys, j ∈ m.keys ∧ ¬k == j := by
    intro j hj
    rw [hkeys, List.mem_filter] at hj
    refine ⟨hj.1, fun hkj => ?_⟩
    simp [BEq.symm hkj] at hj
  refine ⟨h.distinct.erase k, ?_, ?_, ?_, ?_⟩
  · intro j
    rw [h.distinct.contains_erase, bound_concat_removed, h.contains_iff]
  · intro j w
    rw [h.distinct.get?_erase, latest_concat_removed, ← h.get?_eq_some_iff]
    by_cases hkj : k == j <;> simp [hkj]
  · intro j hj
    obtain ⟨hold, hkj⟩ := hne j hj
    obtain ⟨i, hi⟩ := h.first j hold
    exact ⟨i, hi.concat_removed hkj⟩
  · have hsub : (m.erase k).keys.Pairwise (Earlier history) := by
      rw [hkeys]
      exact h.ordered.filter _
    refine hsub.imp_of_mem ?_
    rintro a b ha hb ⟨i, i', hi, hi', hlt⟩
    exact ⟨i, i', hi.concat_removed (hne a ha).2, hi'.concat_removed (hne b hb).2, hlt⟩

/-- Adding pairs one after another binds their keys in that order. -/
theorem Follows.insertAll {m : OrderedMap κ ν} (h : Follows m history) (pairs : List (κ × ν)) :
    Follows (m.insertAll pairs) (history ++ pairs.map fun e => .bound e.1 e.2) := by
  induction pairs generalizing m history with
  | nil => simpa [OrderedMap.insertAll] using h
  | cons e pairs ih => simpa [OrderedMap.insertAll] using ih (h.insert e.1 e.2)

end Lawful

end Moniker.OrderedMap
