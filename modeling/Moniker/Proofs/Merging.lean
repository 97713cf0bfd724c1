import Moniker.Proofs.MapEquality
import Moniker.Proofs.Metadata

/-! # Merging

The values of a merged map come from the right and the places of its keys from the left. Contents
and order together obey the laws of a monoid, and removing a key can be done before or after. -/

namespace Moniker

namespace OrderedMap

variable {κ ν : Type} [BEq κ] {m n p : OrderedMap κ ν}

/-! ## Keys and values -/

theorem distinct_empty : (empty : OrderedMap κ ν).Distinct :=
  List.Pairwise.nil

theorem Distinct.insertAll (hm : m.Distinct) (pairs : List (κ × ν)) :
    (m.insertAll pairs).Distinct := by
  induction pairs generalizing m with
  | nil => exact hm
  | cons e pairs ih => exact ih (hm.insert e.1 e.2)

theorem Distinct.merge (hm : m.Distinct) (n : OrderedMap κ ν) : (m.merge n).Distinct :=
  hm.insertAll n.entries

variable [EquivBEq κ]

/-- Among distinct keys, the entries are told by the keys and their values. -/
theorem Distinct.entries_eq_filterMap (hm : m.Distinct) :
    m.entries = m.keys.filterMap fun k => (m.get? k).map fun v => (k, v) := by
  rw [keys, List.filterMap_map]
  have hself : ∀ e ∈ m.entries,
      ((fun k => (m.get? k).map fun v => (k, v)) ∘ (·.1)) e = some e := by
    intro e he
    simp only [Function.comp_apply, hm.get?_of_mem he, Option.map_some]
  rw [List.filterMap_congr hself, List.filterMap_some]

theorem Distinct.eq_of_keys_eq (hm : m.Distinct) (hn : n.Distinct) (hkeys : m.keys = n.keys)
    (hget : ∀ k, m.get? k = n.get? k) : m = n := by
  obtain ⟨entries⟩ := m
  obtain ⟨entries'⟩ := n
  rw [mk.injEq]
  have hleft := hm.entries_eq_filterMap
  have hright := hn.entries_eq_filterMap
  rw [hkeys, funext hget] at hleft
  exact hleft.trans hright.symm

theorem Distinct.contains_merge (hn : n.Distinct) (m : OrderedMap κ ν) (k : κ) :
    (m.merge n).contains k = (m.contains k || n.contains k) := by
  simp only [contains_eq_isSome_get?, hn.get?_merge, Option.isSome_or, Bool.or_comm]

/-- The left keys stay where they are, and those that are new come after them in the order of the
right map. -/
theorem Distinct.keys_merge (hn : n.Distinct) (m : OrderedMap κ ν) :
    (m.merge n).keys = m.keys ++ n.keys.filter fun k => !m.contains k := by
  obtain ⟨entries⟩ := n
  induction entries generalizing m with
  | nil => exact (List.append_nil m.keys).symm
  | cons e rest ih =>
      obtain ⟨hhead, hrest⟩ := List.pairwise_cons.mp hn
      have hstep : m.merge ⟨e :: rest⟩ = (m.insert e.1 e.2).merge ⟨rest⟩ := rfl
      -- what the first key adds to the left map takes none of the other keys away
      have hnew : ∀ k ∈ (⟨rest⟩ : OrderedMap κ ν).keys,
          (!(m.insert e.1 e.2).contains k) = !m.contains k := by
        intro k hk
        have hne : ¬e.1 == k := hhead k hk
        rw [Bool.not_inj_iff, Bool.eq_iff_iff, contains_insert]
        simp [hne]
      rw [hstep, ih _ hrest, List.filter_congr hnew]
      rcases m.insert_cases e.1 e.2 with ⟨hold, hkeys⟩ | ⟨hold, hkeys⟩
      · rw [hkeys]
        simp [keys, hold]
      · rw [hkeys]
        simp [keys, hold]

/-! ## Laws -/

omit [EquivBEq κ] in
theorem merge_empty (m : OrderedMap κ ν) : m.merge empty = m := rfl

theorem Distinct.empty_merge (hm : m.Distinct) : empty.merge m = m := by
  refine (distinct_empty.merge m).eq_of_keys_eq hm ?_ ?_
  · rw [hm.keys_merge]
    simp [keys, empty, contains]
  · intro k
    rw [hm.get?_merge, get?_empty, Option.or_none]

theorem Distinct.merge_self (hm : m.Distinct) : m.merge m = m := by
  refine (hm.merge m).eq_of_keys_eq hm ?_ ?_
  · have hnone : m.keys.filter (fun k => !m.contains k) = [] := by
      rw [List.filter_eq_nil_iff]
      intro k hk
      have hbound : m.contains k := contains_iff_mem_keys.mpr ⟨k, hk, BEq.rfl⟩
      simp [hbound]
    rw [hm.keys_merge, hnone, List.append_nil]
  · intro k
    rw [hm.get?_merge, Option.or_self]

theorem Distinct.merge_assoc (hm : m.Distinct) (hn : n.Distinct) (hp : p.Distinct) :
    (m.merge n).merge p = m.merge (n.merge p) := by
  refine ((hm.merge n).merge p).eq_of_keys_eq (hm.merge _) ?_ ?_
  · calc
      ((m.merge n).merge p).keys
          = (m.keys ++ n.keys.filter fun k => !m.contains k) ++
              p.keys.filter fun k => !(m.merge n).contains k := by
        rw [hp.keys_merge, hn.keys_merge]
      _ = m.keys ++ ((n.keys ++ p.keys.filter fun k => !n.contains k).filter
              fun k => !m.contains k) := by
        simp only [List.append_assoc, List.filter_append, List.filter_filter, hn.contains_merge,
          Bool.not_or]
      _ = (m.merge (n.merge p)).keys := by
        rw [(hn.merge p).keys_merge, hp.keys_merge]
  · intro k
    rw [hp.get?_merge, hn.get?_merge, (hn.merge p).get?_merge, hp.get?_merge, Option.or_assoc]

/-- A key can be removed from a merged map, or from both maps before. -/
theorem Distinct.erase_merge (hm : m.Distinct) (hn : n.Distinct) (k : κ) :
    (m.merge n).erase k = (m.erase k).merge (n.erase k) := by
  refine ((hm.merge n).erase k).eq_of_keys_eq ((hm.erase k).merge _) ?_ ?_
  · have hnew : ∀ j ∈ n.keys, (!(j == k) && !m.contains j) =
        (!(m.erase k).contains j && !(j == k)) := by
      intro j _
      by_cases hj : j == k
      · simp [hj]
      · have hkj : ¬k == j := fun h => hj (BEq.symm h)
        have hkept : (m.erase k).contains j = m.contains j := by
          rw [Bool.eq_iff_iff, hm.contains_erase]
          simp [hkj]
        rw [hkept, Bool.and_comm]
    rw [(hm.merge n).keys_erase, hn.keys_merge, (hn.erase k).keys_merge, hm.keys_erase,
      hn.keys_erase, List.filter_append, List.filter_filter, List.filter_filter,
      List.filter_congr hnew]
  · intro j
    rw [(hm.merge n).get?_erase, hn.get?_merge, (hn.erase k).get?_merge, hm.get?_erase,
      hn.get?_erase]
    by_cases hkj : k == j <;> simp [hkj]

end OrderedMap

/-! ## Metadata -/

namespace Metadata

/-- The entries, in their order, of metadata that is made out of a supply. -/
def entriesFrom (supply : Supply) (made : StateM Supply Metadata) :
    List (Keyword × MetaValue) :=
  (made.run supply).1.map.entries

/-- The laws of merging, each said of contents and order: what is made on either side of an
equation has the same entries in the same places, out of whatever supplies. -/
structure MergeSpec (a b c : Metadata) : Prop where
  one_by_one : ∀ supply supply', entriesFrom supply (a.edit (.merge b)) =
    entriesFrom supply' (a.editAll (b.map.entries.map fun e => .assoc e.1 e.2))
  get?_eq : ∀ k supply, ((a.edit (.merge b)).run supply).1.map.get? k =
    if b.map.contains k then b.map.get? k else a.map.get? k
  keys_eq : ∀ supply, ((a.edit (.merge b)).run supply).1.map.keys =
    a.map.keys ++ b.map.keys.filter fun k => !a.map.contains k
  assoc : ∀ supply supply', entriesFrom supply (a.edit (.merge b) >>= (·.edit (.merge c))) =
    entriesFrom supply' (b.edit (.merge c) >>= fun bc => a.edit (.merge bc))
  left_identity : ∀ supply, entriesFrom supply (empty >>= (·.edit (.merge a))) = a.map.entries
  right_identity : ∀ supply, entriesFrom supply (empty >>= fun e => a.edit (.merge e)) =
    a.map.entries
  self : ∀ supply, entriesFrom supply (a.edit (.merge a)) = a.map.entries
  dissoc : ∀ k supply supply',
    entriesFrom supply (a.edit (.merge b) >>= (·.edit (.dissoc k))) =
      entriesFrom supply' (do
        let a' ← a.edit (.dissoc k)
        let b' ← b.edit (.dissoc k)
        a'.edit (.merge b'))

theorem entriesFrom_edit (supply : Supply) (m : Metadata) (e : Edit) :
    entriesFrom supply (m.edit e) = (e.onMap m.map).entries := by
  rw [entriesFrom, map_edit]

theorem entriesFrom_bind (supply : Supply) (made : StateM Supply Metadata)
    (next : Metadata → StateM Supply Metadata) :
    entriesFrom supply (made >>= next) =
      entriesFrom (made.run supply).2 (next (made.run supply).1) := rfl

theorem mergeSpec_of_distinct {a b c : Metadata} (ha : a.map.Distinct) (hb : b.map.Distinct)
    (hc : c.map.Distinct) : MergeSpec a b c where
  one_by_one supply supply' := by
    rw [entriesFrom_edit, entriesFrom, map_editAll, List.foldl_map]
    rfl
  get?_eq k supply := by
    rw [map_edit, Edit.onMap, hb.get?_merge, OrderedMap.contains_eq_isSome_get?]
    cases b.map.get? k <;> rfl
  keys_eq supply := by
    rw [map_edit, Edit.onMap, hb.keys_merge]
  assoc supply supply' := by
    simp only [entriesFrom_bind, entriesFrom_edit, map_edit, Edit.onMap]
    rw [ha.merge_assoc hb hc]
  left_identity supply := by
    rw [entriesFrom_bind, entriesFrom_edit]
    exact congrArg OrderedMap.entries ha.empty_merge
  right_identity supply := by
    rw [entriesFrom_bind, entriesFrom_edit]
    exact congrArg OrderedMap.entries (OrderedMap.merge_empty a.map)
  self supply := by
    rw [entriesFrom_edit, Edit.onMap, ha.merge_self]
  dissoc k supply supply' := by
    simp only [entriesFrom_bind, entriesFrom_edit, map_edit, Edit.onMap]
    rw [ha.erase_merge hb]

/-- However three metadata came about, merging them obeys these laws, the shortcuts of edits that
change nothing included. -/
theorem merging_laws {a b c : Metadata}
    {history history' history'' : List (OrderedMap.Change Keyword MetaValue)}
    (ha : Built a history) (hb : Built b history') (hc : Built c history'') : MergeSpec a b c :=
  mergeSpec_of_distinct ha.follows.distinct hb.follows.distinct hc.follows.distinct

/-- Three metadata of which any two have a key in common, in different places. -/
theorem merging_laws_overlap :
    let q : Name := ⟨none, "k", "k", by decide, by simp, rfl⟩
    let key (place : Nat) : Keyword := ⟨⟨0, place⟩, q, Hash.qualified .keyword q⟩
    let bound (places : List Nat) (b : Bool) : List (Keyword × MetaValue) :=
      places.map fun place => (key place, .bool b)
    let a := ((ofList (bound [0, 1] true)).run {}).1
    let b := ((ofList (bound [2, 1] false)).run {}).1
    let c := ((ofList (bound [3, 2, 0] true)).run {}).1
    (∃ history, Built a history) ∧ (∃ history, Built b history) ∧ (∃ history, Built c history) ∧
      MergeSpec a b c ∧
      ((b.edit (.merge c) >>= fun bc => a.edit (.merge bc)).run {}).1.map.keys =
        [key 0, key 1, key 2, key 3] ∧
      entriesFrom {} (a.edit (.merge b)) =
        [(key 0, .bool true), (key 1, .bool false), (key 2, .bool false)] := by
  intro q key bound a b c
  have ha : Built a _ := .ofList (bound [0, 1] true) {}
  have hb : Built b _ := .ofList (bound [2, 1] false) {}
  have hc : Built c _ := .ofList (bound [3, 2, 0] true) {}
  exact ⟨⟨_, ha⟩, ⟨_, hb⟩, ⟨_, hc⟩, merging_laws ha hb hc, rfl, rfl⟩

end Metadata

end Moniker
