import Mathlib.Data.Set.Card
import Moniker.Metadata
import Moniker.Proofs.OrderedMap

/-! # Metadata and its edits

Metadata is made empty or of pairs and then edited, also with other metadata made in this way.
The history of what was bound and removed on the way tells all that it holds, in order. -/

namespace Moniker

open OrderedMap (Bound Change Earlier FirstAt Latest)

/-- A map from keywords has as many entries as there are keywords bound. -/
theorem OrderedMap.Follows.size_eq_ncard {map : OrderedMap Keyword MetaValue}
    {history : List (Change Keyword MetaValue)} (h : map.Follows history) :
    map.size = {id | ∃ k : Keyword, k.id = id ∧ Bound history k}.ncard := by
  have hnodup : (map.keys.map (·.id)).Nodup := by
    rw [List.Nodup, List.pairwise_map]
    refine h.distinct.imp ?_
    intro a b hab heq
    exact hab (Keyword.beq_iff_id_eq.mpr heq)
  have hset : {id | ∃ k : Keyword, k.id = id ∧ Bound history k} =
      ((map.keys.map (·.id)).toFinset : Set KeywordId) := by
    ext id
    simp only [Set.mem_ofPred_eq, List.coe_toFinset, List.mem_map]
    constructor
    · rintro ⟨k, rfl, hk⟩
      obtain ⟨j, hj, hjk⟩ := OrderedMap.contains_iff_mem_keys.mp ((h.contains_iff k).mpr hk)
      exact ⟨j, hj, Keyword.beq_iff_id_eq.mp hjk⟩
    · rintro ⟨j, hj, rfl⟩
      refine ⟨j, rfl, (h.contains_iff j).mp ?_⟩
      exact OrderedMap.contains_iff_mem_keys.mpr ⟨j, hj, BEq.rfl⟩
  rw [hset, Set.ncard_coe_finset, List.toFinset_card_of_nodup hnodup, List.length_map,
    OrderedMap.length_keys]

/-! ## Edits -/

/-- What an edit makes of a map. -/
def Edit.onMap : Edit → OrderedMap Keyword MetaValue → OrderedMap Keyword MetaValue
  | .assoc key value, map => map.insert key value
  | .dissoc key, map => map.erase key
  | .merge other, map => map.merge other.map

namespace Metadata

/-- An edit keeps the old map only where the edited one is no other. -/
theorem map_edit (m : Metadata) (e : Edit) (supply : Supply) :
    ((m.edit e).run supply).1.map = e.onMap m.map := by
  cases e with
  | assoc key value => rfl
  | dissoc key =>
      by_cases h : m.map.contains key
      · simp only [edit, h, if_true]
        rfl
      · simp only [edit, h, Edit.onMap, OrderedMap.erase_of_not_contains h]
        rfl
  | merge other =>
      by_cases h : other.map.isEmpty
      · have hnone : other.map.entries = [] := List.isEmpty_iff.mp h
        simp only [edit, h, if_true, Edit.onMap, OrderedMap.merge, OrderedMap.insertAll, hnone]
        rfl
      · simp only [edit, h]
        rfl

theorem map_editAll (m : Metadata) (edits : List Edit) (supply : Supply) :
    ((m.editAll edits).run supply).1.map = edits.foldl (fun map e => e.onMap map) m.map := by
  induction edits generalizing m supply with
  | nil => rfl
  | cons e edits ih =>
      have hrest := ih ((m.edit e).run supply).1 ((m.edit e).run supply).2
      rw [map_edit] at hrest
      exact hrest

/-- A list of pairs makes the map that associating them one by one makes of the empty one. -/
theorem map_ofList (pairs : List (Keyword × MetaValue)) (supply supply' : Supply) :
    ((ofList pairs).run supply).1.map =
      ((empty >>= fun m => m.editAll (pairs.map fun e => .assoc e.1 e.2)).run supply').1.map := by
  have hedits : ∀ map : OrderedMap Keyword MetaValue,
      map.insertAll pairs =
        (pairs.map fun e => Edit.assoc e.1 e.2).foldl (fun map e => e.onMap map) map := by
    intro map
    rw [List.foldl_map]
    rfl
  have hmap := map_editAll (empty.run supply').1 (pairs.map fun e => .assoc e.1 e.2)
    (empty.run supply').2
  rw [← hedits] at hmap
  exact hmap.symm

/-! ## Histories -/

/-- Metadata that came about by edits, with what was bound and removed on the way. To merge is to
bind what the other lists, in its order. -/
inductive Built : Metadata → List (Change Keyword MetaValue) → Prop where
  | empty (supply : Supply) : Built (Metadata.empty.run supply).1 []
  | ofList (pairs : List (Keyword × MetaValue)) (supply : Supply) :
      Built ((Metadata.ofList pairs).run supply).1 (pairs.map fun e => .bound e.1 e.2)
  | assoc {m history} (key : Keyword) (value : MetaValue) (supply : Supply) : Built m history →
      Built ((m.edit (.assoc key value)).run supply).1 (history ++ [.bound key value])
  | dissoc {m history} (key : Keyword) (supply : Supply) : Built m history →
      Built ((m.edit (.dissoc key)).run supply).1 (history ++ [.removed key])
  | merge {m other history history'} (supply : Supply) : Built m history →
      Built other history' →
      Built ((m.edit (.merge other)).run supply).1
        (history ++ other.map.entries.map fun e => .bound e.1 e.2)

theorem Built.follows {m : Metadata} {history : List (Change Keyword MetaValue)}
    (h : Built m history) : m.map.Follows history := by
  induction h with
  | empty supply => exact OrderedMap.follows_empty
  | ofList pairs supply => exact OrderedMap.follows_empty.insertAll pairs
  | assoc key value supply _ ih =>
      rw [map_edit]
      exact ih.insert key value
  | dissoc key supply _ ih =>
      rw [map_edit]
      exact ih.erase key
  | @merge m other history history' supply _ _ ih _ =>
      rw [map_edit]
      exact ih.insertAll other.map.entries

/-- What metadata `m` holds and lists after a history, and what one more edit does to the list.
The keys are identical when `==` says so. -/
structure HistorySpec (m : Metadata) (history : List (Change Keyword MetaValue)) : Prop where
  distinct : m.map.keys.Pairwise fun a b => ¬a == b
  get?_eq_some_iff : ∀ k v, m.map.get? k = some v ↔ Latest history k v
  get?_eq_none_iff : ∀ k, m.map.get? k = none ↔ ¬Bound history k
  contains_iff : ∀ k, m.map.contains k ↔ Bound history k
  size_eq : m.map.size = {id | ∃ k : Keyword, k.id = id ∧ Bound history k}.ncard
  listed_iff : ∀ k, (∃ j ∈ m.map.keys, j == k) ↔ Bound history k
  listed_value : ∀ e ∈ m.map.entries, m.map.get? e.1 = some e.2
  first : ∀ k ∈ m.map.keys, ∃ i, FirstAt history k i
  ordered : m.map.keys.Pairwise (Earlier history)
  keys_overwritten : ∀ k v supply, m.map.contains k →
    ((m.edit (.assoc k v)).run supply).1.map.keys = m.map.keys
  keys_added : ∀ k v supply, ¬m.map.contains k →
    ((m.edit (.assoc k v)).run supply).1.map.keys = m.map.keys ++ [k]
  entries_removed : ∀ k supply, ((m.edit (.dissoc k)).run supply).1.map.entries =
    m.map.entries.filter fun e => !(e.1 == k)
  keys_readded : ∀ k v supply,
    ((m.editAll [.dissoc k, .assoc k v]).run supply).1.map.keys =
      (m.map.keys.filter fun j => !(j == k)) ++ [k]

theorem historySpec_of_follows {m : Metadata} {history : List (Change Keyword MetaValue)}
    (h : m.map.Follows history) : HistorySpec m history := by
  refine ⟨h.distinct, h.get?_eq_some_iff, ?_, h.contains_iff, h.size_eq_ncard, ?_, ?_, h.first,
    h.ordered, ?_, ?_, ?_, ?_⟩
  · intro k
    rw [← h.contains_iff, OrderedMap.contains_eq_isSome_get?]
    simp
  · intro k
    rw [← h.contains_iff, OrderedMap.contains_iff_mem_keys]
  · intro e he
    exact h.distinct.get?_of_mem he
  · intro k v supply hk
    rw [map_edit]
    exact OrderedMap.keys_insert_of_contains hk v
  · intro k v supply hk
    rw [map_edit]
    exact OrderedMap.keys_insert_of_not_contains hk v
  · intro k supply
    rw [map_edit]
    exact h.distinct.entries_erase k
  · intro k v supply
    have hgone : ¬(m.map.erase k).contains k := by
      rw [h.distinct.contains_erase]
      simp
    rw [map_editAll, ← h.distinct.keys_erase]
    exact OrderedMap.keys_insert_of_not_contains hgone v

/-- Metadata made by any edits holds for each key the value bound last since its last removal, and
lists the bound keys in the order of their first binding since then. A list of pairs counts as
binding them one after another. -/
theorem edited_metadata_history :
    (∀ m history, Built m history → HistorySpec m history) ∧
    ∀ (pairs : List (Keyword × MetaValue)) supply supply',
      ((ofList pairs).run supply).1.map =
        ((empty >>= fun m => m.editAll (pairs.map fun e => .assoc e.1 e.2)).run supply').1.map :=
  ⟨fun _ _ h => historySpec_of_follows h.follows, map_ofList⟩

/-- A key that is removed and bound again comes after one that stayed, with its new value. -/
theorem edited_metadata_history_readded :
    let q : Name := ⟨none, "k", "k", by decide, by simp, rfl⟩
    let key (place : Nat) : Keyword := ⟨⟨0, place⟩, q, Hash.qualified .keyword q⟩
    let start := ((ofList [(key 0, .bool true), (key 1, .bool true)]).run {}).1
    let removed := ((start.edit (.dissoc (key 0))).run {}).1
    let m := ((removed.edit (.assoc (key 0) (.bool false))).run {}).1
    let history : List (Change Keyword MetaValue) :=
      [.bound (key 0) (.bool true), .bound (key 1) (.bool true), .removed (key 0),
        .bound (key 0) (.bool false)]
    Built m history ∧ m.map.keys = [key 1, key 0] ∧ Latest history (key 0) (.bool false) ∧
      Earlier history (key 1) (key 0) := by
  intro q key start removed m history
  have hbuilt : Built m history := ((Built.ofList _ {}).dissoc (key 0) {}).assoc (key 0) _ {}
  have hspec := edited_metadata_history.1 m history hbuilt
  have hkeys : m.map.keys = [key 1, key 0] := rfl
  have hordered := hspec.ordered
  rw [hkeys, List.pairwise_cons] at hordered
  exact ⟨hbuilt, hkeys, (hspec.get?_eq_some_iff _ _).mp rfl, hordered.1 (key 0) (by simp)⟩

end Metadata

end Moniker
