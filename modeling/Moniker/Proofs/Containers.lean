import Mathlib.Data.Finmap
import Moniker.Proofs.Order
import Moniker.Proofs.OrderedMap

/-! # Identifiers as keys

A container asks two things of its keys, whether two of them are equal and which words it has to
hash. Whatever is done to a container of symbols it answers as a finite map from names would, and
one of keywords as a finite map from instances: metadata and colliding codes change nothing. -/

namespace Moniker

variable {κ ν μ σ τ : Type}

/-! ## Kinds of containers -/

/-- What is done to a container. -/
inductive Access (κ ν : Type) where
  | insert (k : κ) (v : ν)
  | remove (k : κ)
  | lookUp (k : κ)

def Access.key : Access κ ν → κ
  | insert k _ => k
  | remove k => k
  | lookUp k => k

/-- What an access makes happen to the keys. -/
def Access.change? : Access κ ν → Option (OrderedMap.Change κ ν)
  | insert k v => some (.bound k v)
  | remove k => some (.removed k)
  | lookUp _ => none

/-- The operations of a kind of container with states of type `σ`. Look-up gives the whole entry,
with the key that is kept in it. -/
structure Container (σ κ ν : Type) where
  empty : σ
  find? : σ → κ → Option (κ × ν)
  insert : σ → κ → ν → σ
  erase : σ → κ → σ
  entries : σ → Multiset (κ × ν)

namespace Container

def perform (c : Container σ κ ν) (m : σ) : Access κ ν → σ
  | .insert k v => c.insert m k v
  | .remove k => c.erase m k
  | .lookUp _ => m

/-- Each access tells which entry its key had: the one that insertion changes, removal takes away
or look-up finds. -/
def answers (c : Container σ κ ν) (m : σ) : List (Access κ ν) → List (Option (κ × ν))
  | [] => []
  | a :: rest => c.find? m a.key :: c.answers (c.perform m a) rest

def after (c : Container σ κ ν) (accesses : List (Access κ ν)) : σ :=
  accesses.foldl c.perform c.empty

/-- All that a user sees of an empty container that is put to use: the answers and the entries in
the end, which are in no order. -/
def observe (c : Container σ κ ν) (accesses : List (Access κ ν)) :
    List (Option (κ × ν)) × Multiset (κ × ν) :=
  (c.answers c.empty accesses, c.entries (c.after accesses))

/-- The laws of insertion and removal, for the states that `good` holds of. An insertion keeps the
key that is there. -/
structure Lawful [BEq κ] (c : Container σ κ ν) (good : σ → Prop) : Prop where
  empty : good c.empty
  insert : ∀ {m}, good m → ∀ k v, good (c.insert m k v)
  erase : ∀ {m}, good m → ∀ k, good (c.erase m k)
  find?_empty : ∀ k, c.find? c.empty k = none
  find?_insert : ∀ {m}, good m → ∀ k j v, c.find? (c.insert m k v) j =
    if k == j then some ((c.find? m j).elim k (·.1), v) else c.find? m j
  find?_erase : ∀ {m}, good m → ∀ k j, c.find? (c.erase m k) j =
    if k == j then none else c.find? m j
  nodup_entries : ∀ {m}, good m → (c.entries m).Nodup
  mem_entries_iff : ∀ {m}, good m → ∀ e, e ∈ c.entries m ↔ c.find? m e.1 = some e

section Lawful

variable [BEq κ] {c : Container σ κ ν} {d : Container τ κ ν} {good : σ → Prop} {fine : τ → Prop}

theorem Lawful.perform (hc : c.Lawful good) {m : σ} (hm : good m) (a : Access κ ν) :
    good (c.perform m a) := by
  cases a with
  | insert k v => exact hc.insert hm k v
  | remove k => exact hc.erase hm k
  | lookUp k => exact hm

theorem Lawful.find?_perform_eq (hc : c.Lawful good) (hd : d.Lawful fine) {m : σ} {n : τ}
    (hm : good m) (hn : fine n) (h : ∀ k, c.find? m k = d.find? n k) (a : Access κ ν) (k : κ) :
    c.find? (c.perform m a) k = d.find? (d.perform n a) k := by
  cases a with
  | insert j v =>
      simp only [Container.perform]
      rw [hc.find?_insert hm, hd.find?_insert hn, h]
  | remove j =>
      simp only [Container.perform]
      rw [hc.find?_erase hm, hd.find?_erase hn, h]
  | lookUp j => exact h k

theorem Lawful.entries_eq (hc : c.Lawful good) (hd : d.Lawful fine) {m : σ} {n : τ}
    (hm : good m) (hn : fine n) (h : ∀ k, c.find? m k = d.find? n k) :
    c.entries m = d.entries n := by
  rw [Multiset.Nodup.ext (hc.nodup_entries hm) (hd.nodup_entries hn)]
  intro e
  rw [hc.mem_entries_iff hm, hd.mem_entries_iff hn, h]

/-- Containers that find the same entries go on giving the same answers. -/
theorem Lawful.replay_eq (hc : c.Lawful good) (hd : d.Lawful fine) {m : σ} {n : τ}
    (hm : good m) (hn : fine n) (h : ∀ k, c.find? m k = d.find? n k)
    (accesses : List (Access κ ν)) :
    c.answers m accesses = d.answers n accesses ∧
      c.entries (accesses.foldl c.perform m) = d.entries (accesses.foldl d.perform n) := by
  induction accesses generalizing m n with
  | nil => exact ⟨rfl, hc.entries_eq hd hm hn h⟩
  | cons a rest ih =>
      obtain ⟨hanswers, hentries⟩ := ih (hc.perform hm a) (hd.perform hn a)
        (hc.find?_perform_eq hd hm hn h a)
      exact ⟨by rw [answers, answers, h, hanswers], hentries⟩

theorem Lawful.observe_eq (hc : c.Lawful good) (hd : d.Lawful fine)
    (accesses : List (Access κ ν)) : c.observe accesses = d.observe accesses := by
  have hempty : ∀ k, c.find? c.empty k = d.find? d.empty k := fun k => by
    rw [hc.find?_empty, hd.find?_empty]
  obtain ⟨hanswers, hentries⟩ := hc.replay_eq hd hc.empty hd.empty hempty accesses
  exact Prod.ext hanswers hentries

theorem Lawful.good_after (hc : c.Lawful good) (accesses : List (Access κ ν)) :
    good (c.after accesses) := by
  have hreplay : ∀ m, good m → good (accesses.foldl c.perform m) := by
    induction accesses with
    | nil => exact fun m hm => hm
    | cons a rest ih => exact fun m hm => ih _ (hc.perform hm a)
  exact hreplay c.empty hc.empty

end Lawful

/-! ## Entries told by a history -/

open OrderedMap (Change Bound Latest FirstAt)

/-- The entry that a history leaves a key: the form of its first binding since it was last removed,
and the value bound last. -/
def Recounts [BEq κ] (history : List (Change κ ν)) (k : κ) : Option (κ × ν) → Prop
  | none => ¬Bound history k
  | some (j, v) =>
    (∃ i w, FirstAt history k i ∧ history[i]? = some (.bound j w)) ∧ Latest history k v

section Recounts

variable [BEq κ] {history : List (Change κ ν)} {k : κ} {entry : Option (κ × ν)}

theorem Recounts.concat_bound (h : Recounts history k entry) (j : κ) (w : ν) :
    Recounts (history ++ [.bound j w]) k
      (if j == k then some (entry.elim j (·.1), w) else entry) := by
  cases entry with
  | none =>
      by_cases hj : j == k
      · rw [if_pos hj]
        refine ⟨⟨_, w, OrderedMap.firstAt_concat_new h hj w, ?_⟩, ?_⟩
        · rw [List.getElem?_concat_length]
          rfl
        · rw [OrderedMap.latest_concat_bound, if_pos hj]
      · rw [if_neg hj, Recounts, OrderedMap.bound_concat_bound]
        exact not_or.mpr ⟨hj, h⟩
  | some e =>
      obtain ⟨⟨i, u, hfirst, hi⟩, hlatest⟩ := h
      have hkept : ∃ i u, FirstAt (history ++ [.bound j w]) k i ∧
          (history ++ [.bound j w])[i]? = some (.bound e.1 u) :=
        ⟨i, u, hfirst.concat_bound j w, getElem?_concat_eq_some_iff.mpr (.inl hi)⟩
      by_cases hj : j == k
      · rw [if_pos hj]
        exact ⟨hkept, by rw [OrderedMap.latest_concat_bound, if_pos hj]⟩
      · rw [if_neg hj]
        exact ⟨hkept, by rwa [OrderedMap.latest_concat_bound, if_neg hj]⟩

theorem Recounts.concat_removed (h : Recounts history k entry) (j : κ) :
    Recounts (history ++ [.removed j]) k (if j == k then none else entry) := by
  by_cases hj : j == k
  · rw [if_pos hj, Recounts, OrderedMap.bound_concat_removed]
    exact fun hbound => hbound.1 hj
  · rw [if_neg hj]
    cases entry with
    | none =>
        rw [Recounts, OrderedMap.bound_concat_removed]
        exact fun hbound => h hbound.2
    | some e =>
        obtain ⟨⟨i, u, hfirst, hi⟩, hlatest⟩ := h
        refine ⟨⟨i, u, hfirst.concat_removed hj, ?_⟩, ?_⟩
        · exact getElem?_concat_eq_some_iff.mpr (.inl hi)
        · exact OrderedMap.latest_concat_removed.mpr ⟨hj, hlatest⟩

/-- After any accesses, the entries are those that the insertions and removals among them tell. -/
theorem Lawful.recounts {c : Container σ κ ν} {good : σ → Prop} (hc : c.Lawful good)
    (accesses : List (Access κ ν)) (k : κ) :
    Recounts (accesses.filterMap Access.change?) k (c.find? (c.after accesses) k) := by
  induction accesses using List.reverseRecOn with
  | nil =>
      rw [show c.after [] = c.empty from rfl, hc.find?_empty]
      rintro ⟨i, v, h⟩
      exact absurd h.lt_length (Nat.not_lt_zero i)
  | append_singleton accesses a ih =>
      have hgood := hc.good_after accesses
      have hafter : c.after (accesses ++ [a]) = c.perform (c.after accesses) a :=
        List.foldl_append
      rw [hafter, List.filterMap_append]
      cases a with
      | insert j v =>
          have h := ih.concat_bound j v
          rwa [← hc.find?_insert hgood] at h
      | remove j =>
          have h := ih.concat_removed j
          rwa [← hc.find?_erase hgood] at h
      | lookUp j =>
          rw [show [Access.lookUp j].filterMap Access.change? = ([] : List (Change κ ν)) from rfl,
            List.append_nil]
          exact ih

end Recounts

/-! ## Three kinds -/

/-- The maps that keep the order of insertion. Sets are those with values in `Unit`. -/
def ordered [BEq κ] : Container (IdentifierMap κ ν) κ ν where
  empty := .empty
  find? := OrderedMap.binding?
  insert := OrderedMap.insert
  erase := OrderedMap.erase
  entries m := m.entries

theorem lawful_ordered [BEq κ] [EquivBEq κ] :
    (ordered : Container (IdentifierMap κ ν) κ ν).Lawful OrderedMap.Distinct where
  empty := List.Pairwise.nil
  insert hm := hm.insert
  erase hm := hm.erase
  find?_empty _ := rfl
  find?_insert _ := OrderedMap.binding?_insert _
  find?_erase hm := hm.binding?_erase
  nodup_entries {m} hm := by
    refine Multiset.coe_nodup.mpr (List.Pairwise.of_map (·.1) ?_ hm)
    rintro a b hne rfl
    exact hne BEq.rfl
  mem_entries_iff hm _ := hm.mem_entries_iff

section Hashed

variable [BEq κ] [Hashable κ]

/-- Hash tables. Keys meet in a bucket by their hashes, and `==` tells them apart there. -/
def hashed : Container (Std.HashMap κ ν) κ ν where
  empty := ∅
  find? m k := (m.getKey? k).bind fun j => m[k]?.map (j, ·)
  insert m k v := m.insert (m.getKeyD k k) v
  erase m k := m.erase k
  entries m := m.toList

variable [EquivBEq κ] [LawfulHashable κ]

theorem hashed_map_fst_find? (m : Std.HashMap κ ν) (k : κ) :
    (hashed.find? m k).map (·.1) = m.getKey? k := by
  have hboth : (m.getKey? k).isSome = m[k]?.isSome := by
    rw [Std.HashMap.isSome_getKey?_eq_contains, Std.HashMap.isSome_getElem?_eq_contains]
  simp only [hashed]
  cases hkey : m.getKey? k with
  | none => rfl
  | some j =>
      have hvalue : m[k]?.isSome := by rw [← hboth, hkey, Option.isSome_some]
      obtain ⟨v, hv⟩ := Option.isSome_iff_exists.mp hvalue
      simp [hv]

theorem getKeyD_beq (m : Std.HashMap κ ν) (k : κ) : m.getKeyD k k == k := by
  have hbeq := m.getKey?_beq (k := k)
  rw [Std.HashMap.getKeyD_eq_getD_getKey?]
  cases hkey : m.getKey? k with
  | none => exact BEq.rfl
  | some j => simpa [hkey] using hbeq

theorem lawful_hashed : (hashed : Container (Std.HashMap κ ν) κ ν).Lawful fun _ => True where
  empty := trivial
  insert _ _ _ := trivial
  erase _ _ := trivial
  find?_empty k := by simp [hashed]
  find?_insert {m} _ k j v := by
    have hsame : (m.getKeyD k k == j) = (k == j) := BEq.congr_left (getKeyD_beq m k)
    have hfind : hashed.find? (hashed.insert m k v) j =
        if k == j then some (m.getKeyD k k, v) else hashed.find? m j := by
      simp only [hashed, Std.HashMap.getKey?_insert, Std.HashMap.getElem?_insert, hsame]
      split <;> rfl
    rw [hfind]
    split
    · rename_i h
      have hkey := hashed_map_fst_find? m j
      rw [Std.HashMap.getKeyD_eq_getD_getKey?, Std.HashMap.getKey?_congr h, ← hkey]
      cases hashed.find? m j <;> rfl
    · rfl
  find?_erase {m} _ k j := by
    simp only [hashed, Std.HashMap.getKey?_erase, Std.HashMap.getElem?_erase]
    split <;> rfl
  nodup_entries {m} _ := by
    refine Multiset.coe_nodup.mpr (m.distinct_keys_toList.imp ?_)
    rintro a b hne rfl
    simp at hne
  mem_entries_iff {m} _ e := by
    obtain ⟨k, v⟩ := e
    simp only [hashed, Multiset.mem_coe,
      Std.HashMap.mem_toList_iff_getKey?_eq_some_and_getElem?_eq_some]
    constructor
    · rintro ⟨hkey, hvalue⟩
      rw [hkey, hvalue]
      rfl
    · intro h
      obtain ⟨j, hkey, hmap⟩ := Option.bind_eq_some_iff.mp h
      obtain ⟨u, hvalue, heq⟩ := Option.map_eq_some_iff.mp hmap
      cases heq
      exact ⟨hkey, hvalue⟩

end Hashed

section Ledger

variable [DecidableEq μ]

/-- The finite maps from the marks of the keys, with the key that came first beside the value that
came last. -/
def ledger (mark : κ → μ) : Container (Finmap fun _ : μ => κ × ν) κ ν where
  empty := ∅
  find? l k := l.lookup (mark k)
  insert l k v := l.insert (mark k) ((l.lookup (mark k)).elim k (·.1), v)
  erase l k := l.erase (mark k)
  entries l := l.entries.map (·.2)

/-- Every key stands under its own mark. -/
def Filed (mark : κ → μ) (l : Finmap fun _ : μ => κ × ν) : Prop :=
  ∀ p e, l.lookup p = some e → mark e.1 = p

theorem Filed.mark_of_mem {mark : κ → μ} {l : Finmap fun _ : μ => κ × ν} (hl : Filed mark l)
    {e : Sigma fun _ : μ => κ × ν} (he : e ∈ l.entries) : mark e.2.1 = e.1 :=
  hl e.1 e.2 (Finmap.lookup_eq_some_iff.mpr he)

theorem lawful_ledger [BEq κ] {mark : κ → μ} (hmark : ∀ a b : κ, a == b ↔ mark a = mark b) :
    (ledger mark : Container (Finmap fun _ : μ => κ × ν) κ ν).Lawful (Filed mark) where
  empty p e h := by
    rw [ledger, Finmap.lookup_empty] at h
    cases h
  insert {l} hl k v := by
    intro p e h
    by_cases hp : p = mark k
    · subst hp
      rw [ledger, Finmap.lookup_insert] at h
      obtain rfl := Option.some.inj h
      cases hold : l.lookup (mark k) with
      | none => rfl
      | some d => exact hl (mark k) d hold
    · rw [ledger, Finmap.lookup_insert_of_ne l hp] at h
      exact hl p e h
  erase {l} hl k := by
    intro p e h
    by_cases hp : p = mark k
    · subst hp
      rw [ledger, Finmap.lookup_erase] at h
      cases h
    · rw [ledger, Finmap.lookup_erase_ne hp] at h
      exact hl p e h
  find?_empty k := by simp only [ledger, Finmap.lookup_empty]
  find?_insert {l} _ k j v := by
    simp only [ledger, hmark]
    split
    · rename_i h
      rw [h, Finmap.lookup_insert]
    · rename_i h
      exact Finmap.lookup_insert_of_ne l (Ne.symm h)
  find?_erase {l} _ k j := by
    simp only [ledger, hmark]
    split
    · rename_i h
      rw [h, Finmap.lookup_erase]
    · rename_i h
      exact Finmap.lookup_erase_ne (Ne.symm h)
  nodup_entries {l} hl := by
    refine Multiset.Nodup.map_on ?_ l.nodup_entries
    intro a ha b hb heq
    have hfst : a.1 = b.1 := by rw [← hl.mark_of_mem ha, ← hl.mark_of_mem hb, heq]
    exact Sigma.ext hfst (heq_of_eq heq)
  mem_entries_iff {l} hl e := by
    simp only [ledger, Multiset.mem_map, Finmap.lookup_eq_some_iff]
    constructor
    · rintro ⟨a, ha, rfl⟩
      rw [hl.mark_of_mem ha]
      exact ha
    · exact fun he => ⟨_, he, rfl⟩

theorem mem_entries_of_find? {mark : κ → μ} {l : Finmap fun _ : μ => κ × ν} {k : κ} {e : κ × ν}
    (h : (ledger mark).find? l k = some e) : e ∈ (ledger mark).entries l :=
  Multiset.mem_map.mpr ⟨⟨mark k, e⟩, Finmap.lookup_eq_some_iff.mp h, rfl⟩

end Ledger

/-- What containers make of keys that `==` takes for equal when their marks are equal: however they
are put to use, they show what a finite map from the marks shows, and of a key the first form and
the last value; two marks have an entry each, whatever their hashes. -/
structure KeySpec [BEq κ] [Hashable κ] [DecidableEq μ] (mark : κ → μ) : Prop where
  beq_iff : ∀ a b : κ, a == b ↔ mark a = mark b
  ordered_eq : ∀ {ν : Type} (accesses : List (Access κ ν)),
    ordered.observe accesses = (ledger mark).observe accesses
  hashed_eq : ∀ {ν : Type} (accesses : List (Access κ ν)),
    hashed.observe accesses = (ledger mark).observe accesses
  recounts : ∀ {ν : Type} (accesses : List (Access κ ν)) (k : κ),
    Recounts (accesses.filterMap Access.change?) k
      ((ledger mark).find? ((ledger mark).after accesses) k)
  apart : ∀ {ν : Type} (accesses : List (Access κ ν)) (j k : κ) (v w : ν), mark j ≠ mark k →
    ∃ i l, mark i = mark j ∧ mark l = mark k ∧
      (i, v) ∈ (hashed.observe (accesses ++ [.insert j v, .insert k w])).2 ∧
      (l, w) ∈ (hashed.observe (accesses ++ [.insert j v, .insert k w])).2

section Marks

variable [BEq κ] {mark : κ → μ}

theorem equivBEq_of_mark (hmark : ∀ a b : κ, a == b ↔ mark a = mark b) : EquivBEq κ where
  rfl := (hmark _ _).mpr rfl
  symm h := (hmark _ _).mpr ((hmark _ _).mp h).symm
  trans hab hbc := (hmark _ _).mpr (((hmark _ _).mp hab).trans ((hmark _ _).mp hbc))

variable [DecidableEq μ]

/-- The entry that insertion leaves stands under the mark of the key that was inserted. -/
theorem exists_find?_insert (hmark : ∀ a b : κ, a == b ↔ mark a = mark b)
    {l : Finmap fun _ : μ => κ × ν} (hl : Filed mark l) (k : κ) (v : ν) :
    ∃ i, mark i = mark k ∧ (ledger mark).find? ((ledger mark).insert l k v) k = some (i, v) := by
  have hlaw := lawful_ledger (ν := ν) hmark
  have hfind := hlaw.find?_insert hl k k v
  rw [if_pos ((hmark k k).mpr rfl)] at hfind
  exact ⟨_, hlaw.insert hl k v _ _ hfind, hfind⟩

theorem keySpec_of_mark [Hashable κ] [EquivBEq κ] [LawfulHashable κ]
    (hmark : ∀ a b : κ, a == b ↔ mark a = mark b) : KeySpec mark where
  beq_iff := hmark
  ordered_eq := lawful_ordered.observe_eq (lawful_ledger hmark)
  hashed_eq := lawful_hashed.observe_eq (lawful_ledger hmark)
  recounts := (lawful_ledger hmark).recounts
  apart {ν} accesses j k v w hne := by
    have hlaw := lawful_ledger (ν := ν) hmark
    have hfiled := hlaw.good_after accesses
    have hfiled' := hlaw.insert hfiled j v
    obtain ⟨i, hi, hfirst⟩ := exists_find?_insert hmark hfiled j v
    obtain ⟨l, hl, hsecond⟩ := exists_find?_insert hmark hfiled' k w
    have hkept := hlaw.find?_insert hfiled' k j w
    rw [if_neg fun h => hne ((hmark k j).mp h).symm, hfirst] at hkept
    rw [lawful_hashed.observe_eq hlaw]
    have hafter : (ledger mark).after (accesses ++ [.insert j v, .insert k w]) =
        (ledger mark).insert ((ledger mark).insert ((ledger mark).after accesses) j v) k w :=
      List.foldl_append
    refine ⟨i, l, hi, hl, ?_, ?_⟩
    · rw [observe, hafter]
      exact mem_entries_of_find? hkept
    · rw [observe, hafter]
      exact mem_entries_of_find? hsecond

end Marks

end Container

/-! ## Symbols as keys -/

/-- A symbol that a run makes, as a key whose words are hashed by `digest`. -/
structure SymbolKey (digest : List Int32 → UInt64) (supply : Supply)
    (tasks : List Workshop.Task) where
  symbol : Symbol
  made : symbol ∈ Workshop.made supply tasks

namespace SymbolKey

variable {digest : List Int32 → UInt64} {supply : Supply} {tasks : List Workshop.Task}

instance : BEq (SymbolKey digest supply tasks) where
  beq a b := a.symbol == b.symbol

instance : Hashable (SymbolKey digest supply tasks) where
  hash a := digest (Identifier.symbol a.symbol).fed

/-- The parts of the name. -/
def mark (a : SymbolKey digest supply tasks) : Option String × String :=
  (a.symbol.name.ns, a.symbol.name.localName)

theorem beq_iff_name_eq (a b : SymbolKey digest supply tasks) :
    a == b ↔ a.symbol.name = b.symbol.name :=
  ((Workshop.sound_start supply).run tasks).beq_iff a.made b.made

theorem beq_iff_mark_eq (a b : SymbolKey digest supply tasks) : a == b ↔ a.mark = b.mark := by
  rw [beq_iff_name_eq]
  constructor
  · intro h
    rw [mark, mark, h]
  · intro h
    exact Name.ext (Prod.mk.inj h).1 (Prod.mk.inj h).2

instance : EquivBEq (SymbolKey digest supply tasks) :=
  Container.equivBEq_of_mark beq_iff_mark_eq

instance : LawfulHashable (SymbolKey digest supply tasks) where
  hash_eq a b h := by
    have hcodes := ((Workshop.sound_start supply).run tasks).codes
    have hcode : a.symbol.code = b.symbol.code := by
      rw [hcodes a.symbol a.made, hcodes b.symbol b.made, (beq_iff_name_eq a b).mp h]
    exact congrArg (fun code => digest [code]) hcode

end SymbolKey

/-! ## Keywords as keys -/

/-- Any number of tables, each with a number of its own. -/
structure TableFamily where
  tables : List KeywordTable
  reachable : ∀ t ∈ tables, t.Reachable
  numbers : (tables.map (·.number)).Nodup

/-- A keyword that one of the tables holds, as a key whose words are hashed by `digest`. -/
structure KeywordKey (digest : List Int32 → UInt64) (family : TableFamily) where
  keyword : Keyword
  drawn : keyword.DrawnFrom family.tables

namespace KeywordKey

variable {digest : List Int32 → UInt64} {family : TableFamily}

instance : BEq (KeywordKey digest family) where
  beq a b := a.keyword == b.keyword

instance : Hashable (KeywordKey digest family) where
  hash a := digest (Identifier.keyword a.keyword).fed

/-- The instance that the keyword is. -/
def mark (a : KeywordKey digest family) : KeywordId :=
  a.keyword.id

theorem beq_iff_mark_eq (a b : KeywordKey digest family) : a == b ↔ a.mark = b.mark :=
  Keyword.beq_iff_id_eq

theorem hash_eq_of_name {a b : KeywordKey digest family} (h : a.keyword.name = b.keyword.name) :
    hash a = hash b := by
  have hcode : ∀ k : KeywordKey digest family,
      k.keyword.code = Hash.qualified .keyword k.keyword.name := by
    intro k
    obtain ⟨t, ht, hk⟩ := k.drawn
    exact (family.reachable t ht).sound.codes k.keyword hk
  have hsame : a.keyword.code = b.keyword.code := by rw [hcode a, hcode b, h]
  exact congrArg (fun code => digest [code]) hsame

instance : EquivBEq (KeywordKey digest family) :=
  Container.equivBEq_of_mark beq_iff_mark_eq

instance : LawfulHashable (KeywordKey digest family) where
  hash_eq a b h := by
    have hkeyword := a.drawn.eq_of_id (fun t ht => (family.reachable t ht).sound) family.numbers
      b.drawn ((beq_iff_mark_eq a b).mp h)
    exact hash_eq_of_name (congrArg Keyword.name hkeyword)

/-- Keywords of one name are the same key exactly if they are of the same table. -/
theorem beq_iff_table_eq {a b : KeywordKey digest family}
    (h : a.keyword.name = b.keyword.name) : a == b ↔ a.mark.table = b.mark.table := by
  rw [beq_iff_mark_eq]
  refine ⟨congrArg KeywordId.table, fun htable => ?_⟩
  obtain ⟨t, ht, ha⟩ := a.drawn
  obtain ⟨u, hu, hb⟩ := b.drawn
  have hnumber : t.number = u.number := by
    rw [← (family.reachable t ht).sound.table_of_mem ha,
      ← (family.reachable u hu).sound.table_of_mem hb]
    exact htable
  obtain rfl := List.inj_on_of_nodup_map family.numbers ht hu hnumber
  exact congrArg Keyword.id ((family.reachable t ht).sound.eq_of_name ha hb h)

end KeywordKey

/-! ## Both -/

/-- Containers tell symbols apart by the parts of their names and keywords by their instances;
keywords of one name have one hash, and are as many keys as they have tables. -/
theorem identifiers_are_keys (digest : List Int32 → UInt64) :
    (∀ supply tasks,
      Container.KeySpec (SymbolKey.mark : SymbolKey digest supply tasks → Option String × String)) ∧
    ∀ family : TableFamily,
      Container.KeySpec (KeywordKey.mark : KeywordKey digest family → KeywordId) ∧
      ∀ a b : KeywordKey digest family, a.keyword.name = b.keyword.name →
        hash a = hash b ∧ (a == b ↔ a.mark.table = b.mark.table) := by
  constructor
  · intro supply tasks
    exact Container.keySpec_of_mark SymbolKey.beq_iff_mark_eq
  · intro family
    refine ⟨Container.keySpec_of_mark KeywordKey.beq_iff_mark_eq, ?_⟩
    intro a b h
    exact ⟨KeywordKey.hash_eq_of_name h, KeywordKey.beq_iff_table_eq h⟩

/-- Two symbols with one hash, the first of them also with metadata, and two keywords of one name:
each map ends with two entries. -/
theorem identifiers_are_keys_collisions :
    let digest : List Int32 → UInt64 := fun words => (words.headD 0).toUInt32.toUInt64
    let tasks : List Workshop.Task :=
      [.make (.parse "Aa/x"), .vary 0 (.ofEdits []), .make (.parse "BB/x")]
    (∃ a a' b : SymbolKey digest {} tasks,
      a.symbol.metadata.isNone ∧ a'.symbol.metadata.isSome ∧ a == a' ∧ ¬a == b ∧ hash a = hash b ∧
      (Container.hashed.observe [.insert a 0, .insert a' 1, .insert b 2]).2 = {(a, 1), (b, 2)}) ∧
    ∃ (family : TableFamily) (a b : KeywordKey digest family),
      a.keyword.name = b.keyword.name ∧ ¬a == b ∧ hash a = hash b ∧
      (Container.hashed.observe [.insert a 0, .insert b 1]).2 = {(a, 0), (b, 1)} := by
  intro digest tasks
  have hspec := identifiers_are_keys digest
  constructor
  · have hmade : ∃ a a' b, Workshop.made {} tasks = [a, a', b] ∧ a.metadata.isNone ∧
        a'.metadata.isSome ∧ a.name = a'.name ∧ a.name.ns ≠ b.name.ns ∧ a.code = b.code :=
      ⟨_, _, _, rfl, by decide, by decide, by decide, by decide, by decide⟩
    obtain ⟨s, s', t, hlist, hnone, hsome, hname, hne, hcode⟩ := hmade
    let a : SymbolKey digest {} tasks := ⟨s, by simp [hlist]⟩
    let a' : SymbolKey digest {} tasks := ⟨s', by simp [hlist]⟩
    let b : SymbolKey digest {} tasks := ⟨t, by simp [hlist]⟩
    have haa' : a == a' := (SymbolKey.beq_iff_name_eq a a').mpr hname
    have hab : ¬a == b := fun h => hne (congrArg Name.ns ((SymbolKey.beq_iff_name_eq a b).mp h))
    refine ⟨a, a', b, hnone, hsome, haa', hab, congrArg (fun code => digest [code]) hcode, ?_⟩
    rw [(hspec.1 {} tasks).hashed_eq, ← (hspec.1 {} tasks).ordered_eq]
    refine congrArg Multiset.ofList (?_ : _ = [(a, 1), (b, 2)])
    simp [Container.after, Container.perform, Container.ordered, OrderedMap.empty,
      OrderedMap.insert, OrderedMap.insertEntry, haa', hab]
  · let q : Name := ⟨none, "k", "k", by decide, by simp, rfl⟩
    let family : TableFamily := {
      tables := [((KeywordTable.empty 0 1).intern q).2, ((KeywordTable.empty 1 1).intern q).2]
      reachable := by
        simp only [List.forall_mem_cons, List.not_mem_nil, false_implies, implies_true, and_true]
        exact ⟨(KeywordTable.Reachable.empty 0 1).intern q,
          (KeywordTable.Reachable.empty 1 1).intern q⟩
      numbers := by decide }
    let a : KeywordKey digest family :=
      ⟨((KeywordTable.empty 0 1).intern q).1, _, .head _, List.mem_singleton.mpr rfl⟩
    let b : KeywordKey digest family :=
      ⟨((KeywordTable.empty 1 1).intern q).1, _, .tail _ (.head _), List.mem_singleton.mpr rfl⟩
    obtain ⟨hkeys, hnames⟩ := hspec.2 family
    obtain ⟨hhash, htable⟩ := hnames a b rfl
    have hab : ¬a == b := by
      rw [htable]
      decide
    refine ⟨family, a, b, rfl, hab, hhash, ?_⟩
    rw [hkeys.hashed_eq, ← hkeys.ordered_eq]
    refine congrArg Multiset.ofList (?_ : _ = [(a, 0), (b, 1)])
    simp [Container.after, Container.perform, Container.ordered, OrderedMap.empty,
      OrderedMap.insert, OrderedMap.insertEntry, hab]

end Moniker
