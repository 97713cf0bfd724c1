import Moniker.Proofs.Order

/-! # What a table lists

A table lists its keywords in the order of their names: every name it was asked for, once, and
no other. Neither the order of the requests nor the steps they took can be told from the list. -/

namespace Moniker

/-- A list in which one element is replaced, split at its place. -/
theorem exists_split_of_getElem? {α : Type} {l : List α} {i : Nat} {a : α} (h : l[i]? = some a)
    (b : α) : ∃ before after, l = before ++ a :: after ∧ l.set i b = before ++ b :: after := by
  obtain ⟨hi, hget⟩ := List.getElem?_eq_some_iff.mp h
  obtain ⟨before, after, hsplit, -, hset⟩ := @List.exists_of_set _ _ b _ hi
  rw [hget] at hsplit
  exact ⟨before, after, hsplit, hset⟩

/-- A list in which not every element has a property, split at the first one that has not. -/
theorem exists_first_split {α : Type} {p : α → Prop} {l : List α} (h : ¬∀ a ∈ l, p a) :
    ∃ before a after, l = before ++ a :: after ∧ (∀ b ∈ before, p b) ∧ ¬p a := by
  induction l with
  | nil => exact absurd (List.forall_mem_nil p) h
  | cons a l ih =>
      by_cases ha : p a
      · have hrest : ¬∀ b ∈ l, p b := fun hl => h (List.forall_mem_cons.mpr ⟨ha, hl⟩)
        obtain ⟨before, b, after, rfl, hbefore, hb⟩ := ih hrest
        exact ⟨a :: before, b, after, rfl, List.forall_mem_cons.mpr ⟨ha, hbefore⟩, hb⟩
      · exact ⟨[], a, l, rfl, List.forall_mem_nil p, ha⟩

/-! ## Names that requests were answered for -/

namespace KeywordTable

theorem name_mem_of_find? {t : KeywordTable} {q : Name} {k : Keyword} (h : t.find? q = some k) :
    q ∈ t.keywords.map (·.name) := by
  rw [← name_of_find? h]
  exact List.mem_map_of_mem (mem_of_find? h)

theorem mem_names_install (t : KeywordTable) (q : Name) (code : Int32) (p : Name) :
    p ∈ (t.install q code).2.keywords.map (·.name) ↔
      p ∈ t.keywords.map (·.name) ∨ p ∈ [q] := by
  cases hfind : t.find? q with
  | some k =>
      rw [install_of_find? hfind, List.mem_singleton]
      constructor
      · exact .inl
      · rintro (hp | rfl)
        · exact hp
        · exact name_mem_of_find? hfind
  | none =>
      rw [install_of_not_find? hfind, List.map_append, List.mem_append]
      rfl

end KeywordTable

/-- A turn binds the names of the requests that it answers, if they are not bound already, and
no other names. -/
theorem Worker.Advances.exists_answered {w w' : Worker} {t t' : KeywordTable}
    (h : Advances w t w' t') :
    ∃ names, w'.answers.map (·.1) = w.answers.map (·.1) ++ names ∧
      ∀ q, q ∈ t'.keywords.map (·.name) ↔ q ∈ t.keywords.map (·.name) ∨ q ∈ names := by
  cases h with
  | rest => exact ⟨[], by simp⟩
  | @hit q k names answers _ hk =>
      refine ⟨[q], by simp [answered], ?_⟩
      intro p
      rw [List.mem_singleton]
      constructor
      · exact .inl
      · rintro (hp | rfl)
        · exact hp
        · exact KeywordTable.name_mem_of_find? hk
  | miss _ => exact ⟨[], by simp⟩
  | @hash q =>
      refine ⟨[], by simp, ?_⟩
      intro p
      simp [(t.hashName_frame q).2.1]
  | @install q code => exact ⟨[q], by simp [answered], t.mem_names_install q code⟩

namespace Pool

/-- The names of the requests that were answered. -/
def answered (s : Pool) : List Name :=
  s.completed.map (·.1)

theorem mem_answered_set {s : Pool} {i : Nat} {w w' : Worker} {names : List Name}
    (hw : s.workers[i]? = some w) (hnames : w'.answers.map (·.1) = w.answers.map (·.1) ++ names)
    (t : KeywordTable) (q : Name) :
    q ∈ (answered ⟨t, s.workers.set i w'⟩) ↔ q ∈ s.answered ∨ q ∈ names := by
  obtain ⟨before, after, hsplit, hset⟩ := exists_split_of_getElem? hw w'
  rw [answered, completed, answered, completed, hset, hsplit]
  simp only [List.flatMap_append, List.flatMap_cons, List.map_append, hnames, List.mem_append]
  tauto

/-- The names bound since a table `t` are those of the requests answered. -/
def Binds (t : KeywordTable) (s : Pool) : Prop :=
  ∀ q, q ∈ s.table.keywords.map (·.name) ↔ q ∈ t.keywords.map (·.name) ∨ q ∈ s.answered

theorem binds_start (t : KeywordTable) (requests : List (List Name)) :
    Binds t (start t requests) := by
  intro q
  simp [answered, completed, start, Worker.start]

theorem Binds.turn {t : KeywordTable} {s : Pool} (hs : Binds t s) (u : Turn) :
    Binds t (s.turn u) := by
  intro q
  cases u with
  | worker i =>
      cases hw : s.workers[i]? with
      | none =>
          simp only [Pool.turn, hw]
          exact hs q
      | some w =>
          obtain ⟨names, hnames, hbound⟩ := (w.advance_advances s.table).exists_answered
          simp only [Pool.turn, hw]
          rw [hbound, hs q, mem_answered_set hw hnames, or_assoc]
  | resetStats => exact hs q

theorem Binds.run {t : KeywordTable} {s : Pool} (hs : Binds t s) (turns : List Turn) :
    Binds t (s.run turns) := by
  induction turns generalizing s with
  | nil => exact hs
  | cons u turns ih => exact ih (hs.turn u)

end Pool

namespace KeywordTable

/-- A table that came to be in any way, with the names that were interned on the way. -/
inductive Interned : KeywordTable → List Name → Prop
  | empty (number memoLimit : Nat) : Interned (.empty number memoLimit) []
  | record {t names} (e : Event) : Interned t names → Interned (t.record e) names
  | run {t names} (requests : List (List Name)) (turns : List Turn) : Interned t names →
      Interned ((Pool.start t requests).run turns).table
        (names ++ ((Pool.start t requests).run turns).answered)

theorem Interned.reachable {t : KeywordTable} {names : List Name} (h : t.Interned names) :
    t.Reachable := by
  induction h with
  | empty number memoLimit => exact .empty number memoLimit
  | record e _ ih => exact ih.record e
  | run requests turns _ ih => exact ih.run requests turns

theorem Reachable.exists_interned {t : KeywordTable} (ht : t.Reachable) :
    ∃ names, t.Interned names := by
  induction ht with
  | empty number memoLimit => exact ⟨[], .empty number memoLimit⟩
  | record e _ ih =>
      obtain ⟨names, h⟩ := ih
      exact ⟨names, h.record e⟩
  | run requests turns _ ih =>
      obtain ⟨names, h⟩ := ih
      exact ⟨_, h.run requests turns⟩

theorem Interned.intern {t : KeywordTable} {names : List Name} (h : t.Interned names) (q : Name) :
    (t.intern q).2.Interned (names ++ [q]) := by
  obtain ⟨htable, hcompleted⟩ := Pool.run_lone_worker t q
  have hrun := h.run [[q]] [.worker 0, .worker 0, .worker 0]
  rw [htable, Pool.answered, hcompleted] at hrun
  exact hrun

theorem Interned.internAll {t : KeywordTable} {names : List Name} (h : t.Interned names)
    (more : List Name) : (t.internAll more).2.Interned (names ++ more) := by
  induction more generalizing t names with
  | nil => simpa [KeywordTable.internAll] using h
  | cons q more ih => simpa [KeywordTable.internAll] using ih (h.intern q)

/-- A table binds the names that were interned, and no others. -/
theorem Interned.mem_names_iff {t : KeywordTable} {names : List Name} (h : t.Interned names)
    (q : Name) : q ∈ t.keywords.map (·.name) ↔ q ∈ names := by
  induction h with
  | empty number memoLimit => simp [KeywordTable.empty]
  | record e _ ih => exact ih
  | @run t names requests turns _ ih =>
      rw [(Pool.binds_start t requests).run turns q, ih, List.mem_append]

/-! ## The sorted list -/

theorem mem_sorted {t : KeywordTable} {k : Keyword} : k ∈ t.sorted ↔ k ∈ t.keywords :=
  (List.mergeSort_perm _ _).mem_iff

theorem map_name_sorted_perm (t : KeywordTable) :
    (t.sorted.map (·.name)).Perm (t.keywords.map (·.name)) :=
  (List.mergeSort_perm _ _).map _

theorem Sound.nodup_names_sorted {t : KeywordTable} (ht : t.Sound) :
    (t.sorted.map (·.name)).Nodup :=
  t.map_name_sorted_perm.nodup_iff.mpr ht.nodup

theorem Sound.names_sorted_ascending {t : KeywordTable} (ht : t.Sound) :
    (t.sorted.map (·.name)).Pairwise fun p q => compare p q = .lt := by
  have hle : (t.sorted.map (·.name)).Pairwise fun p q => (compare p q).isLE := by
    rw [List.pairwise_map]
    refine List.pairwise_mergeSort (fun a b c => Std.TransCmp.isLE_trans) ?_ t.keywords
    intro a b
    have hswap : compare b.name a.name = (compare a.name b.name).swap :=
      Std.OrientedCmp.eq_swap
    rw [hswap]
    cases compare a.name b.name <;> rfl
  -- names that tie are the same, and no name is there twice
  refine (hle.and ht.nodup_names_sorted).imp ?_
  rintro p q ⟨hpq, hne⟩
  rcases Ordering.isLE_iff_eq_lt_or_eq_eq.mp hpq with hlt | heq
  · exact hlt
  · exact absurd (Std.LawfulEqOrd.eq_of_compare heq) hne

/-- Sound tables that bind the same names list them alike, with the same hash codes. -/
theorem Sound.listing_eq {t u : KeywordTable} (ht : t.Sound) (hu : u.Sound)
    (h : ∀ q, q ∈ t.keywords.map (·.name) ↔ q ∈ u.keywords.map (·.name)) :
    t.sorted.map (fun k => (k.name, k.code)) = u.sorted.map fun k => (k.name, k.code) := by
  have hcodes : ∀ {v : KeywordTable}, v.Sound → v.sorted.map (fun k => (k.name, k.code)) =
      (v.sorted.map (·.name)).map fun q => (q, Hash.qualified .keyword q) := by
    intro v hv
    rw [List.map_map]
    apply List.map_congr_left
    intro k hk
    rw [hv.codes k (mem_sorted.mp hk), Function.comp_apply]
  have hnames : t.sorted.map (·.name) = u.sorted.map (·.name) := by
    apply List.Perm.eq_of_pairwise _ ht.names_sorted_ascending hu.names_sorted_ascending
    · rw [List.perm_ext_iff_of_nodup ht.nodup_names_sorted hu.nodup_names_sorted]
      intro q
      rw [t.map_name_sorted_perm.mem_iff, h, u.map_name_sorted_perm.mem_iff]
    · intro p q _ _ hpq hqp
      exact absurd hqp (Std.OrientedCmp.not_lt_of_lt hpq)
  rw [hcodes ht, hcodes hu, hnames]

theorem Sound.size_eq {t u : KeywordTable} (ht : t.Sound) (hu : u.Sound)
    (h : ∀ q, q ∈ t.keywords.map (·.name) ↔ q ∈ u.keywords.map (·.name)) : t.size = u.size := by
  have hperm := (List.perm_ext_iff_of_nodup ht.nodup hu.nodup).mpr h
  simpa [size] using hperm.length_eq

theorem contains_iff_mem_names {t : KeywordTable} {q : Name} :
    t.contains q ↔ q ∈ t.keywords.map (·.name) := by
  rw [contains, Option.isSome_iff_ne_none, ne_eq, find?_eq_none_iff, not_not]

/-! ## Requests in any order -/

/-- What a table lists after the given names were interned. -/
structure ListingSpec (t : KeywordTable) (names : List Name) : Prop where
  ascending : (t.sorted.map (·.name)).Pairwise fun p q => compare p q = .lt
  ascending_keywords : ∀ address, t.sorted.Pairwise fun a b => a.compareBy address b = .lt
  count_eq : ∀ q, (t.sorted.map (·.name)).count q = if q ∈ names then 1 else 0
  listed_iff : ∀ k, k ∈ t.sorted ↔ t.find? k.name = some k
  codes : ∀ k ∈ t.sorted, k.code = Hash.qualified .keyword k.name

theorem Interned.listingSpec {t : KeywordTable} {names : List Name} (h : t.Interned names) :
    t.ListingSpec names := by
  have ht := h.reachable.sound
  refine ⟨ht.names_sorted_ascending, ?_, ?_, ?_, ?_⟩
  · intro address
    refine List.Pairwise.imp_of_mem ?_ (List.pairwise_map.mp ht.names_sorted_ascending)
    intro a b ha hb hlt
    rw [Keyword.compareBy_eq_compare_name ht address (mem_sorted.mp ha) (mem_sorted.mp hb)]
    exact hlt
  · intro q
    rw [ht.nodup_names_sorted.count]
    simp only [t.map_name_sorted_perm.mem_iff, h.mem_names_iff]
  · intro k
    rw [mem_sorted, ht.find?_eq_some_iff]
    simp
  · intro k hk
    exact ht.codes k (mem_sorted.mp hk)

/-- Two tables that nobody can tell apart but by the instances they give. -/
structure SameContents (t u : KeywordTable) : Prop where
  size_eq : t.size = u.size
  contains_eq : ∀ q, t.contains q = u.contains q
  listing_eq : t.sorted.map (fun k => (k.name, k.code)) = u.sorted.map fun k => (k.name, k.code)
  hits_eq : t.hits = u.hits
  misses_eq : t.misses = u.misses

theorem Reachable.internAll_perm {t : KeywordTable} (ht : t.Reachable) {names names' : List Name}
    (h : names.Perm names') :
    SameContents (t.internAll names).2 (t.internAll names').2 := by
  obtain ⟨before, hbefore⟩ := ht.exists_interned
  have hsound := (ht.internAll names).sound
  have hsound' := (ht.internAll names').sound
  have hmem : ∀ q, q ∈ (t.internAll names).2.keywords.map (·.name) ↔
      q ∈ (t.internAll names').2.keywords.map (·.name) := by
    intro q
    rw [(hbefore.internAll names).mem_names_iff, (hbefore.internAll names').mem_names_iff,
      List.mem_append, List.mem_append, h.mem_iff]
  have hsize := hsound.size_eq hsound' hmem
  -- the misses are told by the size, and the hits by the number of requests
  obtain ⟨htotal, hmisses⟩ := t.internAll_counts names
  obtain ⟨htotal', hmisses'⟩ := t.internAll_counts names'
  have hlength := h.length_eq
  refine ⟨hsize, ?_, hsound.listing_eq hsound' hmem, by omega, by omega⟩
  intro q
  rw [Bool.eq_iff_iff, contains_iff_mem_names, contains_iff_mem_names, hmem q]

/-- The order of requests leaves no trace in a table but its instances; and whatever requests
came in whatever steps, a table lists the names that were interned, each once and in ascending
order. -/
theorem permuted_requests_same_listing :
    (∀ (t : KeywordTable) (names names' : List Name), t.Reachable → names.Perm names' →
      SameContents (t.internAll names).2 (t.internAll names').2) ∧
    (∀ t : KeywordTable, t.Reachable → ∃ names, t.Interned names) ∧
    ∀ (t : KeywordTable) (names : List Name), t.Interned names → t.ListingSpec names :=
  ⟨fun _ _ _ ht h => ht.internAll_perm h, fun _ ht => ht.exists_interned,
    fun _ _ h => h.listingSpec⟩

/-- One order of requests empties the memo twice and the other once, and both leave the same. -/
theorem permuted_requests_same_listing_flush :
    let x : Name := ⟨some "a", "x", "a/x", by decide, by decide, by decide⟩
    let y : Name := ⟨some "b", "y", "b/y", by decide, by decide, by decide⟩
    let z : Name := ⟨some "a", "z", "a/z", by decide, by decide, by decide⟩
    let t := KeywordTable.empty 0 1
    t.Reachable ∧ [x, y, z, x].Perm [x, z, x, y] ∧
      (t.internAll [x, y, z, x]).2.journal = [.memoFlushed 1, .memoFlushed 1] ∧
      (t.internAll [x, z, x, y]).2.journal = [.memoFlushed 1] ∧
      SameContents (t.internAll [x, y, z, x]).2 (t.internAll [x, z, x, y]).2 ∧
      ∃ names, (t.internAll [x, y, z, x]).2.Interned names ∧ names = [x, y, z, x] ∧
        (t.internAll [x, y, z, x]).2.ListingSpec names := by
  intro x y z t
  have ht : t.Reachable := .empty 0 1
  have hperm : [x, y, z, x].Perm [x, z, x, y] := by decide
  have hnames : (t.internAll [x, y, z, x]).2.Interned [x, y, z, x] :=
    (Interned.empty 0 1).internAll _
  obtain ⟨hsame, -, hlisting⟩ := permuted_requests_same_listing
  exact ⟨ht, hperm, by decide, by decide, hsame t _ _ ht hperm,
    _, hnames, rfl, hlisting _ _ hnames⟩

end KeywordTable

end Moniker
