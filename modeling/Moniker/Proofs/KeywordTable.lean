import Mathlib.Data.List.Nodup
import Moniker.KeywordTable.Preload
import Moniker.Proofs.Memo

/-! # The invariant of keyword tables

A table binds a name at most once, numbers its keywords by their places, and gives each the hash
code of its name. Every step of interning keeps this and adds bindings at the end only. -/

namespace Moniker.KeywordTable

/-- What every table keeps to: sound memo, keywords numbered by their places, one for each name,
with the hash code of that name. -/
structure Sound (t : KeywordTable) : Prop where
  memo : t.memo.Sound
  ids : ∀ (i : Nat) (k : Keyword), t.keywords[i]? = some k → k.id = ⟨t.number, i⟩
  nodup : (t.keywords.map (·.name)).Nodup
  codes : ∀ k ∈ t.keywords, k.code = Hash.qualified .keyword k.name

/-- The later table is the same one with the same bindings first. -/
structure Extends (t later : KeywordTable) : Prop where
  number_eq : later.number = t.number
  keywords_le : t.keywords <+: later.keywords

/-- What happens to memo, counters and journal takes no binding away. -/
theorem extends_of_keywords_eq {t later : KeywordTable} (hn : later.number = t.number)
    (hk : later.keywords = t.keywords) : t.Extends later :=
  ⟨hn, [], by simp [hk]⟩

theorem Extends.refl (t : KeywordTable) : t.Extends t :=
  extends_of_keywords_eq rfl rfl

theorem extends_record (t : KeywordTable) (e : Event) : t.Extends (t.record e) :=
  extends_of_keywords_eq rfl rfl

theorem Extends.trans {t u v : KeywordTable} (htu : t.Extends u) (huv : u.Extends v) :
    t.Extends v :=
  ⟨huv.number_eq.trans htu.number_eq, htu.keywords_le.trans huv.keywords_le⟩

theorem Extends.find? {t later : KeywordTable} (h : t.Extends later) {q : Name} {k : Keyword}
    (hk : t.find? q = some k) : later.find? q = some k :=
  h.keywords_le.find?_eq_some hk

/-! ## Bindings -/

theorem mem_of_find? {t : KeywordTable} {q : Name} {k : Keyword} (h : t.find? q = some k) :
    k ∈ t.keywords :=
  List.mem_of_find?_eq_some h

theorem name_of_find? {t : KeywordTable} {q : Name} {k : Keyword} (h : t.find? q = some k) :
    k.name = q := by
  simpa using List.find?_some h

theorem find?_eq_none_iff {t : KeywordTable} {q : Name} :
    t.find? q = none ↔ q ∉ t.keywords.map (·.name) := by
  simp [KeywordTable.find?]

theorem Sound.eq_of_name {t : KeywordTable} (ht : t.Sound) {k k' : Keyword}
    (hk : k ∈ t.keywords) (hk' : k' ∈ t.keywords) (h : k.name = k'.name) : k = k' :=
  List.inj_on_of_nodup_map ht.nodup hk hk' h

/-- A keyword carries the number of the table that holds it. -/
theorem Sound.table_of_mem {t : KeywordTable} (ht : t.Sound) {k : Keyword}
    (hk : k ∈ t.keywords) : k.id.table = t.number := by
  obtain ⟨i, hi⟩ := List.mem_iff_getElem?.mp hk
  rw [ht.ids i k hi]

/-- A table numbers its keywords from zero on. -/
theorem Sound.map_id_eq {t : KeywordTable} (ht : t.Sound) :
    t.keywords.map (·.id) = (List.range t.size).map (KeywordId.mk t.number) := by
  apply List.ext_getElem?
  intro i
  cases hget : t.keywords[i]? with
  | none =>
      have hi : t.size ≤ i := List.getElem?_eq_none_iff.mp hget
      simp [hget, hi]
  | some k =>
      have hi : i < t.size := (List.getElem?_eq_some_iff.mp hget).1
      simp [hget, List.getElem?_range hi, ht.ids i k hget]

theorem Sound.nodup_ids {t : KeywordTable} (ht : t.Sound) : (t.keywords.map (·.id)).Nodup := by
  rw [ht.map_id_eq]
  exact List.nodup_range.map fun i j h => (KeywordId.mk.inj h).2

theorem Sound.eq_of_id {t : KeywordTable} (ht : t.Sound) {k k' : Keyword}
    (hk : k ∈ t.keywords) (hk' : k' ∈ t.keywords) (h : k.id = k'.id) : k = k' :=
  List.inj_on_of_nodup_map ht.nodup_ids hk hk' h

theorem Sound.find?_eq_some_iff {t : KeywordTable} (ht : t.Sound) {q : Name} {k : Keyword} :
    t.find? q = some k ↔ k ∈ t.keywords ∧ k.name = q := by
  constructor
  · intro h
    exact ⟨mem_of_find? h, name_of_find? h⟩
  · rintro ⟨hk, rfl⟩
    cases hfind : t.find? k.name with
    | none =>
        exact absurd (List.mem_map_of_mem hk) (find?_eq_none_iff.mp hfind)
    | some k' =>
        rw [ht.eq_of_name (mem_of_find? hfind) hk (name_of_find? hfind)]

/-- Bound names have identical keywords only if they are the same name. -/
theorem Sound.beq_iff_name_eq {t : KeywordTable} (ht : t.Sound) {p q : Name} {k k' : Keyword}
    (hk : t.find? p = some k) (hk' : t.find? q = some k') : k == k' ↔ p = q := by
  rw [Keyword.beq_iff_id_eq]
  constructor
  · intro h
    rw [← name_of_find? hk, ← name_of_find? hk', ht.eq_of_id (mem_of_find? hk) (mem_of_find? hk') h]
  · rintro rfl
    rw [hk] at hk'
    exact congrArg Keyword.id (Option.some.inj hk')

/-! ## Steps -/

theorem sound_empty (number memoLimit : Nat) : (empty number memoLimit).Sound where
  memo := Hash.Memo.sound_empty memoLimit
  ids := by simp [empty]
  nodup := by simp [empty]
  codes := by simp [empty]

theorem Sound.of_keywords_eq {t u : KeywordTable} (ht : t.Sound) (hn : u.number = t.number)
    (hk : u.keywords = t.keywords) (hm : u.memo.Sound) : u.Sound where
  memo := hm
  ids := by
    rw [hn, hk]
    exact ht.ids
  nodup := by
    rw [hk]
    exact ht.nodup
  codes := by
    rw [hk]
    exact ht.codes

theorem Sound.countHit {t : KeywordTable} (ht : t.Sound) : t.countHit.Sound :=
  ht.of_keywords_eq rfl rfl ht.memo

theorem Sound.record {t : KeywordTable} (ht : t.Sound) (e : Event) : (t.record e).Sound :=
  ht.of_keywords_eq rfl rfl ht.memo

theorem Sound.resetStats {t : KeywordTable} (ht : t.Sound) : t.resetStats.Sound :=
  ht.of_keywords_eq rfl rfl ht.memo

theorem hashName_eq (t : KeywordTable) (q : Name) :
    t.hashName q =
      (((Hash.qualifiedBy Hash.Memo.ask .keyword q).run t.memo).1,
        { (if q.ns.any t.memo.flushesOn then t.record (.memoFlushed t.memo.size) else t) with
          memo := ((Hash.qualifiedBy Hash.Memo.ask .keyword q).run t.memo).2 }) := rfl

/-- Hashing a name may change memo and journal, and nothing else. -/
theorem hashName_frame (t : KeywordTable) (q : Name) :
    (t.hashName q).2.number = t.number ∧ (t.hashName q).2.keywords = t.keywords ∧
      (t.hashName q).2.hits = t.hits ∧ (t.hashName q).2.misses = t.misses := by
  rw [hashName_eq]
  by_cases h : q.ns.any t.memo.flushesOn
  · simp [h, record]
  · simp [h]

theorem Sound.hashName_code {t : KeywordTable} (ht : t.Sound) (q : Name) :
    (t.hashName q).1 = Hash.qualified .keyword q := by
  rw [hashName_eq, ht.memo.qualifiedBy]

theorem Sound.hashName {t : KeywordTable} (ht : t.Sound) (q : Name) : (t.hashName q).2.Sound := by
  obtain ⟨hn, hk, -, -⟩ := hashName_frame t q
  refine ht.of_keywords_eq hn hk ?_
  simp only [hashName_eq, ht.memo.qualifiedBy]
  cases q.ns with
  | none => exact ht.memo
  | some s => exact ht.memo.ask s

theorem install_of_find? {t : KeywordTable} {q : Name} {k : Keyword} (h : t.find? q = some k)
    (code : Int32) : t.install q code = (k, t.countHit) := by
  simp [install, h]

/-- The keyword that a table makes next for a name. -/
def fresh (t : KeywordTable) (q : Name) (code : Int32) : Keyword :=
  { id := ⟨t.number, t.size⟩, name := q, code }

theorem install_of_not_find? {t : KeywordTable} {q : Name} (h : t.find? q = none) (code : Int32) :
    t.install q code =
      (t.fresh q code,
        { t with keywords := t.keywords ++ [t.fresh q code], misses := t.misses + 1 }) := by
  simp [install, h, fresh]

theorem Sound.install {t : KeywordTable} (ht : t.Sound) {q : Name} {code : Int32}
    (hcode : code = Hash.qualified .keyword q) : (t.install q code).2.Sound := by
  cases hfind : t.find? q with
  | some k =>
      rw [install_of_find? hfind]
      exact ht.countHit
  | none =>
      rw [install_of_not_find? hfind]
      refine ⟨ht.memo, ?_, ?_, ?_⟩
      · intro i k hk
        rw [List.getElem?_append] at hk
        split at hk
        · exact ht.ids i k hk
        · -- the new keyword is numbered by the size before, which is its place
          rename_i hi
          have hlast : i = t.size := by
            have hlt := (List.getElem?_eq_some_iff.mp hk).1
            simp only [List.length_singleton] at hlt
            simp only [size]
            omega
          subst hlast
          simp only [size, Nat.sub_self, List.getElem?_cons_zero, Option.some.injEq] at hk
          subst hk
          rfl
      · rw [List.map_append, List.nodup_append]
        refine ⟨ht.nodup, by simp, ?_⟩
        intro p hp p' hp' heq
        simp only [List.map_cons, List.map_nil, List.mem_singleton] at hp'
        exact find?_eq_none_iff.mp hfind (by rw [← show p = q from heq.trans hp']; exact hp)
      · intro k hk
        rcases List.mem_append.mp hk with hk | hk
        · exact ht.codes k hk
        · rw [List.mem_singleton.mp hk]
          exact hcode

theorem extends_install (t : KeywordTable) (q : Name) (code : Int32) :
    t.Extends (t.install q code).2 := by
  cases hfind : t.find? q with
  | some k =>
      rw [install_of_find? hfind]
      exact extends_of_keywords_eq rfl rfl
  | none =>
      rw [install_of_not_find? hfind]
      exact ⟨rfl, List.prefix_append _ _⟩

/-- What an installation answers is what the table binds from then on. -/
theorem find?_install (t : KeywordTable) (q : Name) (code : Int32) :
    (t.install q code).2.find? q = some (t.install q code).1 := by
  cases hfind : t.find? q with
  | some k =>
      rw [install_of_find? hfind]
      exact hfind
  | none =>
      rw [install_of_not_find? hfind]
      simp only [KeywordTable.find?] at hfind ⊢
      simp [List.find?_append, hfind, fresh]

theorem install_counts (t : KeywordTable) (q : Name) (code : Int32) :
    (t.install q code).2.hits + (t.install q code).2.misses = t.hits + t.misses + 1 ∧
      (t.install q code).2.misses + t.size = t.misses + (t.install q code).2.size := by
  cases hfind : t.find? q with
  | some k =>
      rw [install_of_find? hfind]
      refine ⟨?_, rfl⟩
      simp only [countHit]
      omega
  | none =>
      rw [install_of_not_find? hfind]
      simp only [size, List.length_append, List.length_singleton]
      omega

/-! ## Interning -/

theorem intern_of_find? {t : KeywordTable} {q : Name} {k : Keyword} (h : t.find? q = some k) :
    t.intern q = (k, t.countHit) := by
  simp [intern, lookUp, h]

/-- No other request comes between the steps of a whole one. -/
theorem intern_of_not_find? {t : KeywordTable} {q : Name} (h : t.find? q = none) :
    t.intern q = (t.hashName q).2.install q (t.hashName q).1 := by
  simp [intern, lookUp, h]

theorem find?_hashName (t : KeywordTable) (q p : Name) :
    (t.hashName q).2.find? p = t.find? p := by
  rw [KeywordTable.find?, (hashName_frame t q).2.1, KeywordTable.find?]

theorem Sound.intern {t : KeywordTable} (ht : t.Sound) (q : Name) : (t.intern q).2.Sound := by
  cases hfind : t.find? q with
  | some k =>
      rw [intern_of_find? hfind]
      exact ht.countHit
  | none =>
      rw [intern_of_not_find? hfind]
      exact (ht.hashName q).install (ht.hashName_code q)

theorem extends_intern (t : KeywordTable) (q : Name) : t.Extends (t.intern q).2 := by
  cases hfind : t.find? q with
  | some k =>
      rw [intern_of_find? hfind]
      exact extends_of_keywords_eq rfl rfl
  | none =>
      rw [intern_of_not_find? hfind]
      obtain ⟨hn, hk, -, -⟩ := hashName_frame t q
      exact (extends_of_keywords_eq hn hk).trans (extends_install _ q _)

/-- What a request answers is what the table binds from then on. -/
theorem find?_intern (t : KeywordTable) (q : Name) :
    (t.intern q).2.find? q = some (t.intern q).1 := by
  cases hfind : t.find? q with
  | some k =>
      rw [intern_of_find? hfind]
      exact hfind
  | none =>
      rw [intern_of_not_find? hfind]
      exact find?_install _ q _

theorem Sound.internAll {t : KeywordTable} (ht : t.Sound) (names : List Name) :
    (t.internAll names).2.Sound := by
  induction names generalizing t with
  | nil => exact ht
  | cons q rest ih => exact ih (ht.intern q)

theorem extends_internAll (t : KeywordTable) (names : List Name) :
    t.Extends (t.internAll names).2 := by
  induction names generalizing t with
  | nil => exact .refl t
  | cons q rest ih => exact (t.extends_intern q).trans (ih (t.intern q).2)

/-! ## Names and counters -/

/-- A request for a bound name is one hit more. -/
theorem intern_bound {t : KeywordTable} {q : Name} (h : q ∈ t.keywords.map (·.name)) :
    (t.intern q).2.keywords = t.keywords ∧ (t.intern q).2.hits = t.hits + 1 ∧
      (t.intern q).2.misses = t.misses := by
  obtain ⟨k, hk⟩ := Option.ne_none_iff_exists'.mp fun hnone => find?_eq_none_iff.mp hnone h
  rw [intern_of_find? hk]
  exact ⟨rfl, rfl, rfl⟩

/-- A new name comes last and is one miss more. -/
theorem intern_new {t : KeywordTable} {q : Name} (h : q ∉ t.keywords.map (·.name)) :
    (t.intern q).2.keywords.map (·.name) = t.keywords.map (·.name) ++ [q] ∧
      (t.intern q).2.hits = t.hits ∧ (t.intern q).2.misses = t.misses + 1 := by
  have hfind : t.find? q = none := find?_eq_none_iff.mpr h
  obtain ⟨-, hk, hhits, hmisses⟩ := hashName_frame t q
  rw [intern_of_not_find? hfind, install_of_not_find? (by rwa [find?_hashName])]
  refine ⟨?_, hhits, by rw [hmisses]⟩
  simp only [hk, List.map_append, List.map_cons, List.map_nil, fresh]

/-- A request is a hit or a miss, and a miss for each keyword that it adds. -/
theorem intern_counts (t : KeywordTable) (q : Name) :
    (t.intern q).2.hits + (t.intern q).2.misses = t.hits + t.misses + 1 ∧
      (t.intern q).2.misses + t.size = t.misses + (t.intern q).2.size := by
  cases hfind : t.find? q with
  | some k =>
      rw [intern_of_find? hfind]
      refine ⟨?_, rfl⟩
      simp only [countHit]
      omega
  | none =>
      obtain ⟨-, hk, hhits, hmisses⟩ := hashName_frame t q
      obtain ⟨htotal, hnew⟩ := install_counts (t.hashName q).2 q (t.hashName q).1
      rw [intern_of_not_find? hfind]
      simp only [size, hk, hhits, hmisses] at htotal hnew ⊢
      exact ⟨htotal, hnew⟩

theorem internAll_counts (t : KeywordTable) (names : List Name) :
    (t.internAll names).2.hits + (t.internAll names).2.misses =
        t.hits + t.misses + names.length ∧
      (t.internAll names).2.misses + t.size = t.misses + (t.internAll names).2.size := by
  induction names generalizing t with
  | nil => exact ⟨rfl, rfl⟩
  | cons q names ih =>
      obtain ⟨htotal, hnew⟩ := t.intern_counts q
      obtain ⟨hrest, hrestNew⟩ := ih (t.intern q).2
      simp only [internAll, List.length_cons]
      omega

/-- A request binds the name that it asks for, and no other. -/
theorem mem_names_intern (t : KeywordTable) (q p : Name) :
    p ∈ (t.intern q).2.keywords.map (·.name) ↔ p ∈ t.keywords.map (·.name) ∨ p = q := by
  by_cases hq : q ∈ t.keywords.map (·.name)
  · rw [(intern_bound hq).1]
    constructor
    · exact .inl
    · rintro (hp | rfl)
      · exact hp
      · exact hq
  · rw [(intern_new hq).1, List.mem_append, List.mem_singleton]

theorem mem_names_internAll (t : KeywordTable) (names : List Name) (p : Name) :
    p ∈ (t.internAll names).2.keywords.map (·.name) ↔
      p ∈ t.keywords.map (·.name) ∨ p ∈ names := by
  induction names generalizing t with
  | nil => simp [internAll]
  | cons q names ih =>
      rw [show (t.internAll (q :: names)).2 = ((t.intern q).2.internAll names).2 from rfl, ih,
        mem_names_intern, List.mem_cons, or_assoc]

/-- Requests for bound names are hits and nothing else. -/
theorem internAll_bound {t : KeywordTable} {names : List Name}
    (h : ∀ q ∈ names, q ∈ t.keywords.map (·.name)) :
    (t.internAll names).2.keywords = t.keywords ∧
      (t.internAll names).2.hits = t.hits + names.length ∧
      (t.internAll names).2.misses = t.misses := by
  induction names generalizing t with
  | nil => exact ⟨rfl, rfl, rfl⟩
  | cons q names ih =>
      obtain ⟨hq, hnames⟩ := List.forall_mem_cons.mp h
      obtain ⟨hk, hhits, hmisses⟩ := intern_bound hq
      obtain ⟨hk', hhits', hmisses'⟩ := ih (t := (t.intern q).2) (by rwa [hk])
      refine ⟨hk'.trans hk, ?_, hmisses'.trans hmisses⟩
      simp only [internAll, List.length_cons]
      omega

/-- Tables that were asked for the same names in the same order, whatever their memos. -/
structure Parallel (t u : KeywordTable) : Prop where
  names_eq : t.keywords.map (·.name) = u.keywords.map (·.name)
  hits_eq : t.hits = u.hits
  misses_eq : t.misses = u.misses

theorem Parallel.intern {t u : KeywordTable} (h : t.Parallel u) (q : Name) :
    (t.intern q).2.Parallel (u.intern q).2 := by
  obtain ⟨hnames, hhits, hmisses⟩ := h
  by_cases hq : q ∈ t.keywords.map (·.name)
  · obtain ⟨hk, hh, hm⟩ := intern_bound hq
    obtain ⟨hk', hh', hm'⟩ := intern_bound (hnames ▸ hq)
    exact ⟨by rw [hk, hk', hnames], by rw [hh, hh', hhits], by rw [hm, hm', hmisses]⟩
  · obtain ⟨hk, hh, hm⟩ := intern_new hq
    obtain ⟨hk', hh', hm'⟩ := intern_new (hnames ▸ hq)
    exact ⟨by rw [hk, hk', hnames], by rw [hh, hh', hhits], by rw [hm, hm', hmisses]⟩

theorem Parallel.internAll {t u : KeywordTable} (h : t.Parallel u) (names : List Name) :
    (t.internAll names).2.Parallel (u.internAll names).2 := by
  induction names generalizing t u with
  | nil => exact h
  | cons q rest ih => exact ih (h.intern q)

/-- Parallel tables bind the same names. -/
theorem Parallel.find? {t u : KeywordTable} (h : t.Parallel u) (q : Name) :
    Option.Rel (fun k k' => t.find? k.name = some k ∧ u.find? k.name = some k') (t.find? q)
      (u.find? q) := by
  have hnone : t.find? q = none ↔ u.find? q = none := by
    rw [find?_eq_none_iff, find?_eq_none_iff, h.names_eq]
  cases hk : t.find? q with
  | none =>
      rw [hnone.mp hk]
      exact .none
  | some k =>
      cases hk' : u.find? q with
      | none => exact absurd (hnone.mpr hk') (by simp [hk])
      | some k' =>
          obtain rfl := name_of_find? hk
          exact .some ⟨hk, hk'⟩

end Moniker.KeywordTable
