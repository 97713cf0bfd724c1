import Moniker.Proofs.Interleaving

/-! # Preloading

The core keywords can be installed in a table in any state. Those that are there already stay, and
doing it again only counts hits. -/

namespace Moniker

/-- The code written down beside a core keyword is the one computed from its name. -/
theorem Constant.computed_of_mem_coreOf :
    ∀ c ∈ coreOf .keyword, c.computed = .ok c.code := by
  decide +kernel

namespace KeywordTable

theorem length_coreNames : coreNames.length = Constant.core.countP (·.kind == .keyword) := by
  have hlength := congrArg List.length map_name_coreOf
  rw [List.length_map, List.length_map] at hlength
  rw [List.countP_eq_length_filter, ← hlength, Constant.coreOf]

theorem mem_coreNames_iff {q : Name} :
    q ∈ coreNames ↔ ∃ c ∈ Constant.core, c.kind = .keyword ∧ c.name = .ok q := by
  have hmem : q ∈ coreNames ↔ Except.ok q ∈ (Constant.coreOf .keyword).map Constant.name := by
    rw [map_name_coreOf, List.mem_map_of_injective fun _ _ => Except.ok.inj]
  rw [hmem]
  simp only [Constant.coreOf, List.mem_map, List.mem_filter, beq_iff_eq, and_assoc]

/-- Preloading is interning the core names, but for what is put on record. -/
theorem preload_frame (t : KeywordTable) :
    t.preload.2.keywords = (t.internAll coreNames).2.keywords ∧
      t.preload.2.hits = (t.internAll coreNames).2.hits ∧
      t.preload.2.misses = (t.internAll coreNames).2.misses := by
  rw [preload_eq]
  generalize (t.internAll coreNames).2 = later
  exact ⟨rfl, rfl, rfl⟩

/-! ## One preload -/

/-- What installing the core keywords makes of a table: it binds their names besides its own, gives
each the code that is written down, and counts a miss for every new one and a hit for the rest. -/
structure PreloadSpec (t later : KeywordTable) : Prop where
  names_iff : ∀ q, q ∈ later.keywords.map (·.name) ↔
    q ∈ t.keywords.map (·.name) ∨ ∃ c ∈ Constant.core, c.kind = .keyword ∧ c.name = .ok q
  kept : ∀ q k, t.find? q = some k → later.find? q = some k
  found : ∀ c ∈ Constant.core, c.kind = .keyword →
    ∃ q k, c.name = .ok q ∧ later.find? q = some k ∧ k.code = c.code
  grown : ∃ count, later.size = t.size + count ∧ later.misses = t.misses + count
  requests_eq : later.hits + later.misses =
    t.hits + t.misses + Constant.core.countP (·.kind == .keyword)

theorem Extends.names_subset {t later : KeywordTable} (h : t.Extends later) :
    t.keywords.map (·.name) ⊆ later.keywords.map (·.name) :=
  (h.keywords_le.map _).subset

theorem Sound.preloadSpec {t : KeywordTable} (ht : t.Sound) : t.PreloadSpec t.preload.2 := by
  obtain ⟨hkeywords, hhits, hmisses⟩ := t.preload_frame
  obtain ⟨hrequests, hnew⟩ := t.internAll_counts coreNames
  have hextends := t.extends_preload
  have hnames : ∀ q, q ∈ t.preload.2.keywords.map (·.name) ↔
      q ∈ t.keywords.map (·.name) ∨ q ∈ coreNames := by
    rw [hkeywords]
    exact t.mem_names_internAll coreNames
  refine ⟨?_, fun q k => hextends.find?, ?_, ?_, ?_⟩
  · intro q
    rw [hnames, mem_coreNames_iff]
  · intro c hc hkind
    have hmem : c ∈ Constant.coreOf .keyword := List.mem_filter.mpr ⟨hc, beq_iff_eq.mpr hkind⟩
    obtain ⟨q, hname⟩ : ∃ q, c.name = .ok q := by
      have hname := List.mem_map_of_mem (f := Constant.name) hmem
      rw [map_name_coreOf] at hname
      obtain ⟨q, -, hq⟩ := List.mem_map.mp hname
      exact ⟨q, hq.symm⟩
    have hq := (hnames q).mpr (.inr (mem_coreNames_iff.mpr ⟨c, hc, hkind, hname⟩))
    obtain ⟨k, hk⟩ := Option.ne_none_iff_exists'.mp fun hnone => find?_eq_none_iff.mp hnone hq
    refine ⟨q, k, hname, hk, ?_⟩
    -- the table has the code from its memo, and the constant has it written down
    have hcode := Constant.computed_of_mem_coreOf c hmem
    rw [Constant.computed, hname, hkind] at hcode
    rw [ht.preload.codes k (mem_of_find? hk), name_of_find? hk]
    exact Except.ok.inj hcode
  · have hle : t.size ≤ t.preload.2.size := hextends.keywords_le.length_le
    simp only [size, ← hkeywords, ← hmisses] at hnew hle ⊢
    exact ⟨t.preload.2.keywords.length - t.keywords.length, by omega, by omega⟩
  · rw [hhits, hmisses, hrequests, length_coreNames]

/-! ## One preload more -/

/-- A table that binds the core names takes another preload for hits. -/
theorem preload_bound {t : KeywordTable} (h : coreNames ⊆ t.keywords.map (·.name)) :
    t.preload.2.keywords = t.keywords ∧ t.preload.2.hits = t.hits + coreNames.length ∧
      t.preload.2.misses = t.misses := by
  obtain ⟨hkeywords, hhits, hmisses⟩ := t.preload_frame
  rw [hkeywords, hhits, hmisses]
  exact internAll_bound h

/-- Preloading never fails, and tells how many core keywords there are. Whatever the table held
before and whatever is interned in it afterwards, one more preload installs nothing. -/
theorem preloaded_table {t : KeywordTable} (ht : t.Reachable) :
    t.preload.1 = .ok (Constant.core.countP (·.kind == .keyword)) ∧ t.PreloadSpec t.preload.2 ∧
      ∀ (requests : List (List Name)) (turns : List Turn),
        let u := ((Pool.start t.preload.2 requests).run turns).table
        u.preload.1 = .ok (Constant.core.countP (·.kind == .keyword)) ∧
          u.preload.2.keywords = u.keywords ∧
          u.preload.2.hits = u.hits + Constant.core.countP (·.kind == .keyword) ∧
          u.preload.2.misses = u.misses := by
  have hspec := ht.sound.preloadSpec
  refine ⟨by rw [preload_eq, length_coreNames], hspec, ?_⟩
  intro requests turns u
  have hextends : t.preload.2.Extends u := (Pool.start t.preload.2 requests).extends_run turns
  have hbound : coreNames ⊆ u.keywords.map (·.name) := by
    intro q hq
    exact hextends.names_subset ((hspec.names_iff q).mpr (.inr (mem_coreNames_iff.mp hq)))
  rw [← length_coreNames]
  exact ⟨by rw [preload_eq], preload_bound hbound⟩

/-- A table of a memo that holds one namespace, in which a core keyword and a name of its own are
interned before, and a third name between two preloads. -/
theorem preloaded_table_partly :
    let ready : Name := ⟨none, "ready", "ready", by decide, by simp, rfl⟩
    let x : Name := ⟨some "a", "x", "a/x", by decide, by decide, by decide⟩
    let y : Name := ⟨some "b", "y", "b/y", by decide, by decide, by decide⟩
    let t := ((empty 0 1).internAll [ready, x]).2
    let u := ((Pool.start t.preload.2 [[y]]).run [.worker 0, .worker 0, .worker 0]).table
    t.Reachable ∧ t.PreloadSpec t.preload.2 ∧ t.preload.2.size = t.size + 39 ∧
      t.preload.2.hits + t.preload.2.misses = 42 ∧ u.size = 42 ∧
      u.preload.2.keywords = u.keywords ∧ u.preload.2.hits = u.hits + 40 := by
  intro ready x y t u
  have ht : t.Reachable := Reachable.internAll (.empty 0 1) [ready, x]
  obtain ⟨-, hspec, hagain⟩ := preloaded_table ht
  obtain ⟨-, hkeywords, hhits, -⟩ := hagain [[y]] [.worker 0, .worker 0, .worker 0]
  have htotal : Constant.core.countP (·.kind == .keyword) = 40 := by decide +kernel
  have hrequests := hspec.requests_eq
  rw [htotal] at hhits hrequests
  exact ⟨ht, hspec, by decide +kernel, hrequests, by decide +kernel, hkeywords, hhits⟩

end KeywordTable

end Moniker
