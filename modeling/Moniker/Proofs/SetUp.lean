import Mathlib.Algebra.Group.Nat.Defs
import Moniker.Proofs.Preferences
import Moniker.Proofs.Registry

/-! # Which layouts set up a registry

A layout passes its check when the number of its parts, if it tells one, is a power of two greater
than one, and its memo can hold something. Setting up a registry fails for nothing else, and so
never by the layout of preferences that were loaded. A layout that passes asks for a map, with a
number of parts that a map may have, and gives a registry unless there is no such map. -/

namespace Moniker

namespace Layout

/-- A number of parts, where there is one, is a power of two greater than one. -/
def Divisible (shards : Option UInt64) : Prop :=
  ∀ n ∈ shards, ∃ k, 1 ≤ k ∧ n.toNat = 2 ^ k

theorem usableShards_iff {n : UInt64} : usableShards n ↔ ∃ k, 1 ≤ k ∧ n.toNat = 2 ^ k := by
  have hbits : usableShards n ↔ 2 ≤ n.toNat ∧ n.toNat &&& (n.toNat - 1) = 0 := by
    by_cases hle : 2 ≤ n
    · have hone : (1 : UInt64) ≤ n := UInt64.le_trans (by decide) hle
      have hle' : 2 ≤ n.toNat := hle
      simp [usableShards, hle, hle', ← UInt64.toNat_inj, UInt64.toNat_sub_of_le n 1 hone]
    · have hlt : ¬2 ≤ n.toNat := hle
      simp [usableShards, hle, hlt]
  rw [hbits]
  constructor
  · intro h
    obtain ⟨hle, hand⟩ := h
    obtain ⟨k, hk⟩ := (Nat.and_sub_one_eq_zero_iff_isPowerOfTwo (by omega)).mp hand
    refine ⟨k, ?_, hk⟩
    -- one is a power of two as well, but too small
    cases k with
    | zero => omega
    | succ k => exact Nat.succ_le_succ (Nat.zero_le k)
  · intro h
    obtain ⟨k, hk, hn⟩ := h
    have hle : 2 ^ 1 ≤ 2 ^ k := Nat.pow_le_pow_right (by omega) hk
    refine ⟨by omega, ?_⟩
    exact (Nat.and_sub_one_eq_zero_iff_isPowerOfTwo (by omega)).mpr ⟨k, hn⟩

section

variable {l : Layout} {n : UInt64}

theorem validate_of_not_divisible (hshards : l.shards = some n) (h : ¬Divisible l.shards) :
    l.validate = .error (.badShards n) := by
  have hbad : usableShards n = false := by
    rw [Bool.eq_false_iff]
    intro hgood
    apply h
    intro n' hn'
    rw [hshards, Option.mem_some] at hn'
    rw [← hn']
    exact usableShards_iff.mp hgood
  have hsome : l.shards.filter (!usableShards ·) = some n := by
    rw [hshards, Option.filter_some, hbad, Bool.not_false, if_pos rfl]
  rw [validate, hsome]

theorem validate_of_divisible (h : Divisible l.shards) :
    l.validate = if l.memoLimit = 0 then .error .zeroMemoLimit else .ok () := by
  have hnone : l.shards.filter (!usableShards ·) = none := by
    rw [Option.filter_eq_none_iff]
    intro n hn
    simp [usableShards_iff.mpr (h n hn)]
  rw [validate, hnone]

/-- The parts are looked at before the memo. -/
theorem validate_cases (l : Layout) :
    (∃ n, l.shards = some n ∧ ¬Divisible l.shards ∧ l.validate = .error (.badShards n)) ∨
      Divisible l.shards ∧ l.memoLimit = 0 ∧ l.validate = .error .zeroMemoLimit ∨
      Divisible l.shards ∧ l.memoLimit ≠ 0 ∧ l.validate = .ok () := by
  by_cases h : Divisible l.shards
  · by_cases hlimit : l.memoLimit = 0
    · exact .inr (.inl ⟨h, hlimit, by rw [validate_of_divisible h, if_pos hlimit]⟩)
    · exact .inr (.inr ⟨h, hlimit, by rw [validate_of_divisible h, if_neg hlimit]⟩)
  · cases hshards : l.shards with
    | none =>
        rw [hshards] at h
        exact absurd (fun n hn => by cases hn) h
    | some n =>
        rw [← hshards]
        exact .inl ⟨n, hshards, h, validate_of_not_divisible hshards h⟩

theorem validate_eq_ok_iff : l.validate = .ok () ↔ Divisible l.shards ∧ l.memoLimit ≠ 0 := by
  obtain ⟨n, -, hbad, hcheck⟩ | ⟨-, hzero, hcheck⟩ | ⟨hgood, hlimit, hcheck⟩ := validate_cases l
  · simp [hcheck, hbad]
  · simp [hcheck, hzero]
  · simp [hcheck, hgood, hlimit]

end

end Layout

namespace Registry

/-! ## Maps that may be wanting -/

/-- There is a map for the layout, if its number of parts is one that a map may have. -/
def Affords (allocate : Allocator Option) (l : Layout) : Prop :=
  Layout.Divisible l.shards → allocate l.initialCapacity l.shards = some ()

section

variable (allocate : Allocator Option) (number : Nat) (l : Layout)

/-- The check comes before the map, and nothing that comes after it fails. -/
theorem ofLayoutBy_cases :
    (∃ n, l.shards = some n ∧ ¬Layout.Divisible l.shards ∧
        ofLayoutBy allocate number l = some (.error (.layout (.badShards n)))) ∨
      Layout.Divisible l.shards ∧ l.memoLimit = 0 ∧
        ofLayoutBy allocate number l = some (.error (.layout .zeroMemoLimit)) ∨
      Layout.Divisible l.shards ∧ l.memoLimit ≠ 0 ∧
        ofLayoutBy allocate number l =
          (allocate l.initialCapacity l.shards).map fun _ => .ok ⟨l, .setUp number l⟩ := by
  obtain ⟨n, hn, hbad, hcheck⟩ | ⟨hgood, hzero, hcheck⟩ | ⟨hgood, hlimit, hcheck⟩ :=
    l.validate_cases
  · exact .inl ⟨n, hn, hbad, ofLayoutBy_of_fault hcheck number⟩
  · exact .inr (.inl ⟨hgood, hzero, ofLayoutBy_of_fault hcheck number⟩)
  · exact .inr (.inr ⟨hgood, hlimit, ofLayoutBy_of_validate hcheck number⟩)

end

section

variable {allocate allocate' : Allocator Option} {number : Nat} {l : Layout}

/-- A map is asked for only with numbers of parts that are powers of two greater than one. -/
theorem ofLayoutBy_congr
    (h : ∀ room parts, Layout.Divisible parts → allocate room parts = allocate' room parts) :
    ofLayoutBy allocate number l = ofLayoutBy allocate' number l := by
  cases hcheck : l.validate with
  | error fault => rw [ofLayoutBy_of_fault hcheck, ofLayoutBy_of_fault hcheck]
  | ok _ =>
      have hgood := (Layout.validate_eq_ok_iff.mp hcheck).1
      rw [ofLayoutBy_of_validate hcheck, ofLayoutBy_of_validate hcheck, h _ _ hgood]

/-- Nothing but the check can fail. -/
theorem validate_of_ofLayoutBy_error {fault : Fault}
    (h : ofLayoutBy allocate number l = some (.error fault)) :
    ∃ fault', fault = .layout fault' ∧ l.validate = .error fault' := by
  cases hcheck : l.validate with
  | error fault' =>
      rw [ofLayoutBy_of_fault hcheck] at h
      exact ⟨fault', (Except.error.inj (Option.some.inj h)).symm, rfl⟩
  | ok _ =>
      rw [ofLayoutBy_of_validate hcheck] at h
      obtain ⟨_, -, hmade⟩ := Option.map_eq_some_iff.mp h
      cases hmade

/-- What comes of setting up does not depend on how the map was got. -/
theorem eq_ofLayout_of_ofLayoutBy {outcome : Except Fault Registry}
    (h : ofLayoutBy allocate number l = some outcome) : outcome = ofLayout number l := by
  cases hcheck : l.validate with
  | error fault =>
      rw [ofLayoutBy_of_fault hcheck] at h
      rw [ofLayout_of_fault hcheck]
      exact (Option.some.inj h).symm
  | ok _ =>
      rw [ofLayoutBy_of_validate hcheck] at h
      obtain ⟨_, -, hmade⟩ := Option.map_eq_some_iff.mp h
      rw [ofLayout_of_validate hcheck, hmade]

end

/-! ## Success, failure and breakdown -/

/-- How setting up a registry by a layout ends, the map being asked of an effect that may break
down. -/
structure SetUpSpec (allocate : Allocator Option) (number : Nat) (l : Layout) : Prop where
  succeeds_iff : Affords allocate l → ((∃ r, ofLayoutBy allocate number l = some (.ok r)) ↔
    Layout.Divisible l.shards ∧ 0 < l.memoLimit.toNat)
  badShards_iff : ∀ n, ofLayoutBy allocate number l = some (.error (.layout (.badShards n))) ↔
    l.shards = some n ∧ ¬Layout.Divisible l.shards
  zeroMemoLimit_iff : ofLayoutBy allocate number l = some (.error (.layout .zeroMemoLimit)) ↔
    Layout.Divisible l.shards ∧ l.memoLimit = 0
  fails_by_check : ∀ fault, ofLayoutBy allocate number l = some (.error fault) →
    ∃ fault', fault = .layout fault' ∧ l.validate = .error fault'
  breaks_iff : ofLayoutBy allocate number l = none ↔ Layout.Divisible l.shards ∧
    0 < l.memoLimit.toNat ∧ allocate l.initialCapacity l.shards = none
  /-- What an effect does with other numbers of parts makes no difference. -/
  asked : ∀ allocate' : Allocator Option,
    (∀ room parts, Layout.Divisible parts → allocate room parts = allocate' room parts) →
    ofLayoutBy allocate number l = ofLayoutBy allocate' number l
  preloaded : ∀ t : KeywordTable, ∃ count, t.preload.1 = .ok count
  finished : ∀ t, ∃ r, finish l t = .ok r
  alike : ∀ outcome, ofLayoutBy allocate number l = some outcome → outcome = ofLayout number l

theorem setUpSpec (allocate : Allocator Option) (number : Nat) (l : Layout) :
    SetUpSpec allocate number l := by
  have hlimit : 0 < l.memoLimit.toNat ↔ l.memoLimit ≠ 0 := by
    rw [Nat.pos_iff_ne_zero, ne_eq, ne_eq, ← UInt64.toNat_inj, UInt64.toNat_zero]
  have hends := ofLayoutBy_cases allocate number l
  constructor
  case asked =>
    intro allocate' h
    exact ofLayoutBy_congr h
  case alike =>
    intro outcome h
    exact eq_ofLayout_of_ofLayoutBy h
  case fails_by_check =>
    intro fault hfault
    exact validate_of_ofLayoutBy_error hfault
  case preloaded =>
    intro t
    rw [KeywordTable.preload_eq]
    exact ⟨_, rfl⟩
  case finished =>
    intro t
    exact ⟨_, finish_eq l t⟩
  case succeeds_iff =>
    intro hafford
    rw [hlimit]
    obtain ⟨n, -, hbad, hend⟩ | ⟨hgood, hzero, hend⟩ | ⟨hgood, hlimit, hend⟩ := hends
    · simp [hend, hbad]
    · simp [hend, hzero]
    · simp [hend, hgood, hlimit, hafford hgood]
  case badShards_iff =>
    intro n
    obtain ⟨n', hn', hbad, hend⟩ | ⟨hgood, hzero, hend⟩ | ⟨hgood, hlimit, hend⟩ := hends
    · rw [hn'] at hbad
      simp [hend, hn', hbad]
    · simp [hend, hgood]
    · simp [hend, hgood]
  case zeroMemoLimit_iff =>
    obtain ⟨n, -, hbad, hend⟩ | ⟨hgood, hzero, hend⟩ | ⟨hgood, hlimit, hend⟩ := hends
    · simp [hend, hbad]
    · simp [hend, hgood, hzero]
    · simp [hend, hlimit]
  case breaks_iff =>
    rw [hlimit]
    obtain ⟨n, -, hbad, hend⟩ | ⟨hgood, hzero, hend⟩ | ⟨hgood, hlimit, hend⟩ := hends
    · simp [hend, hbad]
    · simp [hend, hzero]
    · simp [hend, hgood, hlimit]

/-- Setting up a registry fails for a bad number of parts or an empty memo and for nothing else, and
never with the layout of preferences that were loaded. It succeeds in all other cases in which
there is a map. -/
theorem layouts_set_up_registries (allocate : Allocator Option) :
    (∀ number l, SetUpSpec allocate number l) ∧
      ∀ (h : Host Id) path p number, (Preferences.loadFrom h path).run = .ok p →
        (∀ fault, ofLayoutBy allocate number p.layout ≠ some (.error fault)) ∧
          (Affords allocate p.layout → ∃ r, ofLayoutBy allocate number p.layout = some (.ok r)) := by
  refine ⟨setUpSpec allocate, ?_⟩
  intro h path p number hload
  obtain ⟨-, -, -, hcheck⟩ := Preferences.loadFrom_eq_ok_iff.mp hload
  have hgood := Layout.validate_eq_ok_iff.mp hcheck
  constructor
  · intro fault hfault
    obtain ⟨fault', -, hbad⟩ := validate_of_ofLayoutBy_error hfault
    cases hcheck.symm.trans hbad
  · intro hafford
    rw [ofLayoutBy_of_validate hcheck, hafford hgood.1]
    exact ⟨_, rfl⟩

/-- Maps with little room and few parts: a layout that is given one, one that is wrong twice, and a
file with a layout of its own. -/
theorem layouts_set_up_registries_small :
    let allocate : Allocator Option := fun room parts =>
      if room.toNat ≤ 1024 ∧ parts.all fun n => Layout.usableShards n && n.toNat ≤ 64 then some ()
      else none
    let l : Layout := { initialCapacity := 16, shards := some 4 }
    let l' : Layout := { shards := some 6, memoLimit := 0 }
    let text := "runtime.shard_amount=2\nruntime.namespace_hash_cache_limit=1"
    let h : Host Id := ⟨fun _ => .ok text.toUTF8⟩
    let p : Preferences := ⟨false, .text, { shards := some 2, memoLimit := 1 }⟩
    Affords allocate l ∧ (∃ r, ofLayoutBy allocate 0 l = some (.ok r)) ∧
      allocate l'.initialCapacity l'.shards = none ∧
      ofLayoutBy allocate 0 l' = some (.error (.layout (.badShards 6))) ∧
      (Preferences.loadFrom h "ferrule.toml").run = .ok p ∧
      ∃ r, ofLayoutBy allocate 0 p.layout = some (.ok r) := by
  intro allocate l l' text h p
  obtain ⟨hspec, hloaded⟩ := layouts_set_up_registries allocate
  have hafford : Affords allocate l := by
    intro _
    decide +kernel
  have hgood : Layout.Divisible l.shards := by
    intro n hn
    rw [← Option.some.inj hn]
    exact ⟨2, by decide, by decide⟩
  have hbad : ¬Layout.Divisible l'.shards := by
    intro h
    have hgood := Layout.usableShards_iff.mpr (h _ rfl)
    revert hgood
    decide
  have hload : (Preferences.loadFrom h "ferrule.toml").run = .ok p := by
    rw [Preferences.loadFrom_eq_ok_iff]
    exact ⟨text, congrArg _ (Host.decode_toUTF8 text), by decide +kernel, rfl⟩
  have hafford' : Affords allocate p.layout := by
    intro _
    decide +kernel
  exact ⟨hafford, ((hspec 0 l).succeeds_iff hafford).mpr ⟨hgood, by decide⟩, by decide +kernel,
    ((hspec 0 l').badShards_iff _).mpr ⟨rfl, hbad⟩, hload, (hloaded h _ p 0 hload).2 hafford'⟩

end Registry

end Moniker
