import Moniker.Hash.Memo
import Moniker.Hash.Qualified

/-! # Histories of a namespace memo

A memo that starts out empty is asked for one namespace after another. Its contents and the
number of times it was emptied are told by the namespaces that it missed. -/

namespace Moniker.Hash.Memo

/-! ## One request -/

theorem find?_eq_none_iff {m : Memo} {s : String} :
    m.find? s = none ↔ s ∉ m.entries.map (·.1) := by
  rw [find?, List.lookup_eq_none_iff]
  simp only [List.mem_map, not_exists, not_and, bne_iff_ne]
  constructor
  · intro h e he hs
    exact h e he hs.symm
  · intro h e he hs
    exact h e he hs.symm

theorem ask_of_find? {m : Memo} {s : String} {code : Int32} (h : m.find? s = some code) :
    (ask s).run m = (code, m) := by
  simp [ask, StateT.run, h]

theorem ask_of_flushesOn {m : Memo} {s : String} (h : m.flushesOn s) :
    (ask s).run m = (polynomial s, { m with entries := [(s, polynomial s)] }) := by
  have hnew : m.find? s = none := by
    simp only [flushesOn, Bool.and_eq_true, Option.isNone_iff_eq_none] at h
    exact h.1
  simp [ask, StateT.run, hnew, h]

theorem ask_of_room {m : Memo} {s : String} (hnew : m.find? s = none)
    (hroom : m.size < m.limit) :
    (ask s).run m = (polynomial s, { m with entries := (s, polynomial s) :: m.entries }) := by
  have hkeep : m.flushesOn s = false := by
    simp [flushesOn, hroom]
  simp [ask, StateT.run, hnew, hkeep]

theorem suffix_ask {m : Memo} {s : String} (h : ¬m.flushesOn s) :
    m.entries <:+ ((ask s).run m).2.entries := by
  cases hfind : m.find? s with
  | some code =>
      exact ⟨[], by simp [ask_of_find? hfind]⟩
  | none =>
      have hroom : m.size < m.limit := by simpa [flushesOn, hfind] using h
      rw [ask_of_room hfind hroom]
      exact List.suffix_cons _ _

/-! ## Answers -/

/-- Every remembered code is the hash of its namespace. -/
def Sound (m : Memo) : Prop :=
  ∀ e ∈ m.entries, e.2 = polynomial e.1

theorem sound_empty (limit : Nat) : (empty limit).Sound := by
  simp [Sound, empty]

theorem Sound.eq_of_find? {m : Memo} (hm : m.Sound) {s : String} {code : Int32}
    (h : m.find? s = some code) : code = polynomial s := by
  rw [find?, List.lookup_eq_some_iff] at h
  obtain ⟨before, later, hentries, -⟩ := h
  exact hm (s, code) (by simp [hentries])

/-- A sound memo answers with the hash itself. -/
theorem Sound.answer {m : Memo} (hm : m.Sound) (s : String) :
    ((ask s).run m).1 = polynomial s := by
  cases h : m.find? s with
  | some code =>
      rw [ask_of_find? h]
      exact hm.eq_of_find? h
  | none => simp [ask, StateT.run, h]

theorem mem_entries_ask {m : Memo} {s : String} {e : String × Int32}
    (he : e ∈ ((ask s).run m).2.entries) : e = (s, polynomial s) ∨ e ∈ m.entries := by
  cases h : m.find? s with
  | some code =>
      rw [ask_of_find? h] at he
      exact .inr he
  | none =>
      simp only [ask, StateT.run, h, List.mem_cons] at he
      rcases he with he | he
      · exact .inl he
      · split at he
        · simp at he
        · exact .inr he

theorem Sound.ask {m : Memo} (hm : m.Sound) (s : String) : ((ask s).run m).2.Sound := by
  intro e he
  rcases mem_entries_ask he with rfl | he
  · rfl
  · exact hm e he

/-- A sound memo serves hash codes of names as well as the hash itself does. -/
theorem Sound.qualifiedBy {m : Memo} (hm : m.Sound) (k : Kind) (q : Name) :
    (qualifiedBy Memo.ask k q).run m =
      (qualified k q, q.ns.elim m fun s => ((Memo.ask s).run m).2) := by
  obtain ⟨ns, localName, hl, hns⟩ := q
  cases ns with
  | none => rfl
  | some s =>
      have h := hm.answer s
      simp only [Hash.qualifiedBy, qualified, ofNamespace, Option.elim_some, ← h]
      rfl

/-! ## Runs -/

def after (m : Memo) (texts : List String) : Memo :=
  ((askAll texts).run m).2

/-- The namespaces that the memo did not hold when they were asked for, in order. -/
def missedBy (m : Memo) : List String → List String
  | [] => []
  | s :: rest =>
    (if (m.find? s).isNone then [s] else []) ++ missedBy ((ask s).run m).2 rest

/-- How often the memo is emptied while namespaces are asked for. -/
def flushesBy (m : Memo) : List String → Nat
  | [] => 0
  | s :: rest => (if m.flushesOn s then 1 else 0) + flushesBy ((ask s).run m).2 rest

@[simp] theorem after_nil (m : Memo) : m.after [] = m := rfl

@[simp] theorem after_cons (m : Memo) (s : String) (rest : List String) :
    m.after (s :: rest) = ((ask s).run m).2.after rest := by
  simp only [after, askAll, List.mapM_cons]
  rfl

theorem Sound.answers {m : Memo} (hm : m.Sound) (texts : List String) :
    ((askAll texts).run m).1 = texts.map polynomial := by
  induction texts generalizing m with
  | nil => rfl
  | cons s rest ih =>
      have hrest := ih (hm.ask s)
      simp only [askAll, List.mapM_cons] at hrest ⊢
      change ((Memo.ask s).run m).1 :: _ = _
      rw [hm.answer s]
      exact congrArg (List.cons _) hrest

/-- What a memo of a given limit looks like after it has missed these namespaces, in order, and
was emptied so many times. -/
structure Tracks (m : Memo) (limit : Nat) (missed : List String) (flushes : Nat) : Prop where
  limit_eq : m.limit = max limit 1
  entries_eq : m.entries = (missed.reverse.take m.size).map fun s => (s, polynomial s)
  nodup : (m.entries.map (·.1)).Nodup
  length_missed : missed.length = flushes * m.limit + m.size
  size_le : m.size ≤ m.limit
  size_pos : missed ≠ [] → 0 < m.size

theorem tracks_empty (limit : Nat) : Tracks (empty limit) limit [] 0 where
  limit_eq := rfl
  entries_eq := rfl
  nodup := by simp [empty]
  length_missed := by simp [empty, size]
  size_le := by simp [empty, size]
  size_pos := by simp

theorem Tracks.sound {m : Memo} {limit flushes : Nat} {missed : List String}
    (h : Tracks m limit missed flushes) : m.Sound := by
  intro e he
  rw [h.entries_eq] at he
  obtain ⟨s, -, rfl⟩ := List.mem_map.mp he
  rfl

theorem Tracks.keys_eq {m : Memo} {limit flushes : Nat} {missed : List String}
    (h : Tracks m limit missed flushes) :
    m.entries.map (·.1) = missed.reverse.take m.size := by
  rw [h.entries_eq, List.map_map]
  simp [Function.comp_def]

/-- A memo is emptied only when it holds as many entries as it may. -/
theorem Tracks.flushesOn_iff {m : Memo} {limit flushes : Nat} {missed : List String}
    (h : Tracks m limit missed flushes) (s : String) :
    m.flushesOn s ↔ m.size = m.limit ∧ m.find? s = none := by
  have hsize := h.size_le
  simp only [flushesOn, Bool.and_eq_true, Option.isNone_iff_eq_none, decide_eq_true_eq]
  constructor
  · rintro ⟨hnew, hfull⟩
    exact ⟨by omega, hnew⟩
  · rintro ⟨hfull, hnew⟩
    exact ⟨hnew, by omega⟩

/-- One request keeps the account: a miss is the newest entry, alone if the memo was full. -/
theorem Tracks.ask {m : Memo} {limit flushes : Nat} {missed : List String}
    (h : Tracks m limit missed flushes) (s : String) :
    Tracks ((ask s).run m).2 limit (missed ++ if (m.find? s).isNone then [s] else [])
      (flushes + if m.flushesOn s then 1 else 0) := by
  have hlimit : 0 < m.limit := by
    rw [h.limit_eq]
    omega
  have hcount := h.length_missed
  cases hfind : m.find? s with
  | some code =>
      have hkeep : m.flushesOn s = false := by simp [flushesOn, hfind]
      simpa [ask_of_find? hfind, hkeep] using h
  | none =>
      by_cases hflush : m.flushesOn s
      · -- a full memo drops its `limit` entries, which the flush from now on accounts for
        have hfull := ((h.flushesOn_iff s).mp hflush).1
        rw [ask_of_flushesOn hflush]
        simp only [hflush, Option.isNone_none, if_true]
        refine ⟨h.limit_eq, by simp [size], by simp, ?_, by simp [size]; omega, by simp [size]⟩
        simp only [List.length_append, List.length_singleton, size, Nat.add_mul]
        omega
      · have hroom : m.size < m.limit := by
          have hle := h.size_le
          have hne : m.size ≠ m.limit := fun he => hflush ((h.flushesOn_iff s).mpr ⟨he, hfind⟩)
          omega
        rw [ask_of_room hfind hroom]
        simp only [hflush, Option.isNone_none, if_true, Bool.false_eq_true, if_false]
        refine ⟨h.limit_eq, ?_, ?_, ?_, ?_, by simp [size]⟩
        · have hold := h.entries_eq
          simp only [size] at hold ⊢
          simp [← hold]
        · simp only [List.map_cons, List.nodup_cons]
          exact ⟨find?_eq_none_iff.mp hfind, h.nodup⟩
        · simp only [List.length_append, List.length_cons, List.length_nil, Nat.add_zero, size]
            at hcount ⊢
          omega
        · simpa [size] using Nat.succ_le_of_lt hroom

theorem Tracks.after {m : Memo} {limit flushes : Nat} {missed : List String}
    (h : Tracks m limit missed flushes) (texts : List String) :
    Tracks (m.after texts) limit (missed ++ m.missedBy texts) (flushes + m.flushesBy texts) := by
  induction texts generalizing m missed flushes with
  | nil => simpa [missedBy, flushesBy] using h
  | cons s rest ih =>
      have hrest := ih (h.ask s)
      simpa [missedBy, flushesBy, List.append_assoc, Nat.add_assoc] using hrest

theorem missedBy_empty_ne_nil (limit : Nat) {texts : List String} (hne : texts ≠ []) :
    (empty limit).missedBy texts ≠ [] := by
  cases texts with
  | nil => exact absurd rfl hne
  | cons s rest => simp [missedBy, find?, empty]

/-! ## Fresh memos -/

/-- A memo `m` that was fresh, of a given limit, before `texts` were asked for, of which it
missed some and was emptied `flushes` times. The misses tell the number of flushes and the size,
and what is remembered are the namespaces missed last. -/
structure HistorySpec (limit : Nat) (texts : List String) (m : Memo) (missed : List String)
    (flushes : Nat) : Prop where
  answers : ((askAll texts).run (empty limit)).1 = texts.map polynomial
  sound : ∀ e ∈ m.entries, e.2 = polynomial e.1
  nodup : (m.entries.map (·.1)).Nodup
  limit_eq : m.limit = max limit 1
  size_le : m.size ≤ m.limit
  flushesOn_iff : ∀ s, m.flushesOn s ↔ m.size = m.limit ∧ m.find? s = none
  emptied : ∀ s, m.flushesOn s → ((ask s).run m).2.entries = [(s, polynomial s)]
  kept : ∀ s, ¬m.flushesOn s → m.entries <:+ ((ask s).run m).2.entries
  count : texts ≠ [] →
    missed.length = flushes * m.limit + m.size ∧ 1 ≤ m.size ∧ m.size ≤ m.limit
  keys_eq : m.entries.map (·.1) = missed.reverse.take m.size
  codes : ∀ k q, ((Hash.qualifiedBy Memo.ask k q).run m).1 = qualified k q

theorem fresh_memo_history (limit : Nat) (texts : List String) :
    HistorySpec limit texts ((empty limit).after texts) ((empty limit).missedBy texts)
      ((empty limit).flushesBy texts) := by
  have h := (tracks_empty limit).after texts
  simp only [List.nil_append, Nat.zero_add] at h
  refine ⟨(sound_empty limit).answers texts, h.sound, h.nodup, h.limit_eq, h.size_le,
    h.flushesOn_iff, ?_, fun s => suffix_ask, ?_, h.keys_eq, ?_⟩
  · intro s hflush
    rw [ask_of_flushesOn hflush]
  · intro hne
    exact ⟨h.length_missed, h.size_pos (missedBy_empty_ne_nil limit hne), h.size_le⟩
  · intro k q
    rw [h.sound.qualifiedBy k q]

/-- A memo of two namespaces that is asked for three is emptied once and keeps the last. -/
theorem fresh_memo_history_two :
    ["a", "b", "a", "c"] ≠ [] ∧
      ((empty 2).missedBy ["a", "b", "a", "c"]).length =
        (empty 2).flushesBy ["a", "b", "a", "c"] * 2 + 1 ∧
      ((empty 2).after ["a", "b", "a", "c"]).entries.map (·.1) = ["c"] := by
  have hne : ["a", "b", "a", "c"] ≠ [] := by decide
  have h := fresh_memo_history 2 ["a", "b", "a", "c"]
  have hmissed : (empty 2).missedBy ["a", "b", "a", "c"] = ["a", "b", "c"] := by decide
  have hsize : ((empty 2).after ["a", "b", "a", "c"]).size = 1 := by decide
  have hcount := (h.count hne).1
  have hkeys := h.keys_eq
  rw [h.limit_eq, hsize] at hcount
  rw [hmissed, hsize] at hkeys
  exact ⟨hne, hcount, hkeys⟩

end Moniker.Hash.Memo
