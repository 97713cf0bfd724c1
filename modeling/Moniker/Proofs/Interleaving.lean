import Moniker.Proofs.Registry

/-! # Interning from many threads

Workers share one table and ask it for keywords, each for its own names in turn. A turn is one
step of one worker: a look at the table, a hash through the memo or an installation. Turns come
in any order, and counting may start anew between any two of them. -/

namespace Moniker

/-- Where a worker stands in its current request. -/
inductive Phase where
  | idle
  | missed (q : Name)
  | hashed (q : Name) (code : Int32)

/-- A worker with the names it has yet to ask for, the state of its current request, and the
requests that were answered, each with its keyword. -/
structure Worker where
  waiting : List Name
  phase : Phase
  answers : List (Name × Keyword)

namespace Worker

def start (names : List Name) : Worker where
  waiting := names
  phase := .idle
  answers := []

def answered (w : Worker) (q : Name) (k : Keyword) : Worker :=
  { w with phase := .idle, answers := w.answers ++ [(q, k)] }

/-- One turn of a worker. A worker without requests does nothing. -/
def advance (w : Worker) (t : KeywordTable) : Worker × KeywordTable :=
  match w.phase, w.waiting with
  | .idle, [] => (w, t)
  | .idle, q :: rest =>
    match t.lookUp q with
    | some (k, t) => ({ w with waiting := rest }.answered q k, t)
    | none => ({ w with waiting := rest, phase := .missed q }, t)
  | .missed q, _ =>
    let (code, t) := t.hashName q
    ({ w with phase := .hashed q code }, t)
  | .hashed q code, _ =>
    let (k, t) := t.install q code
    (w.answered q k, t)

/-- The steps of interning as rules, which say all that a turn may do. -/
inductive Advances : Worker → KeywordTable → Worker → KeywordTable → Prop where
  | rest {answers t} : Advances ⟨[], .idle, answers⟩ t ⟨[], .idle, answers⟩ t
  | hit {q k names answers t} : t.find? q = some k →
      Advances ⟨q :: names, .idle, answers⟩ t (answered ⟨names, .idle, answers⟩ q k) t.countHit
  | miss {q names answers t} : t.find? q = none →
      Advances ⟨q :: names, .idle, answers⟩ t ⟨names, .missed q, answers⟩ t
  | hash {q names answers t} :
      Advances ⟨names, .missed q, answers⟩ t
        ⟨names, .hashed q (t.hashName q).1, answers⟩ (t.hashName q).2
  | install {q code names answers t} :
      Advances ⟨names, .hashed q code, answers⟩ t
        (answered ⟨names, .hashed q code, answers⟩ q (t.install q code).1) (t.install q code).2

theorem advance_advances (w : Worker) (t : KeywordTable) :
    Advances w t (w.advance t).1 (w.advance t).2 := by
  obtain ⟨names, phase, answers⟩ := w
  cases phase with
  | idle =>
      cases names with
      | nil => exact .rest
      | cons q names =>
          cases hfind : t.find? q with
          | some k =>
              simp only [advance, KeywordTable.lookUp, hfind, Option.map_some]
              exact .hit hfind
          | none =>
              simp only [advance, KeywordTable.lookUp, hfind, Option.map_none]
              exact .miss hfind
  | missed q => exact .hash
  | hashed q code => exact .install

/-- A worker whose hash is the name's own and whose answers are what the table binds. -/
structure Sound (t : KeywordTable) (w : Worker) : Prop where
  code_eq : ∀ q code, w.phase = .hashed q code → code = Hash.qualified .keyword q
  answers_eq : ∀ a ∈ w.answers, t.find? a.1 = some a.2

theorem sound_start (t : KeywordTable) (names : List Name) : (start names).Sound t where
  code_eq := by simp [start]
  answers_eq := by simp [start]

theorem Sound.mono {t later : KeywordTable} {w : Worker} (hw : w.Sound t)
    (h : t.Extends later) : w.Sound later where
  code_eq := hw.code_eq
  answers_eq a ha := h.find? (hw.answers_eq a ha)

theorem Sound.answered {t : KeywordTable} {w : Worker} (hw : w.Sound t) {q : Name} {k : Keyword}
    (hk : t.find? q = some k) : (w.answered q k).Sound t where
  code_eq := by simp [Worker.answered]
  answers_eq := by
    intro a ha
    rcases List.mem_append.mp ha with ha | ha
    · exact hw.answers_eq a ha
    · rw [List.mem_singleton.mp ha]
      exact hk

theorem Advances.extends {w w' : Worker} {t t' : KeywordTable} (h : Advances w t w' t') :
    t.Extends t' := by
  cases h with
  | rest => exact .refl t
  | hit _ => exact KeywordTable.extends_of_keywords_eq rfl rfl
  | miss _ => exact .refl t
  | @hash q =>
      obtain ⟨hn, hk, -, -⟩ := t.hashName_frame q
      exact KeywordTable.extends_of_keywords_eq hn hk
  | @install q code => exact t.extends_install q code

theorem Advances.sound_table {w w' : Worker} {t t' : KeywordTable} (h : Advances w t w' t')
    (ht : t.Sound) (hw : w.Sound t) : t'.Sound := by
  cases h with
  | rest => exact ht
  | hit _ => exact ht.countHit
  | miss _ => exact ht
  | @hash q => exact ht.hashName q
  | install => exact ht.install (hw.code_eq _ _ rfl)

theorem Advances.sound_worker {w w' : Worker} {t t' : KeywordTable} (h : Advances w t w' t')
    (ht : t.Sound) (hw : w.Sound t) : w'.Sound t' := by
  have hlater := hw.mono h.extends
  cases h with
  | rest => exact hw
  | @hit q k names answers _ hk =>
      have hrest : Sound t.countHit ⟨names, .idle, answers⟩ := ⟨by simp, hlater.answers_eq⟩
      exact hrest.answered hk
  | miss _ => exact ⟨by simp, hlater.answers_eq⟩
  | @hash q =>
      refine ⟨?_, hlater.answers_eq⟩
      rintro p code hp
      obtain ⟨rfl, rfl⟩ := Phase.hashed.inj hp
      exact ht.hashName_code q
  | @install q code =>
      -- the table may have got the name since the miss; what it binds now is the answer
      exact hlater.answered (t.find?_install q code)

/-- A turn counts each request it answers, and one miss for each binding it adds. -/
theorem Advances.counts {w w' : Worker} {t t' : KeywordTable} (h : Advances w t w' t') :
    t'.hits + t'.misses + w.answers.length = t.hits + t.misses + w'.answers.length ∧
      t'.misses + t.size = t.misses + t'.size := by
  cases h with
  | rest => exact ⟨rfl, rfl⟩
  | hit _ =>
      refine ⟨?_, rfl⟩
      simp only [answered, KeywordTable.countHit, List.length_append, List.length_singleton]
      omega
  | miss _ => exact ⟨rfl, rfl⟩
  | @hash q =>
      obtain ⟨-, hk, hh, hm⟩ := t.hashName_frame q
      simp [KeywordTable.size, hk, hh, hm]
  | @install q code =>
      obtain ⟨hrequests, hmisses⟩ := t.install_counts q code
      refine ⟨?_, hmisses⟩
      simp only [answered, List.length_append, List.length_singleton]
      omega

def asked (w : Worker) : List Name :=
  w.answers.map (·.1) ++
    (match w.phase with
      | .idle => []
      | .missed q => [q]
      | .hashed q _ => [q]) ++
    w.waiting

/-- How many turns a worker needs at most until all its requests are answered. -/
def turnsLeft (w : Worker) : Nat :=
  3 * w.waiting.length +
    match w.phase with
    | .idle => 0
    | .missed _ => 2
    | .hashed _ _ => 1

@[simp] theorem asked_start (names : List Name) : (start names).asked = names := rfl

theorem Advances.asked_eq {w w' : Worker} {t t' : KeywordTable} (h : Advances w t w' t') :
    w'.asked = w.asked := by
  cases h <;> simp [asked, answered]

theorem Advances.turnsLeft_lt {w w' : Worker} {t t' : KeywordTable} (h : Advances w t w' t')
    (hw : w.turnsLeft ≠ 0) : w'.turnsLeft < w.turnsLeft := by
  cases h with
  | rest => exact absurd rfl hw
  | hit _ =>
      simp only [turnsLeft, answered, List.length_cons]
      omega
  | miss _ =>
      simp only [turnsLeft, List.length_cons]
      omega
  | hash =>
      simp only [turnsLeft]
      omega
  | install =>
      simp only [turnsLeft, answered]
      omega

theorem answers_of_turnsLeft_eq_zero {w : Worker} (hw : w.turnsLeft = 0) :
    w.answers.map (·.1) = w.asked := by
  obtain ⟨names, phase, answers⟩ := w
  cases phase with
  | idle =>
      have hnames : names = [] := by
        simp only [turnsLeft] at hw
        exact List.length_eq_zero_iff.mp (by omega)
      simp [asked, hnames]
  | missed q => simp [turnsLeft] at hw
  | hashed q code => simp [turnsLeft] at hw

end Worker

/-! ## Pools -/

structure Pool where
  table : KeywordTable
  workers : List Worker

/-- What may happen next: a turn of one worker, or a new start of the counters. -/
inductive Turn where
  | worker (i : Nat)
  | resetStats
  deriving DecidableEq

namespace Pool

/-- One worker for each list of names, none of which has asked for anything. -/
def start (t : KeywordTable) (requests : List (List Name)) : Pool where
  table := t
  workers := requests.map .start

/-- The pool after a turn. A turn of a worker that is not there does nothing. -/
def turn (s : Pool) : Turn → Pool
  | .worker i =>
    match s.workers[i]? with
    | none => s
    | some w => { table := (w.advance s.table).2, workers := s.workers.set i (w.advance s.table).1 }
  | .resetStats => { s with table := s.table.resetStats }

def run (s : Pool) (turns : List Turn) : Pool :=
  turns.foldl turn s

def completed (s : Pool) : List (Name × Keyword) :=
  s.workers.flatMap (·.answers)

@[simp] theorem run_nil (s : Pool) : s.run [] = s := rfl

@[simp] theorem run_cons (s : Pool) (u : Turn) (turns : List Turn) :
    s.run (u :: turns) = (s.turn u).run turns := rfl

structure Sound (s : Pool) : Prop where
  table : s.table.Sound
  workers : ∀ w ∈ s.workers, w.Sound s.table

theorem sound_start {t : KeywordTable} (ht : t.Sound) (requests : List (List Name)) :
    (start t requests).Sound where
  table := ht
  workers := by
    intro w hw
    obtain ⟨names, -, rfl⟩ := List.mem_map.mp hw
    exact Worker.sound_start t names

theorem extends_turn (s : Pool) (u : Turn) : s.table.Extends (s.turn u).table := by
  cases u with
  | worker i =>
      cases hw : s.workers[i]? with
      | none => simpa [turn, hw] using .refl s.table
      | some w => simpa [turn, hw] using (w.advance_advances s.table).extends
  | resetStats => exact KeywordTable.extends_of_keywords_eq rfl rfl

theorem extends_run (s : Pool) (turns : List Turn) : s.table.Extends (s.run turns).table := by
  induction turns generalizing s with
  | nil => exact .refl s.table
  | cons u turns ih => exact (s.extends_turn u).trans (ih (s.turn u))

theorem Sound.turn {s : Pool} (hs : s.Sound) (u : Turn) : (s.turn u).Sound := by
  cases u with
  | worker i =>
      cases hw : s.workers[i]? with
      | none => simpa [Pool.turn, hw] using hs
      | some w =>
          have hadvance := w.advance_advances s.table
          have hsound := hs.workers w (List.mem_of_getElem? hw)
          simp only [Pool.turn, hw]
          refine ⟨hadvance.sound_table hs.table hsound, ?_⟩
          intro w' hw'
          rcases List.mem_or_eq_of_mem_set hw' with hw' | rfl
          · exact (hs.workers w' hw').mono hadvance.extends
          · exact hadvance.sound_worker hs.table hsound
  | resetStats =>
      refine ⟨hs.table.resetStats, ?_⟩
      intro w hw
      exact (hs.workers w hw).mono (KeywordTable.extends_of_keywords_eq rfl rfl)

theorem Sound.run {s : Pool} (hs : s.Sound) (turns : List Turn) : (s.run turns).Sound := by
  induction turns generalizing s with
  | nil => exact hs
  | cons u turns ih => exact ih (hs.turn u)

theorem Sound.find?_of_completed {s : Pool} (hs : s.Sound) {a : Name × Keyword}
    (ha : a ∈ s.completed) : s.table.find? a.1 = some a.2 := by
  obtain ⟨w, hw, ha⟩ := List.mem_flatMap.mp ha
  exact (hs.workers w hw).answers_eq a ha

/-! ## Counting -/

def total (f : Worker → Nat) : List Worker → Nat
  | [] => 0
  | w :: workers => f w + total f workers

/-- Replacing one worker changes a total by what that worker contributes. -/
theorem total_set (f : Worker → Nat) {workers : List Worker} {i : Nat} {w : Worker}
    (hw : workers[i]? = some w) (w' : Worker) :
    total f (workers.set i w') + f w = total f workers + f w' := by
  induction workers generalizing i with
  | nil => simp at hw
  | cons v workers ih =>
      cases i with
      | zero =>
          obtain rfl : v = w := by simpa using hw
          simp only [List.set_cons_zero, total]
          omega
      | succ i =>
          have hrest := ih (by simpa using hw)
          simp only [List.set_cons_succ, total]
          omega

theorem length_completed (s : Pool) :
    s.completed.length = total (fun w => w.answers.length) s.workers := by
  obtain ⟨t, workers⟩ := s
  induction workers with
  | nil => rfl
  | cons w workers ih =>
      simp only [completed] at ih ⊢
      simp only [List.flatMap_cons, List.length_append, total, ih]

/-- The counters of a pool, measured from a table: requests since then are hits or misses, and
bindings made since then are misses. -/
structure Counted (t : KeywordTable) (s : Pool) : Prop where
  total : s.table.hits + s.table.misses = t.hits + t.misses + s.completed.length
  misses : s.table.misses + t.size = t.misses + s.table.size

theorem counted_start (t : KeywordTable) (requests : List (List Name)) :
    (start t requests).Counted t where
  total := by
    have hnone : (start t requests).completed = [] := by
      simp [completed, start, Worker.start]
    rw [hnone]
    rfl
  misses := rfl

theorem Counted.turn {t : KeywordTable} {s : Pool} (hs : s.Counted t) {u : Turn}
    (hu : u ≠ .resetStats) : (s.turn u).Counted t := by
  obtain ⟨htotal, hmisses⟩ := hs
  cases u with
  | worker i =>
      cases hw : s.workers[i]? with
      | none => simpa [Pool.turn, hw] using Counted.mk htotal hmisses
      | some w =>
          obtain ⟨hcount, hbound⟩ := (w.advance_advances s.table).counts
          have hsum := total_set (fun w => w.answers.length) hw (w.advance s.table).1
          simp only [length_completed] at htotal
          simp only [Pool.turn, hw]
          refine ⟨?_, ?_⟩
          · simp only [length_completed]
            omega
          · simp only
            omega
  | resetStats => exact absurd rfl hu

theorem Counted.run {t : KeywordTable} {s : Pool} (hs : s.Counted t) {turns : List Turn}
    (hturns : .resetStats ∉ turns) : (s.run turns).Counted t := by
  induction turns generalizing s with
  | nil => exact hs
  | cons u turns ih =>
      simp only [List.mem_cons, not_or] at hturns
      exact ih (hs.turn fun hu => hturns.1 hu.symm) hturns.2

/-! ## Requests -/

theorem asked_turn (s : Pool) (u : Turn) :
    (s.turn u).workers.map (·.asked) = s.workers.map (·.asked) := by
  cases u with
  | worker i =>
      cases hw : s.workers[i]? with
      | none => simp [turn, hw]
      | some w =>
          have hasked := (w.advance_advances s.table).asked_eq
          simp only [turn, hw]
          apply List.ext_getElem?
          intro j
          by_cases hj : i = j
          · subst hj
            obtain ⟨hi, hget⟩ := List.getElem?_eq_some_iff.mp hw
            simp [hi, hget, hasked]
          · simp [List.getElem?_set_ne hj]
  | resetStats => rfl

theorem asked_run (s : Pool) (turns : List Turn) :
    (s.run turns).workers.map (·.asked) = s.workers.map (·.asked) := by
  induction turns generalizing s with
  | nil => rfl
  | cons u turns ih => exact (ih (s.turn u)).trans (s.asked_turn u)

theorem exists_run_turnsLeft_eq_zero (s : Pool) :
    ∃ later, ∀ w ∈ (s.run later).workers, w.turnsLeft = 0 := by
  -- the turns left in the whole pool shrink with every turn of an unfinished worker
  generalize hleft : total (·.turnsLeft) s.workers = left
  induction left using Nat.strongRecOn generalizing s with
  | ind left ih =>
      by_cases hdone : ∀ w ∈ s.workers, w.turnsLeft = 0
      · exact ⟨[], hdone⟩
      · simp only [not_forall] at hdone
        obtain ⟨w, hmem, hw⟩ := hdone
        obtain ⟨i, hi⟩ := List.mem_iff_getElem?.mp hmem
        have hlt := (w.advance_advances s.table).turnsLeft_lt hw
        have hsum := total_set (·.turnsLeft) hi (w.advance s.table).1
        have hturn : (s.turn (.worker i)).workers = s.workers.set i (w.advance s.table).1 := by
          simp [turn, hi]
        obtain ⟨later, hlater⟩ := ih (total (·.turnsLeft) (s.turn (.worker i)).workers)
          (by rw [hturn]; omega) (s.turn (.worker i)) rfl
        exact ⟨.worker i :: later, hlater⟩

theorem exists_run_answered (s : Pool) :
    ∃ later, (s.run later).workers.map (fun w => w.answers.map (·.1)) =
      s.workers.map (·.asked) := by
  obtain ⟨later, hlater⟩ := s.exists_run_turnsLeft_eq_zero
  refine ⟨later, ?_⟩
  rw [← asked_run s later]
  apply List.map_congr_left
  intro w hw
  exact Worker.answers_of_turnsLeft_eq_zero (hlater w hw)

end Pool

/-- The names that the later table binds and the earlier one does not. -/
def KeywordTable.boundSince (t later : KeywordTable) : List Name :=
  (later.keywords.map (·.name)).filter fun q => !t.contains q

/-- In sound tables, every keyword that came later is one for a new name. -/
theorem KeywordTable.Sound.length_boundSince {t later : KeywordTable} (hlater : later.Sound)
    (h : t.Extends later) : later.size = t.size + (t.boundSince later).length := by
  obtain ⟨added, hadded⟩ := h.keywords_le
  have hnodup := hlater.nodup
  rw [← hadded, List.map_append, List.nodup_append] at hnodup
  have hold : (t.keywords.map (·.name)).filter (fun q => !t.contains q) = [] := by
    apply List.filter_eq_nil_iff.mpr
    intro q hq
    have hbound : t.find? q ≠ none := fun hnone => find?_eq_none_iff.mp hnone hq
    simpa [contains, Option.isSome_iff_ne_none] using hbound
  have hnew : (added.map (·.name)).filter (fun q => !t.contains q) = added.map (·.name) := by
    apply List.filter_eq_self.mpr
    intro q hq
    have hfree : t.find? q = none :=
      find?_eq_none_iff.mpr fun hold => hnodup.2.2 q hold q hq rfl
    simp [contains, hfree]
  rw [boundSince, ← hadded, List.map_append, List.filter_append, hold, hnew]
  simp [size, ← hadded]

/-! ## Reachable tables -/

namespace Pool

theorem run_lone_worker (t : KeywordTable) (q : Name) :
    let s := (start t [[q]]).run [.worker 0, .worker 0, .worker 0]
    s.table = (t.intern q).2 ∧ s.completed = [(q, (t.intern q).1)] := by
  cases hfind : t.find? q with
  | some k =>
      simp [start, Worker.start, turn, Worker.advance, Worker.answered, KeywordTable.intern,
        KeywordTable.lookUp, completed, hfind]
  | none =>
      simp [start, Worker.start, turn, Worker.advance, Worker.answered, KeywordTable.intern,
        KeywordTable.lookUp, completed, hfind]

end Pool

namespace KeywordTable

/-- The tables that can come to be: an empty one, and what runs of workers on a table make of
it, whatever is put on record in between. -/
inductive Reachable : KeywordTable → Prop where
  | empty (number memoLimit : Nat) : Reachable (.empty number memoLimit)
  | record {t : KeywordTable} (e : Event) : Reachable t → Reachable (t.record e)
  | run {t : KeywordTable} (requests : List (List Name)) (turns : List Turn) :
      Reachable t → Reachable ((Pool.start t requests).run turns).table

theorem Reachable.sound {t : KeywordTable} (ht : t.Reachable) : t.Sound := by
  induction ht with
  | empty number memoLimit => exact sound_empty number memoLimit
  | record e _ ih => exact ih.record e
  | run requests turns _ ih => exact ((Pool.sound_start ih requests).run turns).table

theorem Reachable.resetStats {t : KeywordTable} (ht : t.Reachable) : t.resetStats.Reachable :=
  ht.run [] [.resetStats]

theorem Reachable.intern {t : KeywordTable} (ht : t.Reachable) (q : Name) :
    (t.intern q).2.Reachable := by
  rw [← (Pool.run_lone_worker t q).1]
  exact ht.run [[q]] _

theorem Reachable.internAll {t : KeywordTable} (ht : t.Reachable) (names : List Name) :
    (t.internAll names).2.Reachable := by
  induction names generalizing t with
  | nil => exact ht
  | cons q rest ih => exact ih (ht.intern q)

theorem Reachable.preload {t : KeywordTable} (ht : t.Reachable) : t.preload.2.Reachable := by
  rw [preload_eq]
  exact (ht.internAll coreNames).record _

end KeywordTable

/-! ## Every interleaving -/

namespace Pool

/-- What holds of a pool `s` after some turns that began with the table `t`. -/
structure InterningSpec (t : KeywordTable) (requests : List (List Name)) (turns : List Turn)
    (s : Pool) : Prop where
  asked : s.workers.map (·.asked) = requests
  answerable : ∃ later, (s.run later).workers.map (fun w => w.answers.map (·.1)) = requests
  names_nodup : (s.table.keywords.map (·.name)).Nodup
  one_keyword : ∀ k ∈ s.table.keywords, ∀ k' ∈ s.table.keywords, k.name = k'.name → k = k'
  binding : ∀ q k, s.table.find? q = some k → k.name = q ∧ k.code = Hash.qualified .keyword q
  kept_from_start : ∀ q k, t.find? q = some k → s.table.find? q = some k
  kept : ∀ later q k, s.table.find? q = some k → (s.run later).table.find? q = some k
  answer : ∀ a ∈ s.completed, s.table.find? a.1 = some a.2
  identical_iff : ∀ a ∈ s.completed, ∀ b ∈ s.completed, a.2 == b.2 ↔ a.1 = b.1
  counts : .resetStats ∉ turns →
    s.table.hits + s.table.misses = t.hits + t.misses + s.completed.length ∧
      s.table.misses = t.misses + (t.boundSince s.table).length

/-- Whatever workers ask of a table and however their steps alternate, in every state of the run
a name has at most one keyword, with that name and its hash code, and keeps it; answers are
identical exactly when their names are equal; and the counters tell answers and new names. -/
theorem interleaved_interning {t : KeywordTable} (ht : t.Reachable)
    (requests : List (List Name)) (turns : List Turn) :
    InterningSpec t requests turns ((start t requests).run turns) := by
  have hs := (sound_start ht.sound requests).run turns
  have hextends : t.Extends ((start t requests).run turns).table :=
    (start t requests).extends_run turns
  have hasked : ((start t requests).run turns).workers.map (·.asked) = requests := by
    rw [asked_run]
    simp [start, Function.comp_def]
  refine ⟨hasked, ?_, hs.table.nodup, ?_, ?_, ?_, ?_, fun a => hs.find?_of_completed, ?_, ?_⟩
  · obtain ⟨later, hlater⟩ := ((start t requests).run turns).exists_run_answered
    exact ⟨later, hlater.trans hasked⟩
  · intro k hk k' hk'
    exact hs.table.eq_of_name hk hk'
  · intro q k hk
    have hname := KeywordTable.name_of_find? hk
    refine ⟨hname, ?_⟩
    rw [hs.table.codes k (KeywordTable.mem_of_find? hk), hname]
  · intro q k
    exact hextends.find?
  · intro later q k
    exact (extends_run _ later).find?
  · intro a ha b hb
    exact hs.table.beq_iff_name_eq (hs.find?_of_completed ha) (hs.find?_of_completed hb)
  · intro hturns
    obtain ⟨htotal, hmisses⟩ := (counted_start t requests).run hturns
    have hsize := hs.table.length_boundSince hextends
    exact ⟨htotal, by omega⟩

/-- Two workers miss one name before either installs it: one makes the keyword, the other gets
the same one as a hit. -/
theorem interleaved_interning_race :
    let q : Name := ⟨some "race", "k0", "race/k0", by decide, by decide, by decide⟩
    let turns : List Turn := [.worker 0, .worker 1, .worker 0, .worker 1, .worker 1, .worker 0]
    let s := (start (.empty 0 1) [[q], [q]]).run turns
    (KeywordTable.empty 0 1).Reachable ∧ .resetStats ∉ turns ∧ s.completed.length = 2 ∧
      s.table.hits + s.table.misses = 2 ∧ s.table.misses = 1 ∧
      ∀ a ∈ s.completed, ∀ b ∈ s.completed, a.2 == b.2 := by
  intro q turns s
  have ht : (KeywordTable.empty 0 1).Reachable := .empty 0 1
  have hturns : Turn.resetStats ∉ turns := by decide
  have h : InterningSpec (.empty 0 1) [[q], [q]] turns s := interleaved_interning ht _ turns
  have hcompleted : s.completed.length = 2 := by decide
  have hnames : ∀ a ∈ s.completed, a.1 = q := by decide
  have hbound : ((KeywordTable.empty 0 1).boundSince s.table).length = 1 := by decide
  obtain ⟨htotal, hmisses⟩ := h.counts hturns
  rw [hcompleted] at htotal
  rw [hbound] at hmisses
  refine ⟨ht, hturns, hcompleted, htotal, hmisses, ?_⟩
  intro a ha b hb
  exact (h.identical_iff a ha b hb).mpr ((hnames a ha).trans (hnames b hb).symm)

end Pool

end Moniker
