import Moniker.Proofs.Requests

/-! # Registries side by side

Several registries are asked in any order, and the keywords they make are allocated one after
another in one memory. No registry can tell that there are others: it answers as if it were
alone, but for the addresses of its keywords. -/

namespace Moniker

/-- What is seen of a keyword: where it lies, its name and its hash code. -/
structure Sight where
  address : Nat
  name : Name
  code : Int32

/-- The sight of a keyword in a memory, which holds instances in the order of their making. -/
def Keyword.seenIn (heap : List KeywordId) (k : Keyword) : Sight :=
  ⟨heap.idxOf k.id, k.name, k.code⟩

/-- The same keyword at another address. -/
def Sight.moved (move : Nat → Nat) (a : Sight) : Sight :=
  { a with address := move a.address }

/-! ## Fleets -/

/-- Registries that share one memory, with all that they have reported, each report with the place
of the registry it comes from. -/
structure Fleet where
  registries : List Registry
  heap : List KeywordId
  reports : List (Nat × Registry.Report Sight)

namespace Fleet

/-- Requests, each with the place of the registry that it goes to. -/
abbrev Schedule :=
  List (Nat × Registry.Request)

def instancesOf (registries : List Registry) : List KeywordId :=
  registries.flatMap fun r => r.table.keywords.map (·.id)

def start (registries : List Registry) : Fleet where
  registries
  heap := instancesOf registries
  reports := []

/-- A request to one of the registries. The keywords it makes come next in memory, and what it
reports is seen there. A registry that is not there cannot be asked. -/
def ask (f : Fleet) (i : Nat) (request : Registry.Request) : Fleet :=
  match f.registries[i]? with
  | none => f
  | some r =>
    let (answer, r') := r.serve request
    let heap := f.heap ++ (r'.table.keywords.drop r.table.size).map (·.id)
    { registries := f.registries.set i r'
      heap
      reports := f.reports ++ [(i, (r'.report answer).map (·.seenIn heap))] }

def run (f : Fleet) (requests : Schedule) : Fleet :=
  requests.foldl (fun f asked => f.ask asked.1 asked.2) f

/-- The run in which only the requests to one registry are made. -/
def runAlone (f : Fleet) (i : Nat) (requests : Schedule) : Fleet :=
  f.run (requests.filter (·.1 == i))

def reportsOf (f : Fleet) (i : Nat) : List (Registry.Report Sight) :=
  (f.reports.filter (·.1 == i)).map (·.2)

/-- All that was seen of the keywords of one registry. -/
def seenBy (f : Fleet) (i : Nat) : List Sight :=
  (f.reportsOf i).flatMap (·.keywords)

theorem ask_of_none {f : Fleet} {i : Nat} (h : f.registries[i]? = none)
    (request : Registry.Request) : f.ask i request = f := by
  simp [ask, h]

theorem ask_of_some {f : Fleet} {i : Nat} {r : Registry} (h : f.registries[i]? = some r)
    (request : Registry.Request) :
    ∃ made, (r.serve request).2.table.keywords = r.table.keywords ++ made ∧
      f.ask i request =
        { registries := f.registries.set i (r.serve request).2
          heap := f.heap ++ made.map (·.id)
          reports := f.reports ++
            [(i, ((r.serve request).2.report (r.serve request).1).map
              (·.seenIn (f.heap ++ made.map (·.id))))] } := by
  obtain ⟨made, hmade⟩ := (r.serve_serves request).extends.keywords_le
  refine ⟨made, hmade.symm, ?_⟩
  have hdrop : (r.serve request).2.table.keywords.drop r.table.size = made := by
    rw [← hmade]
    exact List.drop_left
  simp only [ask, h, hdrop]

theorem registries_ask_self {f : Fleet} {i : Nat} {r : Registry} (h : f.registries[i]? = some r)
    (request : Registry.Request) :
    (f.ask i request).registries[i]? = some (r.serve request).2 := by
  obtain ⟨made, -, hask⟩ := ask_of_some h request
  rw [hask]
  exact List.getElem?_set_self (List.getElem?_eq_some_iff.mp h).1

theorem registries_ask_other (f : Fleet) {i j : Nat} (hj : j ≠ i) (request : Registry.Request) :
    (f.ask j request).registries[i]? = f.registries[i]? := by
  cases h : f.registries[j]? with
  | none => rw [ask_of_none h]
  | some r =>
      obtain ⟨made, -, hask⟩ := ask_of_some h request
      rw [hask]
      exact List.getElem?_set_ne hj

theorem length_registries_ask (f : Fleet) (i : Nat) (request : Registry.Request) :
    (f.ask i request).registries.length = f.registries.length := by
  cases h : f.registries[i]? with
  | none => rw [ask_of_none h]
  | some r =>
      obtain ⟨made, -, hask⟩ := ask_of_some h request
      rw [hask]
      exact List.length_set

/-! ## One memory -/

/-- What fleets keep to: sound tables of their own, and a memory in which each of their keywords
lies once. -/
structure Sound (f : Fleet) : Prop where
  tables : ∀ r ∈ f.registries, r.table.Sound
  numbers : (f.registries.map (·.table.number)).Nodup
  heap : f.heap.Perm (instancesOf f.registries)

theorem Sound.ask {f : Fleet} (hf : f.Sound) (i : Nat) (request : Registry.Request) :
    (f.ask i request).Sound := by
  cases h : f.registries[i]? with
  | none =>
      rw [ask_of_none h]
      exact hf
  | some r =>
      obtain ⟨made, hmade, hask⟩ := ask_of_some h request
      obtain ⟨before, after, hsplit, hset⟩ := exists_split_of_getElem? h (r.serve request).2
      have hserves := r.serve_serves request
      rw [hask]
      refine ⟨?_, ?_, ?_⟩
      · intro r' hr'
        rcases List.mem_or_eq_of_mem_set hr' with hr' | rfl
        · exact hf.tables r' hr'
        · exact hserves.sound (hf.tables r (List.mem_of_getElem? h))
      · have hnumbers := hf.numbers
        rw [hsplit] at hnumbers
        simpa [hset, hserves.extends.number_eq] using hnumbers
      · -- what was made comes after the other keywords of its registry, and last in memory
        have hheap := hf.heap
        rw [hsplit] at hheap
        simp only [hset, instancesOf, List.flatMap_append, List.flatMap_cons, hmade,
          List.map_append, List.append_assoc] at hheap ⊢
        refine (hheap.append_right _).trans ?_
        simp only [List.append_assoc]
        exact ((List.perm_append_comm).append_left _).append_left _

theorem sound_start {registries : List Registry} (hr : ∀ r ∈ registries, r.Reachable)
    (hnumbers : (registries.map (·.table.number)).Nodup) : (start registries).Sound where
  tables r hmem := (hr r hmem).table.sound
  numbers := hnumbers
  heap := .refl _

theorem Sound.run {f : Fleet} (hf : f.Sound) (requests : Schedule) :
    (f.run requests).Sound := by
  induction requests generalizing f with
  | nil => exact hf
  | cons asked requests ih => exact ih (hf.ask asked.1 asked.2)

/-- The registry at a place holds a keyword. -/
def Holds (f : Fleet) (i : Nat) (k : Keyword) : Prop :=
  ∃ r, f.registries[i]? = some r ∧ k ∈ r.table.keywords

/-- No instance is allocated twice. -/
theorem Sound.nodup_heap {f : Fleet} (hf : f.Sound) : f.heap.Nodup := by
  rw [hf.heap.nodup_iff, instancesOf, List.nodup_flatMap]
  refine ⟨fun r hr => (hf.tables r hr).nodup_ids, ?_⟩
  refine List.Pairwise.imp_of_mem ?_ (List.pairwise_map.mp hf.numbers)
  intro r r' hr hr' hne id hid hid'
  obtain ⟨k, hk, rfl⟩ := List.mem_map.mp hid
  obtain ⟨k', hk', heq⟩ := List.mem_map.mp hid'
  apply hne
  rw [← (hf.tables r hr).table_of_mem hk, ← (hf.tables r' hr').table_of_mem hk', heq]

section

variable {f : Fleet} {i j : Nat} {k k' : Keyword}

theorem Sound.mem_heap (hf : f.Sound) (h : f.Holds i k) : k.id ∈ f.heap := by
  obtain ⟨r, hr, hk⟩ := h
  rw [hf.heap.mem_iff]
  exact List.mem_flatMap.mpr ⟨r, List.mem_of_getElem? hr, List.mem_map_of_mem hk⟩

theorem Sound.code_eq (hf : f.Sound) (h : f.Holds i k) :
    k.code = Hash.qualified .keyword k.name := by
  obtain ⟨r, hr, hk⟩ := h
  exact (hf.tables r (List.mem_of_getElem? hr)).codes k hk

/-- Keywords are equal when one registry made both for one name. -/
theorem Sound.beq_iff (hf : f.Sound) (h : f.Holds i k) (h' : f.Holds j k') :
    k == k' ↔ i = j ∧ k.name = k'.name := by
  obtain ⟨r, hr, hk⟩ := h
  obtain ⟨r', hr', hk'⟩ := h'
  have ht := hf.tables r (List.mem_of_getElem? hr)
  have ht' := hf.tables r' (List.mem_of_getElem? hr')
  rw [Keyword.beq_iff_id_eq]
  constructor
  · intro hid
    have hnumber : r.table.number = r'.table.number := by
      rw [← ht.table_of_mem hk, ← ht'.table_of_mem hk', hid]
    have hij : i = j := by
      have hi := (List.getElem?_eq_some_iff.mp hr).1
      rw [← List.getElem?_inj (by simpa using hi) hf.numbers]
      simp [hr, hr', hnumber]
    subst hij
    obtain rfl := Option.some.inj (hr.symm.trans hr')
    exact ⟨rfl, congrArg _ (ht.eq_of_id hk hk' hid)⟩
  · rintro ⟨rfl, hname⟩
    obtain rfl := Option.some.inj (hr.symm.trans hr')
    rw [ht.eq_of_name hk hk' hname]

theorem Sound.address_eq_iff (hf : f.Sound) (h : f.Holds i k) :
    (k.seenIn f.heap).address = (k'.seenIn f.heap).address ↔ k == k' := by
  rw [Keyword.beq_iff_id_eq]
  exact List.idxOf_inj (hf.mem_heap h)

theorem Holds.ask (h : f.Holds i k) (j : Nat) (request : Registry.Request) :
    (f.ask j request).Holds i k := by
  obtain ⟨r, hr, hk⟩ := h
  by_cases hj : j = i
  · subst hj
    have hextends := (r.serve_serves request).extends
    exact ⟨_, registries_ask_self hr request, hextends.keywords_le.subset hk⟩
  · exact ⟨r, (f.registries_ask_other hj request).trans hr, hk⟩

/-- The keyword of a symbol that has the name of another keyword has the same name and hash code,
and is that keyword if it is asked of the same registry. -/
theorem Sound.converted (hf : f.Sound) (h : f.Holds i k) {r : Registry}
    (hr : f.registries[j]? = some r) {s : Symbol} (hs : s.name = k.name) :
    (r.keywordOfSymbol s).1.name = k.name ∧ (r.keywordOfSymbol s).1.code = k.code ∧
      ((r.keywordOfSymbol s).1 == k ↔ j = i) := by
  have hlater := hf.ask j (.keywordOfSymbol s)
  have hfind : (r.keywordOfSymbol s).2.table.find? s.name = some (r.keywordOfSymbol s).1 :=
    r.table.find?_intern s.name
  have hname : (r.keywordOfSymbol s).1.name = k.name :=
    (KeywordTable.name_of_find? hfind).trans hs
  have hholds : (f.ask j (.keywordOfSymbol s)).Holds j (r.keywordOfSymbol s).1 :=
    ⟨_, registries_ask_self hr (.keywordOfSymbol s), KeywordTable.mem_of_find? hfind⟩
  refine ⟨hname, ?_, ?_⟩
  · rw [hlater.code_eq hholds, hf.code_eq h, hname]
  · rw [hlater.beq_iff hholds (h.ask j _)]
    simp [hname]

end

/-! ## One registry among others -/

def requestsOf (i : Nat) (requests : Schedule) : List Registry.Request :=
  (requests.filter (·.1 == i)).map (·.2)

/-- The registry at a place has come to be `r`, and what it has reported is the log as it is seen
in the memory of the fleet. -/
structure Follows (f : Fleet) (i : Nat) (r : Registry) (log : List (Registry.Report Keyword)) :
    Prop where
  registry_eq : f.registries[i]? = some r
  reports_eq : f.reportsOf i = log.map (·.map (·.seenIn f.heap))
  held : ∀ report ∈ log, ∀ k ∈ report.keywords, k ∈ r.table.keywords

section

variable {f : Fleet} {i : Nat} {r : Registry} {log : List (Registry.Report Keyword)}

theorem follows_start {registries : List Registry} (hr : registries[i]? = some r) :
    (start registries).Follows i r [] :=
  ⟨hr, rfl, by simp⟩

theorem Follows.holds (h : f.Follows i r log) {k : Keyword}
    (hk : k ∈ log.flatMap (·.keywords)) : f.Holds i k := by
  obtain ⟨report, hreport, hk⟩ := List.mem_flatMap.mp hk
  exact ⟨r, h.registry_eq, h.held report hreport k hk⟩

/-- What was seen in a memory is seen at the same place when the memory has grown. -/
theorem Follows.map_seenIn_append (h : f.Follows i r log) (hf : f.Sound)
    (more : List KeywordId) :
    log.map (·.map (·.seenIn (f.heap ++ more))) = log.map (·.map (·.seenIn f.heap)) := by
  apply List.map_congr_left
  intro report hreport
  apply Registry.Report.map_congr
  intro k hk
  have hmem := hf.mem_heap (h.holds (List.mem_flatMap.mpr ⟨report, hreport, hk⟩))
  rw [Keyword.seenIn, List.idxOf_append_of_mem hmem, Keyword.seenIn]

theorem Follows.ask_other (h : f.Follows i r log) (hf : f.Sound) {j : Nat} (hj : j ≠ i)
    (request : Registry.Request) : (f.ask j request).Follows i r log := by
  refine ⟨(f.registries_ask_other hj request).trans h.registry_eq, ?_, h.held⟩
  have hreports := h.reports_eq
  cases hr' : f.registries[j]? with
  | none =>
      rw [ask_of_none hr']
      exact hreports
  | some r' =>
      obtain ⟨made, -, hask⟩ := ask_of_some hr' request
      simp only [reportsOf] at hreports
      simp [reportsOf, hask, hj, hreports, h.map_seenIn_append hf]

theorem Follows.ask_own (h : f.Follows i r log) (hf : f.Sound) (request : Registry.Request) :
    (f.ask i request).Follows i (r.serve request).2
      (log ++ [(r.serve request).2.report (r.serve request).1]) := by
  refine ⟨registries_ask_self h.registry_eq request, ?_, ?_⟩
  · obtain ⟨made, -, hask⟩ := ask_of_some h.registry_eq request
    have hreports := h.reports_eq
    simp only [reportsOf] at hreports
    simp [reportsOf, hask, hreports, h.map_seenIn_append hf]
  · intro report hreport k hk
    rcases List.mem_append.mp hreport with hreport | hreport
    · have hextends := (r.serve_serves request).extends
      exact hextends.keywords_le.subset (h.held report hreport k hk)
    · rw [List.mem_singleton.mp hreport] at hk
      exact r.mem_of_report request hk

/-- A registry follows its own requests and no others. -/
theorem Follows.run (h : f.Follows i r log) (hf : f.Sound) (requests : Schedule) :
    (f.run requests).Follows i (r.serveAll (requestsOf i requests)).2
      (log ++ (r.serveAll (requestsOf i requests)).1) := by
  induction requests generalizing f r log with
  | nil => simpa [Fleet.run, requestsOf, Registry.serveAll] using h
  | cons asked requests ih =>
      obtain ⟨j, request⟩ := asked
      have hsound := hf.ask j request
      by_cases hj : j = i
      · subst hj
        simpa [Fleet.run, requestsOf, Registry.serveAll] using ih (h.ask_own hf request) hsound
      · simpa [Fleet.run, requestsOf, hj] using ih (h.ask_other hf hj request) hsound

end

theorem requestsOf_filter (i : Nat) (requests : Schedule) :
    requestsOf i (requests.filter (·.1 == i)) = requestsOf i requests := by
  simp [requestsOf, List.filter_filter]

/-- With the others or alone, a registry comes to be the same and has the same log. -/
theorem exists_follows {registries : List Registry} (hstart : (start registries).Sound) {i : Nat}
    {r : Registry} (hr : registries[i]? = some r) (requests : Schedule) :
    ∃ r' log, ((start registries).run requests).Follows i r' log ∧
      ((start registries).runAlone i requests).Follows i r' log := by
  refine ⟨_, _, (follows_start hr).run hstart requests, ?_⟩
  have halone := (follows_start hr).run hstart (requests.filter (·.1 == i))
  rw [requestsOf_filter] at halone
  exact halone

/-! ## Reports with and without the others -/

/-- Reports that differ in the addresses of keywords only, where equal addresses stay equal and
different ones different. -/
def Readdressed (before after : List (Registry.Report Sight)) : Prop :=
  ∃ move : Nat → Nat,
    (∀ a ∈ before.flatMap (·.keywords), ∀ b ∈ before.flatMap (·.keywords),
      move a.address = move b.address → a.address = b.address) ∧
    after = before.map (·.map (·.moved move))

section

variable {f g : Fleet} {i : Nat} {r : Registry} {log : List (Registry.Report Keyword)}

theorem Follows.seenBy_eq (h : f.Follows i r log) :
    f.seenBy i = (log.flatMap (·.keywords)).map (·.seenIn f.heap) := by
  rw [seenBy, h.reports_eq]
  simp [List.flatMap_map, List.map_flatMap, Registry.Report.keywords_map]

/-- Where the instance at an address of one memory lies in another. -/
def relocate (heap heap' : List KeywordId) (address : Nat) : Nat :=
  (heap[address]?.map heap'.idxOf).getD 0

theorem moved_relocate {heap heap' : List KeywordId} {k : Keyword} (h : k.id ∈ heap) :
    (k.seenIn heap).moved (relocate heap heap') = k.seenIn heap' := by
  simp [Keyword.seenIn, Sight.moved, relocate, List.getElem?_idxOf h]

theorem Follows.readdressed (h : f.Follows i r log) (hf : f.Sound) (h' : g.Follows i r log)
    (hg : g.Sound) : Readdressed (g.reportsOf i) (f.reportsOf i) := by
  refine ⟨relocate g.heap f.heap, ?_, ?_⟩
  · change ∀ a ∈ g.seenBy i, ∀ b ∈ g.seenBy i, _
    rw [h'.seenBy_eq]
    intro a ha b hb hab
    obtain ⟨k, hk, rfl⟩ := List.mem_map.mp ha
    obtain ⟨k', hk', rfl⟩ := List.mem_map.mp hb
    have hmoved : (k.seenIn f.heap).address = (k'.seenIn f.heap).address := by
      rw [← moved_relocate (hg.mem_heap (h'.holds hk)),
        ← moved_relocate (hg.mem_heap (h'.holds hk'))]
      exact hab
    rw [hf.address_eq_iff (h.holds hk)] at hmoved
    exact (hg.address_eq_iff (h'.holds hk)).mpr hmoved
  · rw [h.reports_eq, h'.reports_eq, List.map_map]
    apply List.map_congr_left
    intro report hreport
    rw [Function.comp_apply, Registry.Report.map_map]
    apply Registry.Report.map_congr
    intro k hk
    have hmem := hg.mem_heap (h'.holds (List.mem_flatMap.mpr ⟨report, hreport, hk⟩))
    exact (moved_relocate hmem).symm

end

theorem places_run (f : Fleet) (requests : Schedule) :
    (f.run requests).reports.map (·.1) =
      f.reports.map (·.1) ++ (requests.map (·.1)).filter (· < f.registries.length) := by
  induction requests generalizing f with
  | nil => simp [run]
  | cons asked requests ih =>
      obtain ⟨i, request⟩ := asked
      have hrest := ih (f.ask i request)
      rw [length_registries_ask] at hrest
      simp only [run, List.foldl_cons, List.map_cons] at hrest ⊢
      rw [hrest]
      cases h : f.registries[i]? with
      | none =>
          have hi : ¬ i < f.registries.length := by simpa using h
          simp [ask_of_none h, hi]
      | some r =>
          obtain ⟨made, -, hask⟩ := ask_of_some h request
          have hi : i < f.registries.length := (List.getElem?_eq_some_iff.mp h).1
          simp [hask, hi]

/-- Each request to a registry that is there is answered. -/
theorem places_run_start (registries : List Registry) (requests : Schedule) :
    ((start registries).run requests).reports.map (·.1) =
      (requests.map (·.1)).filter (· < registries.length) :=
  (start registries).places_run requests

theorem length_registries_run (f : Fleet) (requests : Schedule) :
    (f.run requests).registries.length = f.registries.length := by
  induction requests generalizing f with
  | nil => rfl
  | cons asked requests ih =>
      exact (ih (f.ask asked.1 asked.2)).trans (f.length_registries_ask asked.1 asked.2)

/-- A registry that is not there reports nothing. -/
theorem reportsOf_eq_nil {registries : List Registry} {i : Nat} (h : registries[i]? = none)
    (requests : Schedule) : ((start registries).run requests).reportsOf i = [] := by
  have hi : registries.length ≤ i := List.getElem?_eq_none_iff.mp h
  rw [reportsOf, List.map_eq_nil_iff, List.filter_eq_nil_iff]
  intro report hreport
  have hmem : report.1 ∈ (requests.map (·.1)).filter (· < registries.length) := by
    rw [← places_run_start]
    exact List.mem_map_of_mem hreport
  have hlt : report.1 < registries.length := of_decide_eq_true (List.mem_filter.mp hmem).2
  simp only [beq_iff_eq]
  omega

theorem registries_run_eq_none {registries : List Registry} {i : Nat} (h : registries[i]? = none)
    (requests : Schedule) : ((start registries).run requests).registries[i]? = none := by
  rw [List.getElem?_eq_none_iff, length_registries_run]
  exact List.getElem?_eq_none_iff.mp h

/-- How a fleet compares with the fleets in which only one registry was asked: each registry has
come to be the same and has reported the same, but for addresses; and keywords are the same
instance when one registry made both for one name. -/
structure Separation (f : Fleet) (alone : Nat → Fleet) : Prop where
  registries : ∀ i, f.registries[i]? = (alone i).registries[i]?
  reports : ∀ i, Readdressed ((alone i).reportsOf i) (f.reportsOf i)
  fresh : f.heap.Nodup
  seen : ∀ i, ∀ a ∈ f.seenBy i, ∃ k, f.Holds i k ∧ a = k.seenIn f.heap
  address_eq_iff : ∀ i j, ∀ a ∈ f.seenBy i, ∀ b ∈ f.seenBy j,
    a.address = b.address ↔ i = j ∧ a.name = b.name
  code_eq : ∀ i j k k', f.Holds i k → f.Holds j k' → k.name = k'.name → k.code = k'.code
  beq_iff : ∀ i j k k', f.Holds i k → f.Holds j k' → (k == k' ↔ i = j ∧ k.name = k'.name)
  converted : ∀ i j k r supply, f.Holds i k → f.registries[j]? = some r →
    let k' := (r.keywordOfSymbol (k.toSymbol.run supply).1).1
    k'.name = k.name ∧ k'.code = k.code ∧ (k' == k ↔ j = i)

theorem Sound.alone {registries : List Registry} (hstart : (start registries).Sound)
    (requests : Schedule) (i : Nat) :
    ((start registries).run requests).registries[i]? =
        ((start registries).runAlone i requests).registries[i]? ∧
      Readdressed (((start registries).runAlone i requests).reportsOf i)
        (((start registries).run requests).reportsOf i) := by
  cases hr : registries[i]? with
  | none =>
      rw [runAlone, registries_run_eq_none hr, registries_run_eq_none hr, reportsOf_eq_nil hr,
        reportsOf_eq_nil hr]
      exact ⟨rfl, id, by simp, rfl⟩
  | some r =>
      obtain ⟨r', log, h, h'⟩ := exists_follows hstart hr requests
      rw [h.registry_eq, h'.registry_eq]
      exact ⟨rfl, h.readdressed (hstart.run _) h' (hstart.run _)⟩

theorem Sound.exists_seen {registries : List Registry} (hstart : (start registries).Sound)
    (requests : Schedule) {i : Nat} {a : Sight}
    (ha : a ∈ ((start registries).run requests).seenBy i) :
    ∃ k, ((start registries).run requests).Holds i k ∧
      a = k.seenIn ((start registries).run requests).heap := by
  cases hr : registries[i]? with
  | none =>
      rw [seenBy, reportsOf_eq_nil hr] at ha
      cases ha
  | some r =>
      have hfollows := (follows_start hr).run hstart requests
      rw [hfollows.seenBy_eq] at ha
      obtain ⟨k, hk, rfl⟩ := List.mem_map.mp ha
      exact ⟨k, hfollows.holds hk, rfl⟩

theorem Sound.separation {registries : List Registry} (hstart : (start registries).Sound)
    (requests : Schedule) :
    Separation ((start registries).run requests)
      fun i => (start registries).runAlone i requests := by
  have hf := hstart.run requests
  refine ⟨fun i => (hstart.alone requests i).1, fun i => (hstart.alone requests i).2,
    hf.nodup_heap, fun _ _ ha => hstart.exists_seen requests ha, ?_, ?_, ?_, ?_⟩
  · intro i j a ha b hb
    obtain ⟨k, hk, rfl⟩ := hstart.exists_seen requests ha
    obtain ⟨k', hk', rfl⟩ := hstart.exists_seen requests hb
    rw [hf.address_eq_iff hk, hf.beq_iff hk hk']
    rfl
  · intro i j k k' hk hk' hname
    rw [hf.code_eq hk, hf.code_eq hk', hname]
  · intro i j k k' hk hk'
    exact hf.beq_iff hk hk'
  · intro i j k r supply hk hr
    exact hf.converted hk hr rfl

/-- Registries do not interfere. However the requests to several of them are mixed, each one that
there is answers, and reports what it would report if the others were left alone. -/
theorem registries_do_not_interfere (registries : List Registry)
    (hreachable : ∀ r ∈ registries, r.Reachable)
    (hnumbers : (registries.map (·.table.number)).Nodup) (requests : Schedule) :
    ((start registries).run requests).reports.map (·.1) =
        (requests.map (·.1)).filter (· < registries.length) ∧
      Separation ((start registries).run requests)
        fun i => (start registries).runAlone i requests :=
  ⟨places_run_start registries requests, (sound_start hreachable hnumbers).separation requests⟩

/-- A name taken from one registry to another by way of a symbol: the second keyword lies at
another address, but at the first one if that registry is asked alone. -/
theorem registries_do_not_interfere_symbol :
    let x : Name := ⟨some "a", "x", "a/x", by decide, by decide, by decide⟩
    let s : Symbol := ((Symbol.ofName x).run {}).1
    let registries := [Registry.new 0, Registry.new 1]
    let requests : Schedule :=
      [(0, .intern x), (1, .keywordOfSymbol s), (0, .intern x), (1, .resetStats), (2, .preload)]
    let places (f : Fleet) : List (Nat × List Nat) :=
      f.reports.map fun report => (report.1, report.2.answer.keywords.map (·.address))
    (∀ r ∈ registries, r.Reachable) ∧ (registries.map (·.table.number)).Nodup ∧
      places ((start registries).run requests) = [(0, [0]), (1, [1]), (0, [0]), (1, [])] ∧
      places ((start registries).runAlone 1 requests) = [(1, [0]), (1, [])] ∧
      ((start registries).run requests).reports.map (·.1) =
        (requests.map (·.1)).filter (· < registries.length) ∧
      Separation ((start registries).run requests)
        fun i => (start registries).runAlone i requests := by
  intro x s registries requests places
  have hreachable : ∀ r ∈ registries, r.Reachable := by
    intro r hr
    rcases List.mem_pair.mp hr with rfl | rfl
    · exact .new 0
    · exact .new 1
  have hnumbers : (registries.map (·.table.number)).Nodup := by decide
  exact ⟨hreachable, hnumbers, by decide, by decide,
    registries_do_not_interfere registries hreachable hnumbers requests⟩

end Fleet

end Moniker
