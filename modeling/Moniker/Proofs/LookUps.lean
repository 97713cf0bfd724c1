import Moniker.Proofs.Literals

/-! # What a look-up finds

A registry finds a keyword when its name was interned in the run so far, by whatever operation, and
from then on always the same one. Operations that fail or only look leave no trace. -/

namespace Moniker

theorem Name.exists_ofParts_eq_error_iff {ns : Option String} {localName : String} :
    (∃ fault, ofParts ns localName = .error fault) ↔
      localName = "" ∨ ∃ s, ns = some s ∧ (s = "" ∨ separator ∈ s.toList) := by
  constructor
  · rintro ⟨fault, h⟩
    by_contra hgood
    obtain ⟨hlocal, hns⟩ := not_or.mp hgood
    have hvalid : ∀ s ∈ ns, NamespaceValid s := by
      intro s hs
      exact not_or.mp fun hbad => hns ⟨s, hs, hbad⟩
    rw [ofParts_ok hlocal hvalid] at h
    cases h
  · intro hbad
    cases h : ofParts ns localName with
    | error fault => exact ⟨fault, rfl⟩
    | ok q =>
        obtain ⟨rfl, rfl⟩ := ofParts_eq_ok_iff.mp h
        rcases hbad with hlocal | ⟨s, hs, hempty | hseparator⟩
        · exact absurd hlocal q.localName_ne
        · exact absurd hempty (q.ns_valid s hs).1
        · exact absurd hseparator (q.ns_valid s hs).2

namespace Registry

theorem dropMarker_eq_empty_iff {literal : String} :
    dropMarker literal = "" ↔ literal = "" ∨ literal = ":" := by
  by_cases hmarked : ∃ text, literal = marked text
  · obtain ⟨text, rfl⟩ := hmarked
    have hcolon : marked text = ":" ↔ text = "" := marked_inj (b := "")
    have hempty : marked text ≠ "" := by simp [← String.toList_inj, toList_marked]
    rw [dropMarker_marked, hcolon]
    simp [hempty]
  · have hcolon : literal ≠ ":" := fun h => hmarked ⟨"", h⟩
    rw [dropMarker_of_not_marked hmarked]
    simp [hcolon]

/-! ## Operations -/

/-- What may be done with a registry: requests to it, requests to the table that it owns, and a run
of workers that share this table. -/
inductive Operation where
  | ask (request : Request)
  | getOrCreate (q : Name)
  | lookUp (q : Name)
  | contains (q : Name)
  | share (requests : List (List Name)) (turns : List Turn)

/-- What an operation gives back. -/
inductive Result where
  | answer (a : Answer Keyword)
  | held (there : Bool)
  | completed (answers : List (Name × Keyword))

def perform (r : Registry) : Operation → Result × Registry
  | .ask request => (r.serve request).map .answer id
  | .getOrCreate q =>
    let (k, table) := r.table.intern q
    (.answer (.keyword k), { r with table })
  | .lookUp q => (.answer ((r.table.find? q).elim .nothing .keyword), r)
  | .contains q => (.held (r.table.contains q), r)
  | .share requests turns =>
    let s := (Pool.start r.table requests).run turns
    (.completed s.completed, { r with table := s.table })

def performAll (r : Registry) (ops : List Operation) : Registry :=
  ops.foldl (fun r op => (r.perform op).2) r

/-- The operations that only look. -/
def Operation.Looks : Operation → Prop
  | .ask (.find _ _) | .lookUp _ | .contains _ => True
  | _ => False

/-- The names that an operation interns. Parts or a text that make no name intern none, and of the
requests of workers those count that are answered. -/
def interned (r : Registry) : Operation → List Name
  | .ask (.keyword ns localName) => (Name.ofParts ns localName).toOption.toList
  | .ask (.parseKeyword literal) => (Name.parse (dropMarker literal)).toOption.toList
  | .ask (.intern q) => [q]
  | .ask (.keywordOfSymbol s) => [s.name]
  | .ask .preload => KeywordTable.coreNames
  | .ask (.find _ _) | .ask .resetStats => []
  | .getOrCreate q => [q]
  | .lookUp _ | .contains _ => []
  | .share requests turns => ((Pool.start r.table requests).run turns).answered

theorem perform_of_looks (r : Registry) {op : Operation} (h : op.Looks) :
    (r.perform op).2 = r := by
  cases op with
  | ask request =>
      cases request with
      | find ns localName => rfl
      | _ => cases h
  | lookUp q => rfl
  | contains q => rfl
  | getOrCreate q => cases h
  | share requests turns => cases h

theorem internChecked_of_error {made : Except NameFault Name} {r : Registry} {fault : NameFault}
    (h : (r.internChecked made).1 = .error fault) : (r.internChecked made).2 = r := by
  cases made with
  | error f => rfl
  | ok q => cases h

theorem exists_internChecked_error_iff {made : Except NameFault Name} {r : Registry} :
    (∃ fault, (r.internChecked made).1 = .error fault) ↔ ∃ fault, made = .error fault := by
  cases made with
  | error f => simp [internChecked]
  | ok q => simp [internChecked]

theorem mem_names_internChecked (r : Registry) (made : Except NameFault Name) (p : Name) :
    p ∈ (r.internChecked made).2.table.keywords.map (·.name) ↔
      p ∈ r.table.keywords.map (·.name) ∨ p ∈ made.toOption.toList := by
  cases made with
  | error f => simp [internChecked, Except.toOption]
  | ok q =>
      have hmem : p ∈ (Except.ok q : Except NameFault Name).toOption.toList ↔ p = q := by
        simp [Except.toOption]
      rw [hmem]
      exact r.table.mem_names_intern q p

/-- An operation binds the names that it interns, and no others. -/
theorem mem_names_perform (r : Registry) (op : Operation) (p : Name) :
    p ∈ (r.perform op).2.table.keywords.map (·.name) ↔
      p ∈ r.table.keywords.map (·.name) ∨ p ∈ r.interned op := by
  cases op with
  | ask request =>
      cases request with
      | keyword ns localName => exact r.mem_names_internChecked (Name.ofParts ns localName) p
      | parseKeyword literal =>
          exact r.mem_names_internChecked (Name.parse (dropMarker literal)) p
      | intern q =>
          rw [interned, List.mem_singleton]
          exact r.table.mem_names_intern q p
      | find ns localName => simp [perform, serve, interned]
      | keywordOfSymbol s =>
          rw [interned, List.mem_singleton]
          exact r.table.mem_names_intern s.name p
      | preload =>
          have hnames := r.table.mem_names_internAll KeywordTable.coreNames p
          simp only [perform, serve, KeywordTable.preload_eq, interned]
          generalize (r.table.internAll KeywordTable.coreNames).2 = later at hnames
          exact hnames
      | resetStats => simp [perform, serve, interned, KeywordTable.resetStats]
  | getOrCreate q =>
      rw [interned, List.mem_singleton]
      exact r.table.mem_names_intern q p
  | lookUp q => simp [perform, interned]
  | contains q => simp [perform, interned]
  | share requests turns => exact (Pool.binds_start r.table requests).run turns p

theorem extends_perform (r : Registry) (op : Operation) :
    r.table.Extends (r.perform op).2.table := by
  cases op with
  | ask request => exact (r.serve_serves request).extends
  | getOrCreate q => exact r.table.extends_intern q
  | lookUp q => exact .refl r.table
  | contains q => exact .refl r.table
  | share requests turns => exact (Pool.start r.table requests).extends_run turns

theorem extends_performAll (r : Registry) (ops : List Operation) :
    r.table.Extends (r.performAll ops).table := by
  induction ops generalizing r with
  | nil => exact .refl r.table
  | cons op ops ih => exact (r.extends_perform op).trans (ih (r.perform op).2)

theorem Reachable.perform {r : Registry} (hr : r.Reachable) (op : Operation) :
    (r.perform op).2.Reachable := by
  cases op with
  | ask request => exact hr.serve request
  | getOrCreate q => exact hr.serve (.intern q)
  | lookUp q => exact hr
  | contains q => exact hr
  | share requests turns => exact hr.run requests turns

/-! ## Runs -/

/-- A registry that came to be by a run of operations, with the names that were interned on the
way; a layout may have interned the core names at the start. -/
inductive Ran : Registry → List Name → Prop
  | new (number : Nat) : Ran (.new number) []
  | ofLayout {number l r} : ofLayout number l = .ok r →
      Ran r (if l.preloads then KeywordTable.coreNames else [])
  | perform {r names} (op : Operation) : Ran r names →
      Ran (r.perform op).2 (names ++ r.interned op)

theorem Ran.reachable {r : Registry} {names : List Name} (h : r.Ran names) : r.Reachable := by
  induction h with
  | new number => exact .new number
  | ofLayout h => exact .ofLayout h
  | perform op _ ih => exact ih.perform op

theorem Reachable.exists_ran {r : Registry} (hr : r.Reachable) : ∃ names, r.Ran names := by
  induction hr with
  | new number => exact ⟨[], .new number⟩
  | ofLayout h => exact ⟨_, .ofLayout h⟩
  | serve request _ ih =>
      obtain ⟨names, h⟩ := ih
      exact ⟨_, h.perform (.ask request)⟩
  | run requests turns _ ih =>
      obtain ⟨names, h⟩ := ih
      exact ⟨_, h.perform (.share requests turns)⟩

theorem mem_names_setUp (number : Nat) (l : Layout) (p : Name) :
    p ∈ (KeywordTable.setUp number l).keywords.map (·.name) ↔
      p ∈ if l.preloads then KeywordTable.coreNames else [] := by
  rw [KeywordTable.setUp]
  by_cases hpreloads : l.preloads
  · have hnames := (KeywordTable.empty number l.memoLimit.toNat).mem_names_internAll
      KeywordTable.coreNames p
    simp only [hpreloads, if_true, KeywordTable.preload_eq]
    generalize (KeywordTable.internAll _ KeywordTable.coreNames).2 = later at hnames
    simpa [KeywordTable.record, KeywordTable.empty] using hnames
  · simp [hpreloads, KeywordTable.record, KeywordTable.empty]

/-- A registry binds the names that were interned in its run, and no others. -/
theorem Ran.mem_names_iff {r : Registry} {names : List Name} (h : r.Ran names) (p : Name) :
    p ∈ r.table.keywords.map (·.name) ↔ p ∈ names := by
  induction h with
  | new number => simp [Registry.new, KeywordTable.empty]
  | @ofLayout number l r h =>
      rw [eq_of_ofLayout h]
      exact mem_names_setUp number l p
  | @perform r names op _ ih => rw [mem_names_perform, ih, List.mem_append]

/-! ## Look-ups -/

theorem findKeyword_eq_some_iff {r : Registry} {ns : Option String} {localName : String}
    {k : Keyword} : r.findKeyword ns localName = some k ↔
      ∃ q, Name.ofParts ns localName = .ok q ∧ r.table.find? q = some k := by
  rw [findKeyword]
  cases Name.ofParts ns localName with
  | error f => simp
  | ok q => simp

/-- Every way to intern a name, taken next, gives the same keyword. A preload gives none and leaves
it in its place. -/
structure Gives (r : Registry) (q : Name) (k : Keyword) : Prop where
  keyword : ∀ ns localName, Name.ofParts ns localName = .ok q →
    (r.keyword ns localName).1 = .ok k
  parseKeyword : ∀ literal, Name.parse (dropMarker literal) = .ok q →
    (r.parseKeyword literal).1 = .ok k
  intern : (r.intern q).1 = k
  getOrCreate : (r.table.intern q).1 = k
  keywordOfSymbol : ∀ s : Symbol, s.name = q → (r.keywordOfSymbol s).1 = k
  share : ∀ requests turns, ∀ a ∈ ((Pool.start r.table requests).run turns).completed,
    a.1 = q → a.2 = k
  preload : r.table.preload.2.find? q = some k

theorem Reachable.gives {r : Registry} (hr : r.Reachable) {q : Name} {k : Keyword}
    (hk : r.table.find? q = some k) : r.Gives q k := by
  have hintern : (r.table.intern q).1 = k := by rw [KeywordTable.intern_of_find? hk]
  have hchecked : ∀ {made : Except NameFault Name}, made = .ok q →
      (r.internChecked made).1 = .ok k := by
    rintro made rfl
    exact congrArg Except.ok hintern
  refine ⟨fun ns localName h => hchecked h, fun literal h => hchecked h, hintern, hintern, ?_, ?_,
    r.table.extends_preload.find? hk⟩
  · rintro s rfl
    exact hintern
  · rintro requests turns a ha rfl
    have hs := (Pool.sound_start hr.table.sound requests).run turns
    have hkept := ((Pool.start r.table requests).extends_run turns).find? hk
    exact Option.some.inj ((hs.find?_of_completed ha).symm.trans hkept)

/-- When requests for keywords fail, that these and looking change nothing, what is found after a
run in which the given names were interned, and that it is found for good. -/
structure LookUpSpec (r : Registry) (names : List Name) : Prop where
  keyword_fails_iff : ∀ ns localName, (∃ fault, (r.keyword ns localName).1 = .error fault) ↔
    localName = "" ∨ ∃ s, ns = some s ∧ (s = "" ∨ separator ∈ s.toList)
  parseKeyword_fails_iff : ∀ literal, (∃ fault, (r.parseKeyword literal).1 = .error fault) ↔
    literal = "" ∨ literal = ":"
  keyword_failed : ∀ ns localName fault, (r.keyword ns localName).1 = .error fault →
    (r.keyword ns localName).2 = r
  parseKeyword_failed : ∀ literal fault, (r.parseKeyword literal).1 = .error fault →
    (r.parseKeyword literal).2 = r
  looked : ∀ op : Operation, op.Looks → (r.perform op).2 = r
  findKeyword_iff : ∀ ns localName, (∃ k, r.findKeyword ns localName = some k) ↔
    ∃ q ∈ names, q.ns = ns ∧ q.localName = localName
  find?_iff : ∀ q, (∃ k, r.table.find? q = some k) ↔ q ∈ names
  contains_iff : ∀ q, r.table.contains q ↔ q ∈ names
  gives : ∀ ns localName k, r.findKeyword ns localName = some k →
    ∃ q, Name.ofParts ns localName = .ok q ∧ r.Gives q k
  kept : ∀ ops ns localName k, r.findKeyword ns localName = some k →
    (r.performAll ops).findKeyword ns localName = some k

theorem Ran.lookUpSpec {r : Registry} {names : List Name} (h : r.Ran names) :
    r.LookUpSpec names := by
  have hfind : ∀ q, (∃ k, r.table.find? q = some k) ↔ q ∈ names := by
    intro q
    rw [← h.mem_names_iff, ← Option.ne_none_iff_exists', ne_eq, KeywordTable.find?_eq_none_iff,
      not_not]
  refine ⟨?_, ?_, fun _ _ _ => internChecked_of_error, fun _ _ => internChecked_of_error,
    fun _ => r.perform_of_looks, ?_, hfind, ?_, ?_, ?_⟩
  · intro ns localName
    exact exists_internChecked_error_iff.trans Name.exists_ofParts_eq_error_iff
  · intro literal
    rw [parseKeyword, exists_internChecked_error_iff, ← dropMarker_eq_empty_iff]
    simp only [Name.parse_eq_error_iff, exists_and_left, exists_eq, and_true]
  · intro ns localName
    simp only [findKeyword_eq_some_iff, Name.ofParts_eq_ok_iff]
    constructor
    · rintro ⟨k, q, hq, hk⟩
      exact ⟨q, (hfind q).mp ⟨k, hk⟩, hq⟩
    · rintro ⟨q, hmem, hq⟩
      obtain ⟨k, hk⟩ := (hfind q).mpr hmem
      exact ⟨k, q, hq, hk⟩
  · intro q
    rw [KeywordTable.contains_iff_mem_names, h.mem_names_iff]
  · intro ns localName k hk
    obtain ⟨q, hq, hk⟩ := findKeyword_eq_some_iff.mp hk
    exact ⟨q, hq, h.reachable.gives hk⟩
  · intro ops ns localName k hk
    obtain ⟨q, hq, hk⟩ := findKeyword_eq_some_iff.mp hk
    exact findKeyword_eq_some_iff.mpr ⟨q, hq, (r.extends_performAll ops).find? hk⟩

/-- Every registry came to be by some run; and after any run, failing and looking change nothing,
just the names that were interned are found, and each of them is found again as the same keyword,
which every operation gives. -/
theorem look_ups_follow_the_run :
    (∀ r : Registry, r.Reachable → ∃ names, r.Ran names) ∧
      ∀ (r : Registry) (names : List Name), r.Ran names → r.LookUpSpec names :=
  ⟨fun _ hr => hr.exists_ran, fun _ _ h => h.lookUpSpec⟩

/-- A registry in which a request has failed, counting has started anew and a symbol was made a
keyword; the unqualified name of the same text is not found. -/
theorem look_ups_follow_the_run_symbol :
    let x : Name := ⟨some "a", "x", "a/x", by decide, by decide, by decide⟩
    let s : Symbol := ((Symbol.ofName x).run {}).1
    let r := (Registry.new 0).performAll
      [.ask (.parseKeyword ":"), .ask (.keywordOfSymbol s), .ask .resetStats, .contains x]
    r.Ran [x] ∧ r.Reachable ∧ (∃ names, r.Ran names) ∧ r.LookUpSpec [x] ∧
      (∃ k, r.findKeyword (some "a") "x" = some k) ∧ ¬∃ k, r.findKeyword none "a/x" = some k := by
  intro x s r
  have hran : r.Ran [x] := ((((Ran.new 0).perform (.ask (.parseKeyword ":"))).perform
    (.ask (.keywordOfSymbol s))).perform (.ask .resetStats)).perform (.contains x)
  obtain ⟨hexists, hspec⟩ := look_ups_follow_the_run
  have hlook := hspec r [x] hran
  refine ⟨hran, hran.reachable, hexists r hran.reachable, hlook, ?_, ?_⟩
  · exact (hlook.findKeyword_iff _ _).mpr ⟨x, by simp, rfl, rfl⟩
  · rw [hlook.findKeyword_iff]
    simp [x]

end Registry

end Moniker
