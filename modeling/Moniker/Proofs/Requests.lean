import Moniker.Proofs.Listing

/-! # Requests to a registry

Whatever is asked of a registry, its table keeps every binding and stays sound, and any keyword
in the answer is one that the table then holds. -/

namespace Moniker.Registry

/-- What may be asked of a registry. -/
inductive Request where
  | keyword (ns : Option String) (localName : String)
  | parseKeyword (literal : String)
  | intern (q : Name)
  | find (ns : Option String) (localName : String)
  | keywordOfSymbol (s : Symbol)
  | preload
  | resetStats

/-- How a request is answered, where a keyword is shown as a `κ`. -/
inductive Answer (κ : Type) where
  | keyword (k : κ)
  | nothing
  | fault (f : NameFault)
  | installed (count : Nat)
  | done

namespace Answer

def keywords {κ : Type} : Answer κ → List κ
  | keyword k => [k]
  | _ => []

def map {κ ι : Type} (f : κ → ι) : Answer κ → Answer ι
  | keyword k => keyword (f k)
  | nothing => nothing
  | fault f => fault f
  | installed count => installed count
  | done => done

def ofKeyword : Except NameFault Keyword → Answer Keyword
  | .error f => fault f
  | .ok k => keyword k

end Answer

/-- The answer to a request, and the registry after it. -/
def serve (r : Registry) : Request → Answer Keyword × Registry
  | .keyword ns localName => (r.keyword ns localName).map .ofKeyword id
  | .parseKeyword literal => (r.parseKeyword literal).map .ofKeyword id
  | .intern q => (r.intern q).map .keyword id
  | .find ns localName => ((r.findKeyword ns localName).elim .nothing .keyword, r)
  | .keywordOfSymbol s => (r.keywordOfSymbol s).map .keyword id
  | .preload =>
    match r.table.preload with
    | (.ok count, table) => (.installed count, { r with table })
    | (.error f, table) => (.fault f, { r with table })
  | .resetStats => (.done, { r with table := r.table.resetStats })

/-! ## What a request may do -/

/-- All that serving a request may do: nothing to the registry, one interning, the installation
of the core constants, or a new start of the counters. -/
inductive Serves (r : Registry) : Answer Keyword → Registry → Prop where
  | plain {a} : a.keywords = [] → Serves r a r
  | found {q k} : r.table.find? q = some k → Serves r (.keyword k) r
  | interned (q : Name) : Serves r (.keyword (r.intern q).1) (r.intern q).2
  | preloaded {table} : r.table.preload = (.ok KeywordTable.coreNames.length, table) →
      Serves r (.installed KeywordTable.coreNames.length) { r with table }
  | reset : Serves r .done { r with table := r.table.resetStats }

theorem serves_internChecked (r : Registry) (q : Except NameFault Name) :
    Serves r ((r.internChecked q).map Answer.ofKeyword id).1
      ((r.internChecked q).map Answer.ofKeyword id).2 := by
  cases q with
  | error f => exact .plain rfl
  | ok q => exact .interned q

theorem serve_serves (r : Registry) (request : Request) :
    Serves r (r.serve request).1 (r.serve request).2 := by
  cases request with
  | keyword ns localName => exact serves_internChecked r (Name.ofParts ns localName)
  | parseKeyword literal => exact serves_internChecked r (Name.parse (dropMarker literal))
  | intern q => exact .interned q
  | find ns localName =>
      simp only [serve, findKeyword]
      cases Name.ofParts ns localName with
      | error f => exact .plain rfl
      | ok q =>
          cases hfind : r.table.find? q with
          | none =>
              simp only [hfind]
              exact .plain rfl
          | some k =>
              simp only [hfind]
              exact .found hfind
  | keywordOfSymbol s => exact .interned s.name
  | preload =>
      have hpreload := r.table.preload_eq
      generalize KeywordTable.record _ _ = table at hpreload
      simp only [serve, hpreload]
      exact .preloaded hpreload
  | resetStats => exact .reset

section

variable {r r' : Registry} {a : Answer Keyword}

theorem Serves.extends (h : Serves r a r') : r.table.Extends r'.table := by
  cases h with
  | plain _ => exact .refl r.table
  | found _ => exact .refl r.table
  | interned q => exact r.table.extends_intern q
  | preloaded hpreload =>
      have hextends := r.table.extends_preload
      rw [hpreload] at hextends
      exact hextends
  | reset => exact KeywordTable.extends_of_keywords_eq rfl rfl

theorem Serves.reachable (h : Serves r a r') (hr : r.table.Reachable) : r'.table.Reachable := by
  cases h with
  | plain _ => exact hr
  | found _ => exact hr
  | interned q => exact hr.intern q
  | preloaded hpreload =>
      have hlater := hr.preload
      rw [hpreload] at hlater
      exact hlater
  | reset => exact hr.resetStats

theorem Serves.sound (h : Serves r a r') (hr : r.table.Sound) : r'.table.Sound := by
  cases h with
  | plain _ => exact hr
  | found _ => exact hr
  | interned q => exact hr.intern q
  | preloaded hpreload =>
      have hlater := hr.preload
      rw [hpreload] at hlater
      exact hlater
  | reset => exact hr.resetStats

/-- A keyword that is given is one that the table holds. -/
theorem Serves.mem_of_answer (h : Serves r a r') {k : Keyword} (hk : k ∈ a.keywords) :
    k ∈ r'.table.keywords := by
  cases h with
  | plain hnone =>
      rw [hnone] at hk
      cases hk
  | found hfind =>
      rw [List.mem_singleton.mp hk]
      exact KeywordTable.mem_of_find? hfind
  | interned q =>
      rw [List.mem_singleton.mp hk]
      exact KeywordTable.mem_of_find? (r.table.find?_intern q)
  | preloaded _ => cases hk
  | reset => cases hk

end

/-! ## Reports -/

/-- An answer, with what the registry tells of its table right after it. -/
structure Report (κ : Type) where
  answer : Answer κ
  size : Nat
  listing : List κ
  hits : Nat
  misses : Nat

namespace Report

def keywords {κ : Type} (report : Report κ) : List κ :=
  report.answer.keywords ++ report.listing

def map {κ ι : Type} (f : κ → ι) (report : Report κ) : Report ι where
  answer := report.answer.map f
  size := report.size
  listing := report.listing.map f
  hits := report.hits
  misses := report.misses

theorem keywords_map {κ ι : Type} (f : κ → ι) (report : Report κ) :
    (report.map f).keywords = report.keywords.map f := by
  cases hanswer : report.answer <;> simp [keywords, map, Answer.map, Answer.keywords, hanswer]

theorem map_map {κ ι μ : Type} (f : ι → μ) (g : κ → ι) (report : Report κ) :
    (report.map g).map f = report.map (f ∘ g) := by
  cases hanswer : report.answer <;> simp [map, Answer.map, hanswer]

theorem map_congr {κ ι : Type} {f g : κ → ι} {report : Report κ}
    (h : ∀ k ∈ report.keywords, f k = g k) : report.map f = report.map g := by
  have hlisting : report.listing.map f = report.listing.map g :=
    List.map_congr_left fun k hk => h k (List.mem_append_right _ hk)
  have hanswer : report.answer.map f = report.answer.map g := by
    cases ha : report.answer with
    | keyword k =>
        have hk : k ∈ report.keywords := by simp [keywords, ha, Answer.keywords]
        simp [Answer.map, h k hk]
    | nothing => rfl
    | fault f => rfl
    | installed count => rfl
    | done => rfl
  simp [map, hlisting, hanswer]

end Report

def report (r : Registry) (answer : Answer Keyword) : Report Keyword where
  answer
  size := r.table.size
  listing := r.table.sorted
  hits := r.table.hits
  misses := r.table.misses

/-- The reports of a registry that is asked several times, and the registry after that. -/
def serveAll (r : Registry) : List Request → List (Report Keyword) × Registry
  | [] => ([], r)
  | request :: rest =>
    let (answer, r) := r.serve request
    let (reports, later) := r.serveAll rest
    (r.report answer :: reports, later)

/-- A report shows only keywords that the table holds. -/
theorem mem_of_report (r : Registry) (request : Request) {k : Keyword}
    (hk : k ∈ ((r.serve request).2.report (r.serve request).1).keywords) :
    k ∈ (r.serve request).2.table.keywords := by
  rcases List.mem_append.mp hk with hk | hk
  · exact (r.serve_serves request).mem_of_answer hk
  · exact KeywordTable.mem_sorted.mp hk

/-! ## Reachable registries -/

/-- The registries that can come to be: a new one or one set up by a layout, and what requests,
or the steps of workers that share its table, make of it. -/
inductive Reachable : Registry → Prop
  | new (number : Nat) : Reachable (.new number)
  | ofLayout {number l r} : ofLayout number l = .ok r → Reachable r
  | serve {r} (request : Request) : Reachable r → Reachable (r.serve request).2
  | run {r} (requests : List (List Name)) (turns : List Turn) : Reachable r →
      Reachable { r with table := ((Pool.start r.table requests).run turns).table }

/-- Only a layout that passes its check gives a registry. -/
theorem eq_of_ofLayout {number : Nat} {l : Layout} {r : Registry} (h : ofLayout number l = .ok r) :
    r = ⟨l, .setUp number l⟩ := by
  cases hcheck : l.validate with
  | ok _ =>
      rw [ofLayout_of_validate hcheck] at h
      exact (Except.ok.inj h).symm
  | error fault =>
      rw [ofLayout_of_fault hcheck] at h
      cases h

theorem reachable_setUp (number : Nat) (l : Layout) : (KeywordTable.setUp number l).Reachable := by
  refine .record _ ?_
  have hempty : (KeywordTable.empty number l.memoLimit.toNat).Reachable := .empty number _
  split
  · exact hempty.preload
  · exact hempty

theorem Reachable.table {r : Registry} (hr : r.Reachable) : r.table.Reachable := by
  induction hr with
  | new number => exact .empty number _
  | ofLayout h =>
      rw [eq_of_ofLayout h]
      exact reachable_setUp _ _
  | @serve r request _ ih => exact (r.serve_serves request).reachable ih
  | run requests turns _ ih => exact ih.run requests turns

end Moniker.Registry
