import Moniker.Proofs.Name
import Moniker.Proofs.Verification

/-! # Literals read back

A literal says by its marker which kind it names, and the rest of it is read as a name. What is
printed of an identifier is a literal again; it leads back to the identifier exactly when the
name can be read back from its own text and no symbol looks like a keyword. -/

namespace Moniker

/-! ## The marker -/

/-- A text with the marker of keywords in front. -/
def marked (text : String) : String :=
  String.singleton Keyword.marker ++ text

theorem toList_marked (text : String) : (marked text).toList = Keyword.marker :: text.toList := by
  simp [marked]

theorem marked_inj {a b : String} : marked a = marked b ↔ a = b := by
  rw [← String.toList_inj, toList_marked, toList_marked, List.cons_inj_right, String.toList_inj]

theorem isKeywordLiteral_iff {literal : String} :
    Description.isKeywordLiteral literal ↔ ∃ text, literal = marked text := by
  rw [Description.isKeywordLiteral, beq_iff_eq, List.head?_eq_some_iff]
  constructor
  · rintro ⟨rest, hrest⟩
    refine ⟨String.ofList rest, ?_⟩
    rw [← String.toList_inj, toList_marked, hrest, String.toList_ofList]
  · rintro ⟨text, rfl⟩
    exact ⟨text.toList, toList_marked text⟩

theorem dropMarker_marked (text : String) : Registry.dropMarker (marked text) = text := by
  simp [Registry.dropMarker, toList_marked]

theorem dropMarker_of_not_marked {literal : String} (h : ¬∃ text, literal = marked text) :
    Registry.dropMarker literal = literal := by
  rw [← isKeywordLiteral_iff, Description.isKeywordLiteral, beq_iff_eq] at h
  rw [Registry.dropMarker]
  cases hlist : literal.toList with
  | nil => rfl
  | cons c rest =>
      have hc : c ≠ Keyword.marker := by simpa [hlist] using h
      simp [hc]

/-- Dropping the marker changes just the texts that have it. -/
theorem dropMarker_eq_self_iff {literal : String} :
    Registry.dropMarker literal = literal ↔ ¬∃ text, literal = marked text := by
  constructor
  · rintro h ⟨text, rfl⟩
    rw [dropMarker_marked, ← String.toList_inj, toList_marked] at h
    exact List.cons_ne_self _ _ h.symm
  · exact dropMarker_of_not_marked

/-! ## Texts and names -/

namespace Name

theorem fqn_of_parse {text : String} {q : Name} (h : parse text = .ok q) : q.fqn = text := by
  have hne : text ≠ "" := by
    rintro rfl
    cases h
  obtain ⟨p, hp, hfqn⟩ := exists_parse_fqn hne
  rw [h] at hp
  rw [Except.ok.inj hp, hfqn]

theorem parse_eq_error_iff {text : String} {fault : NameFault} :
    parse text = .error fault ↔ text = "" ∧ fault = .emptyLocal := by
  constructor
  · intro h
    by_cases hne : text = ""
    · subst hne
      exact ⟨rfl, (Except.error.inj h).symm⟩
    · obtain ⟨q, hq, -⟩ := exists_parse_fqn hne
      rw [h] at hq
      cases hq
  · rintro ⟨rfl, rfl⟩
    rfl

/-- No two texts are read alike. -/
theorem parse_inj {a b : String} : parse a = parse b ↔ a = b := by
  constructor
  · intro h
    cases hb : parse b with
    | error fault => rw [(parse_eq_error_iff.mp (h.trans hb)).1, (parse_eq_error_iff.mp hb).1]
    | ok q => rw [← fqn_of_parse (h.trans hb), ← fqn_of_parse hb]
  · rintro rfl
    rfl

end Name

/-! ## Descriptions -/

namespace Description

theorem ofText_marked (text : String) :
    ofText (marked text) = (Name.parse text).map (ofName .keyword) := by
  rw [ofText, if_pos (isKeywordLiteral_iff.mpr ⟨text, rfl⟩), dropMarker_marked]

theorem ofText_of_not_marked {literal : String} (h : ¬∃ text, literal = marked text) :
    ofText literal = (Name.parse literal).map (ofName .symbol) := by
  rw [ofText, if_neg fun hmarker => h (isKeywordLiteral_iff.mp hmarker)]

/-- A literal is described by the name that stands behind its marker, or that it is as a whole. -/
inductive Describes : String → Description → Prop where
  | keyword {text q} : Name.parse text = .ok q → Describes (marked text) (ofName .keyword q)
  | symbol {literal q} : (¬∃ text, literal = marked text) → Name.parse literal = .ok q →
      Describes literal (ofName .symbol q)

theorem describes_of_ofText {literal : String} {d : Description} (h : ofText literal = .ok d) :
    Describes literal d := by
  by_cases hmarked : ∃ text, literal = marked text
  · obtain ⟨text, rfl⟩ := hmarked
    rw [ofText_marked] at h
    obtain ⟨q, hq, rfl⟩ := exists_of_map_eq_ok h
    exact .keyword hq
  · rw [ofText_of_not_marked hmarked] at h
    obtain ⟨q, hq, rfl⟩ := exists_of_map_eq_ok h
    exact .symbol hmarked hq

theorem ofText_eq_error_iff {literal : String} {fault : NameFault} :
    ofText literal = .error fault ↔ (literal = "" ∨ literal = ":") ∧ fault = .emptyLocal := by
  by_cases hmarked : ∃ text, literal = marked text
  · obtain ⟨text, rfl⟩ := hmarked
    rw [ofText_marked, map_eq_error_iff, Name.parse_eq_error_iff]
    have hempty : marked text ≠ "" := by simp [← String.toList_inj, toList_marked]
    have hcolon : marked text = ":" ↔ text = "" := marked_inj (b := "")
    simp only [hempty, hcolon, false_or]
  · rw [ofText_of_not_marked hmarked, map_eq_error_iff, Name.parse_eq_error_iff]
    have hcolon : literal ≠ ":" := fun h => hmarked ⟨"", h⟩
    simp [hcolon]

/-- What a registry says of a literal: nothing if no name is left behind the marker; else the kind
that the marker tells, the literal as it stands, and the name that is read with its hash code. The
literal of a description is described in the same way, by any registry. -/
structure DescriptionSpec (r : Registry) (literal : String) : Prop where
  fault_iff : ∀ fault, (ofLiteral r literal).1 = .error fault ↔
    (literal = "" ∨ literal = ":") ∧ fault = .emptyLocal
  kind_iff : ∀ d, (ofLiteral r literal).1 = .ok d →
    (d.kind = .keyword ↔ ∃ text, literal = marked text)
  literal_eq : ∀ d, (ofLiteral r literal).1 = .ok d → d.literal = literal
  name_of_marked : ∀ d text, (ofLiteral r literal).1 = .ok d → literal = marked text →
    Name.parse text = .ok d.name
  name_of_plain : ∀ d, (ofLiteral r literal).1 = .ok d → (¬∃ text, literal = marked text) →
    Name.parse literal = .ok d.name
  code_eq : ∀ d, (ofLiteral r literal).1 = .ok d → d.code = Hash.qualified d.kind d.name
  again : ∀ d r', (ofLiteral r literal).1 = .ok d → r'.Reachable →
    (ofLiteral r' d.literal).1 = .ok d

theorem Describes.literal_eq {literal : String} {d : Description} (h : Describes literal d) :
    d.literal = literal := by
  cases h with
  | keyword hq => exact congrArg marked (Name.fqn_of_parse hq)
  | symbol _ hq => exact Name.fqn_of_parse hq

theorem Describes.kind_iff {literal : String} {d : Description} (h : Describes literal d) :
    d.kind = .keyword ↔ ∃ text, literal = marked text := by
  cases h with
  | keyword _ => exact ⟨fun _ => ⟨_, rfl⟩, fun _ => rfl⟩
  | symbol hplain _ => exact iff_of_false (by simp [ofName]) hplain

theorem Describes.code_eq {literal : String} {d : Description} (h : Describes literal d) :
    d.code = Hash.qualified d.kind d.name := by
  cases h <;> rfl

theorem descriptionSpec {r : Registry} (hr : r.Reachable) (literal : String) :
    DescriptionSpec r literal := by
  have hdescribes : ∀ {d}, (ofLiteral r literal).1 = .ok d → Describes literal d := fun h =>
    describes_of_ofText ((ofLiteral_eq hr literal).1.symm.trans h)
  refine ⟨?_, fun d h => (hdescribes h).kind_iff, fun d h => (hdescribes h).literal_eq, ?_, ?_,
    fun d h => (hdescribes h).code_eq, ?_⟩
  · intro fault
    rw [(ofLiteral_eq hr literal).1, ofText_eq_error_iff]
  · rintro d text h rfl
    generalize hmarked : marked text = literal at hdescribes h
    cases hdescribes h with
    | keyword hq => rwa [marked_inj.mp hmarked]
    | symbol hplain _ => exact absurd ⟨text, hmarked.symm⟩ hplain
  · intro d h hplain
    cases hdescribes h with
    | keyword _ => exact absurd ⟨_, rfl⟩ hplain
    | symbol _ hq => exact hq
  · intro d r' h hr'
    rw [(hdescribes h).literal_eq, (ofLiteral_eq hr' literal).1, ← (ofLiteral_eq hr literal).1, h]

/-- The printed form of a symbol is described as that symbol when its name is read back and does
not begin with the marker. -/
theorem ofLiteral_text_symbol {r : Registry} (hr : r.Reachable) (s : Symbol) :
    (∃ d, (ofLiteral r s.text).1 = .ok d ∧ d.kind = .symbol ∧ d.name.ns = s.name.ns ∧
        d.name.localName = s.name.localName) ↔
      Name.parse s.name.fqn = .ok s.name ∧ ¬∃ text, s.name.fqn = marked text := by
  rw [(ofLiteral_eq hr s.text).1, Symbol.text]
  constructor
  · rintro ⟨d, hd, hkind, hns, hlocal⟩
    generalize s.name.fqn = literal at hd ⊢
    cases describes_of_ofText hd with
    | keyword _ => cases hkind
    | @symbol _ q hplain hq =>
        rw [show s.name = q from (Name.ext hns hlocal).symm]
        exact ⟨hq, hplain⟩
  · rintro ⟨hread, hplain⟩
    refine ⟨ofName .symbol s.name, ?_, rfl, rfl, rfl⟩
    rw [ofText_of_not_marked hplain, hread]
    rfl

end Description

/-! ## Keywords -/

namespace Registry

theorem extends_serveAll (r : Registry) (requests : List Request) :
    r.table.Extends (r.serveAll requests).2.table := by
  induction requests generalizing r with
  | nil => exact .refl r.table
  | cons request requests ih => exact (r.serve_serves request).extends.trans (ih _)

theorem Reachable.serveAll {r : Registry} (hr : r.Reachable) (requests : List Request) :
    (r.serveAll requests).2.Reachable := by
  induction requests generalizing r with
  | nil => exact hr
  | cons request requests ih => exact ih (hr.serve request)

theorem parseKeyword_of_parse {literal : String} {q : Name}
    (h : Name.parse (dropMarker literal) = .ok q) (r : Registry) :
    r.parseKeyword literal = (.ok (r.intern q).1, (r.intern q).2) := by
  rw [parseKeyword, h]
  rfl

theorem parseKeyword_of_fault {literal : String} {fault : NameFault}
    (h : Name.parse (dropMarker literal) = .error fault) (r : Registry) :
    r.parseKeyword literal = (.error fault, r) := by
  rw [parseKeyword, h]
  rfl

/-- Two requests that gave one keyword, or both failed. -/
def SameAnswer : Except NameFault Keyword → Except NameFault Keyword → Prop
  | .ok k, .ok k' => k == k'
  | .error _, .error _ => True
  | _, _ => False

/-- Two literals name one keyword exactly when they are the same text behind their markers,
whatever is asked between the two requests. -/
theorem sameAnswer_iff {r : Registry} (hr : r.Reachable) (a b : String)
    (requests : List Request) :
    SameAnswer (r.parseKeyword a).1
        (((r.parseKeyword a).2.serveAll requests).2.parseKeyword b).1 ↔
      dropMarker a = dropMarker b := by
  rw [← Name.parse_inj]
  cases ha : Name.parse (dropMarker a) with
  | error fault =>
      rw [parseKeyword_of_fault ha]
      cases hb : Name.parse (dropMarker b) with
      | error fault' =>
          rw [parseKeyword_of_fault hb, (Name.parse_eq_error_iff.mp ha).2,
            (Name.parse_eq_error_iff.mp hb).2]
          exact iff_of_true trivial rfl
      | ok q =>
          rw [parseKeyword_of_parse hb]
          exact iff_of_false id (by simp)
  | ok p =>
      rw [parseKeyword_of_parse ha]
      cases hb : Name.parse (dropMarker b) with
      | error fault =>
          rw [parseKeyword_of_fault hb]
          exact iff_of_false id (by simp)
      | ok q =>
          rw [parseKeyword_of_parse hb]
          generalize hlater : ((r.intern p).2.serveAll requests).2 = later
          have hsound : (later.intern q).2.table.Sound := by
            rw [← hlater]
            exact ((hr.serve (.intern p)).serveAll requests).table.sound.intern q
          have hextends : (r.intern p).2.table.Extends (later.intern q).2.table := by
            rw [← hlater]
            exact (extends_serveAll _ requests).trans (KeywordTable.extends_intern _ q)
          have hfirst := hextends.find? (r.table.find?_intern p)
          have hiff := hsound.beq_iff_name_eq hfirst (later.table.find?_intern q)
          exact hiff.trans ⟨congrArg _, Except.ok.inj⟩

/-- The printed form of a keyword leads back to it when its name is read back. -/
theorem parseKeyword_text {r : Registry} (hr : r.Reachable) {k : Keyword}
    (hk : k ∈ r.table.keywords) :
    (∃ k', (r.parseKeyword k.text).1 = .ok k' ∧ k' == k) ↔
      Name.parse k.name.fqn = .ok k.name := by
  have hdrop : dropMarker k.text = k.name.fqn := dropMarker_marked k.name.fqn
  cases hread : Name.parse k.name.fqn with
  | error fault =>
      rw [parseKeyword_of_fault (by rw [hdrop, hread])]
      simp
  | ok q =>
      rw [parseKeyword_of_parse (by rw [hdrop, hread])]
      have hheld := hr.table.sound.find?_eq_some_iff.mpr ⟨hk, rfl⟩
      have hiff := (hr.table.sound.intern q).beq_iff_name_eq (r.table.find?_intern q)
        ((r.table.extends_intern q).find? hheld)
      simp only [Except.ok.injEq, exists_eq_left']
      exact hiff

end Registry

/-! ## There and back -/

/-- How literals are read and how what is printed is read again, on one registry. -/
structure LiteralsSpec (r : Registry) : Prop where
  described : ∀ literal, Description.DescriptionSpec r literal
  keyword_iff : ∀ k ∈ r.table.keywords,
    (∃ k', (r.parseKeyword k.text).1 = .ok k' ∧ k' == k) ↔ Name.parse k.name.fqn = .ok k.name
  symbol_iff : ∀ s : Symbol,
    (∃ d, (Description.ofLiteral r s.text).1 = .ok d ∧ d.kind = .symbol ∧
        d.name.ns = s.name.ns ∧ d.name.localName = s.name.localName) ↔
      Name.parse s.name.fqn = .ok s.name ∧ ¬∃ text, s.name.fqn = marked text
  marker_iff : ∀ text requests,
    Registry.SameAnswer (r.parseKeyword text).1
        (((r.parseKeyword text).2.serveAll requests).2.parseKeyword (marked text)).1 ↔
      ¬∃ rest, text = marked rest
  marked_first_iff : ∀ text requests,
    Registry.SameAnswer (r.parseKeyword (marked text)).1
        (((r.parseKeyword (marked text)).2.serveAll requests).2.parseKeyword text).1 ↔
      ¬∃ rest, text = marked rest

/-- Literals and what is printed of identifiers, on a registry in any state: what a description
says, which keywords and symbols are found again by their printed forms, and which texts name the
same keyword with one marker more. -/
theorem literals_round_trip (r : Registry) (hr : r.Reachable) : LiteralsSpec r where
  described := Description.descriptionSpec hr
  keyword_iff := fun _ => Registry.parseKeyword_text hr
  symbol_iff := Description.ofLiteral_text_symbol hr
  marker_iff := by
    intro text requests
    rw [Registry.sameAnswer_iff hr, dropMarker_marked, dropMarker_eq_self_iff]
  marked_first_iff := by
    intro text requests
    rw [Registry.sameAnswer_iff hr, dropMarker_marked, eq_comm, dropMarker_eq_self_iff]

/-- The unqualified keyword `a/b` is not found again by its printed form, and one marker more makes
another keyword of `:x` but not of `x`. -/
theorem literals_round_trip_lossy :
    let q : Name := ⟨none, "a/b", "a/b", by decide, by simp, rfl⟩
    let k := ((Registry.new 0).intern q).1
    let r := ((Registry.new 0).intern q).2
    r.Reachable ∧ k ∈ r.table.keywords ∧ (¬∃ k', (r.parseKeyword k.text).1 = .ok k' ∧ k' == k) ∧
      Registry.SameAnswer (r.parseKeyword "x").1 ((r.parseKeyword "x").2.parseKeyword ":x").1 ∧
      ¬Registry.SameAnswer (r.parseKeyword ":x").1 ((r.parseKeyword ":x").2.parseKeyword "::x").1 := by
  intro q k r
  have hr : r.Reachable := (Registry.Reachable.new 0).serve (.intern q)
  have hk : k ∈ r.table.keywords := List.mem_singleton.mpr rfl
  have hspec := literals_round_trip r hr
  refine ⟨hr, hk, ?_, (hspec.marker_iff "x" []).mpr ?_, mt (hspec.marker_iff ":x" []).mp ?_⟩
  · rw [hspec.keyword_iff k hk]
    decide
  · rw [← isKeywordLiteral_iff]
    decide
  · rw [← isKeywordLiteral_iff]
    decide

end Moniker
