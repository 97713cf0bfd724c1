import Mathlib.Data.List.TakeWhile
import Moniker.Name

/-! # Names and their texts

Reading a text and writing the name that it gives leads back to the text. The other way round
some names are lost: an unqualified name with a separator inside reads as a qualified one. -/

namespace Moniker.Name

/-! ## The first separator -/

/-- A text whose first separator stands between two given sequences of characters. -/
def SplitsAt (text : String) (before after : List Char) : Prop :=
  text.toList = before ++ separator :: after ∧ separator ∉ before

theorem not_mem_or_splitsAt (text : String) :
    separator ∉ text.toList ∨ ∃ before after, SplitsAt text before after := by
  by_cases h : separator ∈ text.toList
  · obtain ⟨before, after, htext, hfirst⟩ := List.eq_append_cons_of_mem h
    exact .inr ⟨before, after, htext, hfirst⟩
  · exact .inl h

theorem SplitsAt.scan {text : String} {before after : List Char}
    (h : SplitsAt text before after) :
    text.toList.takeWhile (· != separator) = before ∧
      (text.toList.dropWhile (· != separator)).drop 1 = after := by
  obtain ⟨htext, hfirst⟩ := h
  have hbefore : ∀ c ∈ before, (c != separator) = true := by
    intro c hc
    rw [bne_iff_ne]
    rintro rfl
    exact hfirst hc
  rw [htext, List.takeWhile_append_of_pos hbefore, List.dropWhile_append_of_pos hbefore]
  simp

/-! ## Reading -/

/-- A text with something on both sides of its first separator is a qualified name. -/
theorem parse_of_splitsAt {text : String} {before after : List Char}
    (h : SplitsAt text before after) (hbefore : before ≠ []) (hafter : after ≠ []) :
    parse text = ofParts (some (String.ofList before)) (String.ofList after) := by
  simp [parse, h.scan.1, h.scan.2, hbefore, hafter]

/-- A text whose first separator is at one of its ends is a local name as a whole. -/
theorem parse_of_splitsAt_end {text : String} {before after : List Char}
    (h : SplitsAt text before after) (hend : before = [] ∨ after = []) :
    parse text = ofParts none text := by
  simp only [parse, h.scan.1, h.scan.2]
  rcases hend with rfl | rfl <;> simp

theorem parse_of_not_mem {text : String} (h : separator ∉ text.toList) :
    parse text = ofParts none text := by
  have hall : ∀ c ∈ text.toList, (c != separator) = true := by
    intro c hc
    rw [bne_iff_ne]
    rintro rfl
    exact h hc
  have hrest : text.toList.dropWhile (· != separator) = [] :=
    List.dropWhile_eq_nil_iff.mpr hall
  simp [parse, hrest]

theorem ofParts_ok {ns : Option String} {localName : String} (hl : localName ≠ "")
    (hns : ∀ s ∈ ns, NamespaceValid s) :
    ofParts ns localName = .ok ⟨ns, localName, joined ns localName, hl, hns, rfl⟩ :=
  ofParts_eq_ok_iff.mpr ⟨rfl, rfl⟩

/-- Every text but the empty one is read, and written back as it was. -/
theorem exists_parse_fqn {text : String} (hne : text ≠ "") :
    ∃ q, parse text = .ok q ∧ q.fqn = text := by
  have hwhole : ∃ q, ofParts none text = .ok q ∧ q.fqn = text :=
    ⟨_, ofParts_ok hne (by simp), rfl⟩
  rcases not_mem_or_splitsAt text with hnone | ⟨before, after, hsplit⟩
  · rw [parse_of_not_mem hnone]
    exact hwhole
  · by_cases hend : before = [] ∨ after = []
    · rw [parse_of_splitsAt_end hsplit hend]
      exact hwhole
    · obtain ⟨hbefore, hafter⟩ := not_or.mp hend
      rw [parse_of_splitsAt hsplit hbefore hafter]
      have hvalid : NamespaceValid (String.ofList before) := by
        refine ⟨?_, by simpa using hsplit.2⟩
        simpa [← String.toList_inj] using hbefore
      refine ⟨_, ofParts_ok (by simpa [← String.toList_inj] using hafter) (by simpa using hvalid), ?_⟩
      rw [← String.toList_inj]
      simp [joined, hsplit.1]

/-! ## Writing and reading again -/

theorem toList_fqn_of_some {q : Name} {s : String} (h : q.ns = some s) :
    q.fqn.toList = s.toList ++ separator :: q.localName.toList := by
  rw [q.fqn_eq, h]
  simp [joined]

theorem fqn_of_none {q : Name} (h : q.ns = none) : q.fqn = q.localName := by
  rw [q.fqn_eq, h]
  rfl

theorem parse_fqn_of_some {q : Name} {s : String} (h : q.ns = some s) :
    parse q.fqn = .ok q := by
  obtain ⟨hs, hfirst⟩ := q.ns_valid s h
  have hsplit : SplitsAt q.fqn s.toList q.localName.toList := ⟨toList_fqn_of_some h, hfirst⟩
  rw [parse_of_splitsAt hsplit (by simpa using hs) (by simpa using q.localName_ne)]
  rw [String.ofList_toList, String.ofList_toList, ← h, ofParts_self]

/-- An unqualified name is read back unless its first separator stands inside. -/
theorem parse_fqn_of_none {q : Name} (h : q.ns = none) :
    parse q.fqn = .ok q ↔ separator ∉ q.localName.toList ∨
      ∃ before after, SplitsAt q.localName before after ∧ (before = [] ∨ after = []) := by
  have hself : ofParts none q.localName = .ok q := by
    rw [← h]
    exact ofParts_self q
  rw [fqn_of_none h]
  constructor
  · intro hparse
    rcases not_mem_or_splitsAt q.localName with hnone | ⟨before, after, hsplit⟩
    · exact .inl hnone
    · refine .inr ⟨before, after, hsplit, ?_⟩
      by_cases hend : before = [] ∨ after = []
      · exact hend
      · obtain ⟨hbefore, hafter⟩ := not_or.mp hend
        rw [parse_of_splitsAt hsplit hbefore hafter, ofParts_eq_ok_iff, h] at hparse
        exact absurd hparse.1 (by simp)
  · rintro (hnone | ⟨before, after, hsplit, hend⟩)
    · rw [parse_of_not_mem hnone, hself]
    · rw [parse_of_splitsAt_end hsplit hend, hself]

/-- Two names that are written alike, both with a namespace or both without, are the same. -/
theorem eq_of_fqn_eq {a b : Name} (hfqn : a.fqn = b.fqn) (h : a.isQualified = b.isQualified) :
    a = b := by
  cases ha : a.ns with
  | none =>
      have hb : b.ns = none := by simpa [isQualified, ha] using h
      refine ext (ha.trans hb.symm) ?_
      rw [← fqn_of_none ha, ← fqn_of_none hb, hfqn]
  | some s =>
      obtain ⟨t, hb⟩ : ∃ t, b.ns = some t := by
        simpa [isQualified, ha, Option.isSome_iff_exists] using h
      have hread := parse_fqn_of_some ha
      rw [hfqn, parse_fqn_of_some hb] at hread
      exact (Except.ok.inj hread).symm

/-! ## Every way to make a name -/

/-- The names that the constructors make, and those made from such names by a change of
namespace. -/
inductive Made : Name → Prop where
  | ofParts {ns : Option String} {localName : String} {q : Name} :
      Name.ofParts ns localName = .ok q → Made q
  | simple {localName : String} {q : Name} : Name.simple localName = .ok q → Made q
  | parse {text : String} {q : Name} : Name.parse text = .ok q → Made q
  | withNamespace {p q : Name} {ns : Option String} :
      Made p → p.withNamespace ns = .ok q → Made q

/-- What a name keeps of its parts, how it is written, and when the written form is read as the
same name. -/
structure WrittenSpec (q : Name) : Prop where
  localName_ne : q.localName ≠ ""
  ns_valid : ∀ s, q.ns = some s → s ≠ "" ∧ separator ∉ s.toList
  fqn_of_some : ∀ s, q.ns = some s → q.fqn = s ++ "/" ++ q.localName
  fqn_of_none : q.ns = none → q.fqn = q.localName
  parse_fqn_iff : parse q.fqn = .ok q ↔
    q.isQualified ∨ separator ∉ q.localName.toList ∨
      ∃ before after, SplitsAt q.localName before after ∧ (before = [] ∨ after = [])

/-- A name is what the check of its parts lets through, whichever way it was made. -/
theorem Made.exists_ofParts {q : Name} (h : Made q) :
    ∃ ns localName, Name.ofParts ns localName = .ok q := by
  cases h with
  | ofParts h => exact ⟨_, _, h⟩
  | simple h => exact ⟨_, _, h⟩
  | @parse text _ h =>
      rw [Name.parse] at h
      split at h
      · exact ⟨_, _, h⟩
      · exact ⟨_, _, h⟩
  | withNamespace _ h => exact ⟨_, _, h⟩

theorem writtenSpec_of_ofParts {ns : Option String} {localName : String} {q : Name}
    (h : ofParts ns localName = .ok q) : WrittenSpec q := by
  obtain ⟨rfl, rfl⟩ := ofParts_eq_ok_iff.mp h
  refine ⟨q.localName_ne, q.ns_valid, ?_, fqn_of_none, ?_⟩
  · intro s hs
    rw [← String.toList_inj, toList_fqn_of_some hs]
    simp [separator]
  · cases hns : q.ns with
    | none => simpa [isQualified, hns] using parse_fqn_of_none hns
    | some s => simpa [isQualified, hns] using parse_fqn_of_some hns

/-- Every text but the empty one is read as a name that writes it. A name that was made in any
way has valid parts and is written by joining them; the written form is read as that name except
for an unqualified name whose first separator stands inside. So the written form and whether
there is a namespace tell the name. -/
theorem text_round_trip :
    ((∀ text, text ≠ "" → ∃ q, parse text = .ok q ∧ q.fqn = text) ∧
      parse "" = .error .emptyLocal) ∧
    (∀ q, Made q → WrittenSpec q) ∧
    ∀ a b, Made a → Made b → a.fqn = b.fqn → a.isQualified = b.isQualified → a = b := by
  refine ⟨⟨fun text => exists_parse_fqn, rfl⟩, ?_, ?_⟩
  · intro q hq
    obtain ⟨ns, localName, h⟩ := hq.exists_ofParts
    exact writtenSpec_of_ofParts h
  · intro a b _ _ hfqn h
    exact eq_of_fqn_eq hfqn h

/-- The unqualified `a/b` is lost, the unqualified `/b` is kept. -/
theorem text_round_trip_slashes :
    let inside : Name := ⟨none, "a/b", "a/b", by decide, by simp, rfl⟩
    let front : Name := ⟨none, "/b", "/b", by decide, by simp, rfl⟩
    Made inside ∧ Made front ∧ "a/b" ≠ "" ∧ (∃ q, parse "a/b" = .ok q ∧ q.fqn = "a/b") ∧
      parse inside.fqn ≠ .ok inside ∧ parse front.fqn = .ok front := by
  intro inside front
  have hinside : Made inside := .ofParts (ofParts_self inside)
  have hfront : Made front := .ofParts (ofParts_self front)
  obtain ⟨⟨hread, -⟩, hwritten, -⟩ := text_round_trip
  refine ⟨hinside, hfront, by decide, hread "a/b" (by decide), ?_, ?_⟩
  · rw [ne_eq, (hwritten inside hinside).parse_fqn_iff]
    rintro (hns | hnone | ⟨before, after, hsplit, hend⟩)
    · exact absurd hns (by decide)
    · exact absurd hnone (by decide)
    · have hscan := hsplit.scan
      rcases hend with rfl | rfl
      · exact absurd hscan.1 (by decide)
      · exact absurd hscan.2 (by decide)
  · exact (hwritten front hfront).parse_fqn_iff.mpr
      (.inr (.inr ⟨[], ['b'], ⟨by decide, by simp⟩, .inl rfl⟩))

end Moniker.Name
