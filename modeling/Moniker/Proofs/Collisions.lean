import Moniker.Hash.Qualified
import Moniker.Proofs.Reversible

/-! # When two names share a hash code

Under one local name the code of a name is decided by the hash of its namespace, and nothing is
lost on the way: two namespaces collide exactly if their hashes do. The two kinds of one name
never share a code. -/

namespace Moniker.Hash

open Text

/-! ## Namespaces apart in one unit -/

theorem polynomialFrom_step_injective (u : UInt16) :
    Function.Injective fun h : Int32 => h * 31 + u.toUInt32.toInt32 := by
  intro g h heq
  exact (signed_mul_left_inj_of_odd (by decide)).mp ((Int32.add_left_inj _).mp heq)

theorem polynomial_ne {s t : String} (h : DifferInOnePlace (units s) (units t)) :
    polynomial s ≠ polynomial t := by
  obtain ⟨before, u, v, after, hs, ht, hne⟩ := h.exists_split
  intro heq
  rw [polynomial, polynomial, polynomialFrom, polynomialFrom, hs, ht,
    foldl_append_cons_inj polynomialFrom_step_injective, Int32.add_right_inj] at heq
  exact hne (UInt16.toUInt32_inj.mp (congrArg Int32.toUInt32 heq))

/-! ## Names -/

theorem qualified_eq_iff {k : Kind} {a b : Name} (hlocal : a.localName = b.localName) :
    qualified k a = qualified k b ↔ ofNamespace a.ns = ofNamespace b.ns := by
  rw [qualified, qualified, hlocal, Kind.fold_inj, combine_left_inj]

theorem qualified_keyword (q : Name) :
    qualified .keyword q = Kind.keyword.fold (qualified .symbol q) := by
  rw [qualified, qualified, Kind.fold_symbol]

theorem fold_keyword_ne (base : Int32) : Kind.keyword.fold base ≠ base := by
  intro h
  have htag : Kind.keyword.tag = 0 := Int32.add_eq_left.mp h
  exact absurd htag (by decide)

/-- Under one local name two codes are the same exactly if the hashes of the namespaces are, none
counting as zero. So namespaces apart in one unit never collide, and a namespace collides with none
exactly if its hash is zero. Symbols and keywords of one name are a fixed distance apart. -/
theorem codes_collide_by_namespace :
    (∀ (k : Kind) (a b : Name), a.localName = b.localName →
      (qualified k a = qualified k b ↔ ofNamespace a.ns = ofNamespace b.ns)) ∧
    (∀ (k : Kind) (a b : Name) (s t : String), a.localName = b.localName →
      a.ns = some s → b.ns = some t → DifferInOnePlace (units s) (units t) →
      qualified k a ≠ qualified k b) ∧
    (∀ (k : Kind) (a b : Name) (s : String), a.localName = b.localName →
      a.ns = some s → b.ns = none → (qualified k a = qualified k b ↔ polynomial s = 0)) ∧
    ∀ q : Name, qualified .symbol q ≠ qualified .keyword q ∧
      qualified .keyword q = Kind.keyword.fold (qualified .symbol q) := by
  refine ⟨fun k a b hlocal => qualified_eq_iff hlocal, ?_, ?_, ?_⟩
  · intro k a b s t hlocal ha hb hdiffer h
    rw [qualified_eq_iff hlocal, ha, hb] at h
    exact polynomial_ne hdiffer h
  · intro k a b s hlocal ha hb
    rw [qualified_eq_iff hlocal, ha, hb]
    rfl
  · intro q
    refine ⟨fun h => ?_, qualified_keyword q⟩
    rw [qualified_keyword] at h
    exact fold_keyword_ne _ h.symm

/-- Two namespaces of one hash collide, a third that is one unit away from the first does not, and
the namespace whose only unit is zero collides with none. -/
theorem codes_collide_by_namespace_twins :
    let first : Name := ⟨some "Aa", "n", "Aa/n", by decide, by decide, by decide⟩
    let twin : Name := ⟨some "BB", "n", "BB/n", by decide, by decide, by decide⟩
    let near : Name := ⟨some "Ab", "n", "Ab/n", by decide, by decide, by decide⟩
    let zero : Name := ⟨some "\x00", "n", "\x00/n", by decide, by decide, by decide⟩
    let bare : Name := ⟨none, "n", "n", by decide, by simp, rfl⟩
    first.localName = twin.localName ∧ qualified .symbol first = qualified .symbol twin ∧
      DifferInOnePlace (units "Aa") (units "Ab") ∧
      qualified .keyword first ≠ qualified .keyword near ∧
      qualified .keyword zero = qualified .keyword bare := by
  intro first twin near zero bare
  obtain ⟨hcollide, hapart, hnone, -⟩ := codes_collide_by_namespace
  have hdiffer : DifferInOnePlace (units "Aa") (units "Ab") :=
    differInOnePlace_append_cons [65] [] (show (97 : UInt16) ≠ 98 by decide)
  exact ⟨rfl, (hcollide .symbol first twin rfl).mpr (by decide), hdiffer,
    hapart .keyword first near "Aa" "Ab" rfl rfl rfl hdiffer,
    (hnone .keyword zero bare "\x00" rfl rfl rfl).mpr (by decide)⟩

end Moniker.Hash
