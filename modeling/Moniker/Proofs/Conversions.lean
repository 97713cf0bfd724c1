import Moniker.Proofs.Collisions
import Moniker.Proofs.Requests
import Moniker.Proofs.Symbol

/-! # From keywords to symbols and back

A keyword comes back from its symbol as itself, for one hit. A symbol comes back from its keyword
as an equal one on a core of its own. On either way the two hash codes, one from the memo of a table
and one computed at once, are as far apart as their kinds. -/

namespace Moniker

namespace Symbol

/-- The symbol was made in some run of tasks, after which the supply goes on. -/
def MadeBefore (s : Symbol) (later : Supply) : Prop :=
  ∃ supply tasks, s ∈ Workshop.made supply tasks ∧
    (Workshop.run ⟨supply, []⟩ tasks).supply.nextCore ≤ later.nextCore

section

variable {s : Symbol} {later : Supply}

theorem MadeBefore.code_eq (h : s.MadeBefore later) : s.code = Hash.qualified .symbol s.name := by
  obtain ⟨supply, tasks, hs, -⟩ := h
  exact ((Workshop.sound_start supply).run tasks).codes s hs

theorem MadeBefore.number_lt (h : s.MadeBefore later) : s.core.number < later.nextCore := by
  obtain ⟨supply, tasks, hs, hle⟩ := h
  exact Nat.lt_of_lt_of_le (((Workshop.sound_start supply).run tasks).issued s hs) hle

/-- A symbol made anew of the same name is equal, and shares nothing. -/
theorem MadeBefore.ofName_beq (h : s.MadeBefore later) :
    let t := ((Symbol.ofName s.name).run later).1
    t == s ∧ t.metadata = none ∧ ¬t.sharesCore s := by
  intro t
  have hcode : t.code = s.code := h.code_eq.symm
  have hnumber : t.core.number ≠ s.core.number := (Nat.ne_of_lt h.number_lt).symm
  refine ⟨?_, rfl, ?_⟩
  · have hname : t.name = s.name := rfl
    simp [BEq.beq, hcode, hname]
  · simpa [sharesCore] using hnumber

end

end Symbol

namespace Registry

section

variable {r : Registry}

theorem name_keywordOfSymbol (r : Registry) (s : Symbol) : (r.keywordOfSymbol s).1.name = s.name :=
  KeywordTable.name_of_find? (r.table.find?_intern s.name)

theorem Reachable.code_keywordOfSymbol (hr : r.Reachable) (s : Symbol) :
    (r.keywordOfSymbol s).1.code = Kind.keyword.fold (Hash.qualified .symbol s.name) := by
  have hmem := KeywordTable.mem_of_find? (r.table.find?_intern s.name)
  have hcode := (hr.table.sound.intern s.name).codes _ hmem
  rw [KeywordTable.name_of_find? (r.table.find?_intern s.name), Hash.qualified_keyword] at hcode
  exact hcode

theorem Reachable.keywordOfSymbol_of_mem (hr : r.Reachable) {k : Keyword}
    (hk : k ∈ r.table.keywords) {s : Symbol} (hs : s.name = k.name) :
    r.keywordOfSymbol s = (k, { r with table := r.table.countHit }) := by
  have hfind : r.table.find? s.name = some k :=
    hr.table.sound.find?_eq_some_iff.mpr ⟨hk, hs.symm⟩
  rw [keywordOfSymbol, intern, KeywordTable.intern_of_find? hfind]

end

/-- What comes back on a way there and back. A keyword that the registry holds is found again, and
nothing but a hit is left of that. A symbol of any run comes back equal, plain and on a new core.
The two codes belong to one name. -/
structure ConversionSpec (r : Registry) : Prop where
  keyword_back : ∀ k ∈ r.table.keywords, ∀ supply,
    r.keywordOfSymbol (k.toSymbol.run supply).1 =
      (k, { r with table := { r.table with hits := r.table.hits + 1 } })
  symbol_back : ∀ s later, s.MadeBefore later →
    let t := ((r.keywordOfSymbol s).1.toSymbol.run later).1
    t == s ∧ t.metadata = none ∧ ¬t.sharesCore s
  code_of_keyword : ∀ k ∈ r.table.keywords, ∀ supply,
    k.code = Kind.keyword.fold (k.toSymbol.run supply).1.code
  code_of_symbol : ∀ s later, s.MadeBefore later →
    (r.keywordOfSymbol s).1.code = Kind.keyword.fold s.code

/-- The conversions are inverse on any registry, whatever it has been through, for keywords however
they were interned and symbols however they were made. -/
theorem conversions_are_inverse (r : Registry) (hr : r.Reachable) : ConversionSpec r where
  keyword_back := fun _ hk _ => hr.keywordOfSymbol_of_mem hk rfl
  symbol_back := by
    intro s later hs
    have hsymbol := hs.ofName_beq
    rw [← r.name_keywordOfSymbol s] at hsymbol
    exact hsymbol
  code_of_keyword := by
    intro k hk supply
    rw [hr.table.sound.codes k hk, Hash.qualified_keyword]
    rfl
  code_of_symbol := by
    intro s later hs
    rw [hr.code_keywordOfSymbol, hs.code_eq]

/-- A registry that was asked for a qualified name and for the unqualified name of the same text, and
a symbol with metadata. The keyword of the unqualified name would not be read back from its text. -/
theorem conversions_are_inverse_slash :
    let p : Name := ⟨some "a", "b", "a/b", by decide, by decide, by decide⟩
    let q : Name := ⟨none, "a/b", "a/b", by decide, by simp, rfl⟩
    let r := ((((Registry.new 0).serve (.intern p)).2).serve (.intern q)).2
    let k := (r.intern q).1
    let w := Workshop.run ⟨{}, []⟩
      [.make (.ofName p), .vary 0 (.ofEdits [.assoc k (.bool true)])]
    r.Reachable ∧ ConversionSpec r ∧ k ∈ r.table.keywords ∧ Name.parse k.name.fqn ≠ .ok k.name ∧
      (r.keywordOfSymbol (k.toSymbol.run w.supply).1).1 = k ∧
      ∃ s, s.MadeBefore w.supply ∧ s.metadata.isSome ∧ s.name.fqn = k.name.fqn ∧
        (r.keywordOfSymbol s).1 ≠ k ∧
        ((r.keywordOfSymbol s).1.toSymbol.run w.supply).1 == s ∧
        ((r.keywordOfSymbol s).1.toSymbol.run w.supply).1.metadata = none ∧
        (r.keywordOfSymbol s).1.code = Kind.keyword.fold s.code := by
  intro p q r k w
  have hr : r.Reachable := ((Registry.Reachable.new 0).serve (.intern p)).serve (.intern q)
  have hspec := conversions_are_inverse r hr
  have hk : k ∈ r.table.keywords := List.mem_cons_of_mem _ (List.mem_singleton.mpr rfl)
  obtain ⟨s, hs, hsome, hname⟩ : ∃ s ∈ w.symbols, s.metadata.isSome ∧ s.name = p :=
    ⟨_, List.mem_cons_of_mem _ (List.mem_singleton.mpr rfl), rfl, rfl⟩
  have hmade : s.MadeBefore w.supply := ⟨_, _, hs, Nat.le_refl _⟩
  obtain ⟨hbeq, hplain, -⟩ := hspec.symbol_back s w.supply hmade
  refine ⟨hr, hspec, hk, by decide, by rw [hspec.keyword_back k hk], s, hmade, hsome, ?_, ?_, hbeq,
    hplain, hspec.code_of_symbol s w.supply hmade⟩
  · rw [hname]
    rfl
  · intro heq
    have hqualified := r.name_keywordOfSymbol s
    rw [heq, hname] at hqualified
    exact absurd hqualified (by decide)

end Registry

end Moniker
