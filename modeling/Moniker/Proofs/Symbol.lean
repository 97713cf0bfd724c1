import Moniker.Identifier

/-! # Runs that make symbols

Symbols are made anew, copied, or derived from earlier ones by a change of metadata. Whatever the
run, a symbol has the hash code of its name, and symbols on one core have one name; so the quick
tests of `==` come out as a comparison of names does. -/

namespace Moniker

/-- The core that is made next for a name. -/
def Supply.core (supply : Supply) (q : Name) : SymbolCore where
  number := supply.nextCore
  name := q
  code := Hash.qualified .symbol q

/-! ## Ways to make a symbol -/

namespace Symbol

/-- The ways to make a symbol with a core of its own. -/
inductive Construction where
  | ofParts (ns : Option String) (localName : String)
  | ofPartsWith (ns : Option String) (localName : String) (metadata : Option Metadata)
  | parse (text : String)
  | ofName (q : Name)
  | ofKeyword (k : Keyword)
  | ofRegistry (r : Registry) (ns : Option String) (localName : String)
      (metadata : Option Metadata)

def Construction.build : Construction → Except NameFault (StateM Supply Symbol)
  | ofParts ns localName => Symbol.ofParts ns localName
  | ofPartsWith ns localName metadata => Symbol.ofPartsWith ns localName metadata
  | parse text => Symbol.parse text
  | ofName q => .ok (Symbol.ofName q)
  | ofKeyword k => .ok k.toSymbol
  | ofRegistry r ns localName metadata => r.symbol ns localName metadata

/-- The metadata that the symbol is to carry. -/
def Construction.given : Construction → Option Metadata
  | ofPartsWith _ _ metadata | ofRegistry _ _ _ metadata => metadata
  | _ => none

theorem withMetadata_metadata (s : Symbol) : s.withMetadata s.metadata = s := by
  cases s
  rfl

theorem run_ofName (q : Name) (supply : Supply) :
    (ofName q).run supply =
      (⟨supply.core q, none⟩, { supply with nextCore := supply.nextCore + 1 }) := rfl

theorem run_ofPartsWith {ns : Option String} {localName : String} {metadata : Option Metadata}
    {make : StateM Supply Symbol} (h : ofPartsWith ns localName metadata = .ok make)
    (supply : Supply) :
    ∃ q, make.run supply =
      (⟨supply.core q, metadata⟩, { supply with nextCore := supply.nextCore + 1 }) := by
  rw [ofPartsWith, ofParts] at h
  cases hname : Name.ofParts ns localName with
  | error fault =>
      rw [hname] at h
      cases h
  | ok q =>
      rw [hname] at h
      cases h
      exact ⟨q, rfl⟩

/-- Every construction takes the next core number, for the name it is made of. -/
theorem Construction.run_build {c : Construction} {make : StateM Supply Symbol}
    (h : c.build = .ok make) (supply : Supply) :
    ∃ q, make.run supply =
      (⟨supply.core q, c.given⟩, { supply with nextCore := supply.nextCore + 1 }) := by
  have hmap : ∀ {made : Except NameFault Name}, made.map Symbol.ofName = .ok make →
      ∃ q, make.run supply =
        (⟨supply.core q, none⟩, { supply with nextCore := supply.nextCore + 1 }) := by
    intro made hmade
    cases made with
    | error fault => cases hmade
    | ok q =>
        cases hmade
        exact ⟨q, run_ofName q supply⟩
  cases c with
  | ofParts ns localName => exact hmap h
  | ofPartsWith ns localName metadata => exact run_ofPartsWith h supply
  | parse text => exact hmap h
  | ofName q =>
      cases h
      exact ⟨q, run_ofName q supply⟩
  | ofKeyword k =>
      cases h
      exact ⟨k.name, run_ofName k.name supply⟩
  | ofRegistry r ns localName metadata => exact run_ofPartsWith h supply

end Symbol

/-! ## Changes of metadata -/

/-- What may be done to metadata. On the way new cores and maps may be made; the number of a core
is never given again. -/
structure Metadata.Revision where
  apply : Metadata → StateM Supply Metadata
  nextCore_le : ∀ m supply, supply.nextCore ≤ ((apply m).run supply).2.nextCore

namespace Metadata

theorem nextCore_edit (m : Metadata) (e : Edit) (supply : Supply) :
    ((m.edit e).run supply).2.nextCore = supply.nextCore := by
  cases e with
  | assoc key value => rfl
  | dissoc key =>
      simp only [edit]
      split <;> rfl
  | merge other =>
      simp only [edit]
      split <;> rfl

theorem nextCore_editAll (m : Metadata) (edits : List Edit) (supply : Supply) :
    ((m.editAll edits).run supply).2.nextCore = supply.nextCore := by
  induction edits generalizing m supply with
  | nil => rfl
  | cons e edits ih =>
      have hrest := ih ((m.edit e).run supply).1 ((m.edit e).run supply).2
      rw [nextCore_edit] at hrest
      exact hrest

def Revision.ofEdits (edits : List Edit) : Revision where
  apply m := m.editAll edits
  nextCore_le m supply := Nat.le_of_eq (nextCore_editAll m edits supply).symm

end Metadata

/-- A change of metadata leaves the core as it is. -/
theorem Symbol.run_varyMetadata (s : Symbol) (revision : Metadata.Revision) (supply : Supply) :
    ∃ metadata later, (s.varyMetadata revision.apply).run supply =
        (s.withMetadata (some metadata), later) ∧
      supply.nextCore ≤ later.nextCore := by
  obtain ⟨core, metadata⟩ := s
  cases metadata with
  | none => exact ⟨_, _, rfl, revision.nextCore_le _ { supply with nextMap := supply.nextMap + 1 }⟩
  | some m => exact ⟨_, _, rfl, revision.nextCore_le m supply⟩

/-! ## Workshops -/

/-- The symbols made so far, in order, and the numbers to go on with. -/
structure Workshop where
  supply : Supply
  symbols : List Symbol

namespace Workshop

/-- What is asked for next: a new symbol, or one from the symbol at a place among those made. -/
inductive Task where
  | make (c : Symbol.Construction)
  | attach (place : Nat) (metadata : Option Metadata)
  | vary (place : Nat) (revision : Metadata.Revision)
  | copy (place : Nat)

/-- The workshop after one task. A task that fails, or names a place where nothing is, makes no
symbol. -/
def perform (w : Workshop) : Task → Workshop
  | .make c =>
    match c.build with
    | .error _ => w
    | .ok make =>
      let (s, supply) := make.run w.supply
      ⟨supply, w.symbols ++ [s]⟩
  | .attach place metadata =>
    match w.symbols[place]? with
    | none => w
    | some s => { w with symbols := w.symbols ++ [s.withMetadata metadata] }
  | .vary place revision =>
    match w.symbols[place]? with
    | none => w
    | some s =>
      let (s, supply) := (s.varyMetadata revision.apply).run w.supply
      ⟨supply, w.symbols ++ [s]⟩
  | .copy place =>
    match w.symbols[place]? with
    | none => w
    | some s => { w with symbols := w.symbols ++ [s] }

def run (w : Workshop) (tasks : List Task) : Workshop :=
  tasks.foldl perform w

/-- The symbols that a run of tasks makes, the numbers being given from `supply` on. -/
def made (supply : Supply) (tasks : List Task) : List Symbol :=
  (run ⟨supply, []⟩ tasks).symbols

/-- All that a task may do: nothing, a symbol on a new core, or one on the core of a symbol that
is there. -/
inductive Performs : Workshop → Workshop → Prop where
  | rest {w} : Performs w w
  | make {supply symbols q metadata} :
      Performs ⟨supply, symbols⟩
        ⟨{ supply with nextCore := supply.nextCore + 1 },
          symbols ++ [⟨supply.core q, metadata⟩]⟩
  | derive {supply later symbols s metadata} : s ∈ symbols → supply.nextCore ≤ later.nextCore →
      Performs ⟨supply, symbols⟩ ⟨later, symbols ++ [s.withMetadata metadata]⟩

theorem perform_performs (w : Workshop) (t : Task) : Performs w (w.perform t) := by
  obtain ⟨supply, symbols⟩ := w
  cases t with
  | make c =>
      cases hbuild : c.build with
      | error fault =>
          simp only [perform, hbuild]
          exact .rest
      | ok make =>
          obtain ⟨q, hrun⟩ := Symbol.Construction.run_build hbuild supply
          simp only [perform, hbuild, hrun]
          exact .make
  | attach place metadata =>
      cases hplace : symbols[place]? with
      | none =>
          simp only [perform, hplace]
          exact .rest
      | some s =>
          simp only [perform, hplace]
          exact .derive (List.mem_of_getElem? hplace) (Nat.le_refl _)
  | vary place revision =>
      cases hplace : symbols[place]? with
      | none =>
          simp only [perform, hplace]
          exact .rest
      | some s =>
          obtain ⟨metadata, later, hrun, hlater⟩ := s.run_varyMetadata revision supply
          simp only [perform, hplace, hrun]
          exact .derive (List.mem_of_getElem? hplace) hlater
  | copy place =>
      cases hplace : symbols[place]? with
      | none =>
          simp only [perform, hplace]
          exact .rest
      | some s =>
          simp only [perform, hplace]
          rw [← s.withMetadata_metadata]
          exact .derive (List.mem_of_getElem? hplace) (Nat.le_refl _)

/-- Cores have the codes of their names and numbers already given, and no two of them have one
number. -/
structure Sound (w : Workshop) : Prop where
  issued : ∀ s ∈ w.symbols, s.core.number < w.supply.nextCore
  codes : ∀ s ∈ w.symbols, s.code = Hash.qualified .symbol s.name
  cores : ∀ s ∈ w.symbols, ∀ t ∈ w.symbols, s.core.number = t.core.number → s.core = t.core

theorem sound_start (supply : Supply) : Sound ⟨supply, []⟩ where
  issued := by simp
  codes := by simp
  cores := by simp

/-- One symbol more keeps the account if its core is there already or has a new number. -/
theorem Sound.append {supply later : Supply} {symbols : List Symbol} {s : Symbol}
    (hw : Sound ⟨supply, symbols⟩) (hlater : supply.nextCore ≤ later.nextCore)
    (hissued : s.core.number < later.nextCore) (hcode : s.code = Hash.qualified .symbol s.name)
    (hcore : ∀ t ∈ symbols, s.core.number = t.core.number → s.core = t.core) :
    Sound ⟨later, symbols ++ [s]⟩ where
  issued := by
    simp only [List.forall_mem_append, List.forall_mem_singleton]
    exact ⟨fun t ht => Nat.lt_of_lt_of_le (hw.issued t ht) hlater, hissued⟩
  codes := by
    simp only [List.forall_mem_append, List.forall_mem_singleton]
    exact ⟨hw.codes, hcode⟩
  cores := by
    intro t ht u hu heq
    rcases List.mem_append.mp ht with ht | ht <;> rcases List.mem_append.mp hu with hu | hu
    · exact hw.cores t ht u hu heq
    · rw [List.mem_singleton.mp hu] at heq ⊢
      exact (hcore t ht heq.symm).symm
    · rw [List.mem_singleton.mp ht] at heq ⊢
      exact hcore u hu heq
    · rw [List.mem_singleton.mp ht, List.mem_singleton.mp hu]

theorem Performs.sound {w w' : Workshop} (h : Performs w w') (hw : w.Sound) : w'.Sound := by
  cases h with
  | rest => exact hw
  | make =>
      refine hw.append (Nat.le_succ _) (Nat.lt_succ_self _) rfl ?_
      intro t ht heq
      exact absurd heq (Nat.ne_of_gt (hw.issued t ht))
  | @derive supply later symbols s metadata hs hlater =>
      exact hw.append hlater (Nat.lt_of_lt_of_le (hw.issued s hs) hlater) (hw.codes s hs) (hw.cores s hs)

theorem Sound.run {w : Workshop} (hw : w.Sound) (tasks : List Task) : (w.run tasks).Sound := by
  induction tasks generalizing w with
  | nil => exact hw
  | cons t tasks ih => exact ih ((w.perform_performs t).sound hw)

/-- The shortcut by the core and the check of the codes never change what comparing the names
would answer. -/
theorem Sound.beq_iff {w : Workshop} (hw : w.Sound) {a b : Symbol} (ha : a ∈ w.symbols)
    (hb : b ∈ w.symbols) : a == b ↔ a.name = b.name := by
  simp only [BEq.beq, Symbol.sharesCore, Bool.or_eq_true, Bool.and_eq_true, decide_eq_true_eq]
  constructor
  · rintro (hcore | ⟨-, hname⟩)
    · exact congrArg SymbolCore.name (hw.cores a ha b hb (by simpa using hcore))
    · exact hname
  · intro hname
    exact .inr ⟨by rw [hw.codes a ha, hw.codes b hb, hname], hname⟩

/-- What `==` says of the symbols of a run. -/
structure EqualitySpec (symbols : List Symbol) : Prop where
  code_eq : ∀ a ∈ symbols, a.code = Hash.qualified .symbol a.name
  beq_iff : ∀ a ∈ symbols, ∀ b ∈ symbols,
    a == b ↔ a.name.ns = b.name.ns ∧ a.name.localName = b.name.localName
  refl : ∀ a ∈ symbols, a == a
  symm : ∀ a ∈ symbols, ∀ b ∈ symbols, a == b → b == a
  trans : ∀ a ∈ symbols, ∀ b ∈ symbols, ∀ c ∈ symbols, a == b → b == c → a == c
  fed_eq : ∀ a ∈ symbols, ∀ b ∈ symbols, a == b →
    (Identifier.symbol a).fed = (Identifier.symbol b).fed
  beq_of_sharesCore : ∀ a ∈ symbols, ∀ b ∈ symbols, a.sharesCore b → a == b

/-- Symbols have the hash codes of their names, and are equal exactly when their parts are: an
equivalence that the hash codes respect and that a shared core implies. -/
theorem made_equality (supply : Supply) (tasks : List Task) :
    EqualitySpec (made supply tasks) := by
  have hw : (run ⟨supply, []⟩ tasks).Sound := (sound_start supply).run tasks
  refine ⟨hw.codes, ?_, ?_, ?_, ?_, ?_, ?_⟩
  · intro a ha b hb
    rw [hw.beq_iff ha hb]
    constructor
    · intro hname
      rw [hname]
      exact ⟨rfl, rfl⟩
    · rintro ⟨hns, hlocal⟩
      exact Name.ext hns hlocal
  · intro a ha
    exact (hw.beq_iff ha ha).mpr rfl
  · intro a ha b hb hab
    exact (hw.beq_iff hb ha).mpr ((hw.beq_iff ha hb).mp hab).symm
  · intro a ha b hb c hc hab hbc
    exact (hw.beq_iff ha hc).mpr (((hw.beq_iff ha hb).mp hab).trans ((hw.beq_iff hb hc).mp hbc))
  · intro a ha b hb hab
    have hname := (hw.beq_iff ha hb).mp hab
    have hcode : a.code = b.code := by rw [hw.codes a ha, hw.codes b hb, hname]
    exact congrArg (fun code => [code]) hcode
  · intro a ha b hb hshare
    refine (hw.beq_iff ha hb).mpr ?_
    exact congrArg SymbolCore.name (hw.cores a ha b hb (by simpa [Symbol.sharesCore] using hshare))

/-- A symbol, one with metadata on the same core, and one made anew of the same parts. -/
theorem made_equality_twins :
    let tasks : List Task :=
      [.make (.parse "n/a"), .vary 0 (.ofEdits []), .make (.ofParts (some "n") "a")]
    ∃ a ∈ made {} tasks, ∃ b ∈ made {} tasks, ∃ c ∈ made {} tasks,
      a.metadata.isNone ∧ b.metadata.isSome ∧ a.sharesCore b ∧ ¬a.sharesCore c ∧
        a == b ∧ b == c := by
  intro tasks
  have hspec := made_equality {} tasks
  have hmade : ∃ a b c, made {} tasks = [a, b, c] ∧ a.metadata.isNone ∧ b.metadata.isSome ∧
      a.sharesCore b ∧ ¬a.sharesCore c ∧ b.name = c.name :=
    ⟨_, _, _, rfl, by decide, by decide, by decide, by decide, by decide⟩
  obtain ⟨a, b, c, hlist, hnone, hsome, hshare, hapart, hname⟩ := hmade
  have ha : a ∈ made {} tasks := by simp [hlist]
  have hb : b ∈ made {} tasks := by simp [hlist]
  have hc : c ∈ made {} tasks := by simp [hlist]
  refine ⟨a, ha, b, hb, c, hc, hnone, hsome, hshare, hapart, ?_, ?_⟩
  · exact hspec.beq_of_sharesCore a ha b hb hshare
  · exact (hspec.beq_iff b hb c hc).mpr (by rw [hname]; exact ⟨rfl, rfl⟩)

end Workshop

end Moniker
