import Moniker.Proofs.OrderedMap
import Moniker.Proofs.Symbol

/-! # What symbols share

A symbol that is derived from another one keeps its core, and each construction takes a new one: a
core tells which construction a symbol stems from. A map is kept until there is something to change:
it tells whether there was. -/

namespace Moniker

/-- The number of the metadata has been given. -/
def Supply.Issued (supply : Supply) (m : Metadata) : Prop :=
  m.number < supply.nextMap

/-! ## Edits with nothing to do -/

/-- There is no such key to remove, or nothing to add. -/
def Edit.Idle (m : Metadata) : Edit → Prop
  | .assoc _ _ => False
  | .dissoc key => ¬m.map.contains key
  | .merge other => other.map.isEmpty

namespace Metadata

section

variable {m : Metadata} {e : Edit} {edits : List Edit} {supply : Supply}

theorem edit_of_idle (h : e.Idle m) (supply : Supply) : (m.edit e).run supply = (m, supply) := by
  cases e with
  | assoc key value => cases h
  | dissoc key =>
      have hkey : ¬m.map.contains key := h
      rw [edit, if_neg hkey]
      rfl
  | merge other =>
      have hnone : other.map.isEmpty := h
      rw [edit, if_pos hnone]
      rfl

/-- An edit with something to do makes a map of the next number. -/
theorem edit_of_not_idle (h : ¬e.Idle m) (supply : Supply) :
    ∃ map, (m.edit e).run supply =
      (⟨supply.nextMap, map⟩, { supply with nextMap := supply.nextMap + 1 }) := by
  cases e with
  | assoc key value => exact ⟨_, rfl⟩
  | dissoc key =>
      have hkey : m.map.contains key := not_not.mp h
      rw [edit, if_pos hkey]
      exact ⟨_, rfl⟩
  | merge other =>
      have hsome : ¬other.map.isEmpty := h
      rw [edit, if_neg hsome]
      exact ⟨_, rfl⟩

theorem run_editAll_cons (m : Metadata) (e : Edit) (edits : List Edit) (supply : Supply) :
    (m.editAll (e :: edits)).run supply =
      (((m.edit e).run supply).1.editAll edits).run ((m.edit e).run supply).2 := rfl

/-- Numbers never go down, and those of later maps are higher. -/
theorem le_number_editAll {bound : Nat} (hm : bound ≤ m.number) (hsupply : bound ≤ supply.nextMap)
    (edits : List Edit) : bound ≤ ((m.editAll edits).run supply).1.number := by
  induction edits generalizing m supply with
  | nil => exact hm
  | cons e edits ih =>
      rw [run_editAll_cons]
      by_cases he : e.Idle m
      · rw [edit_of_idle he]
        exact ih hm hsupply
      · obtain ⟨map, hrun⟩ := edit_of_not_idle he supply
        rw [hrun]
        exact ih hsupply (Nat.le_succ_of_le hsupply)

/-- The number stays just when no edit has anything to do. -/
theorem number_editAll_eq_iff (hm : supply.Issued m) (edits : List Edit) :
    ((m.editAll edits).run supply).1.number = m.number ↔ ∀ e ∈ edits, e.Idle m := by
  induction edits with
  | nil => exact iff_of_true rfl (List.forall_mem_nil _)
  | cons e edits ih =>
      rw [run_editAll_cons, List.forall_mem_cons]
      by_cases he : e.Idle m
      · rw [edit_of_idle he, ih]
        exact (and_iff_right he).symm
      · obtain ⟨map, hrun⟩ := edit_of_not_idle he supply
        rw [hrun]
        have hle : supply.nextMap ≤ ((editAll ⟨supply.nextMap, map⟩ edits).run
            { supply with nextMap := supply.nextMap + 1 }).1.number := by
          apply le_number_editAll
          · exact Nat.le_refl _
          · exact Nat.le_succ _
        refine iff_of_false ?_ fun hidle => he hidle.1
        -- the new number was not given before, and no later edit goes below it
        intro heq
        exact Nat.not_lt.mpr hle (Nat.lt_of_le_of_lt (Nat.le_of_eq heq) hm)

theorem issued_editAll (hm : supply.Issued m) (edits : List Edit) :
    ((m.editAll edits).run supply).2.Issued ((m.editAll edits).run supply).1 ∧
      supply.nextMap ≤ ((m.editAll edits).run supply).2.nextMap := by
  induction edits generalizing m supply with
  | nil => exact ⟨hm, Nat.le_refl _⟩
  | cons e edits ih =>
      rw [run_editAll_cons]
      by_cases he : e.Idle m
      · rw [edit_of_idle he]
        exact ih hm
      · obtain ⟨map, hrun⟩ := edit_of_not_idle he supply
        rw [hrun]
        have hnew : ({ supply with nextMap := supply.nextMap + 1 } : Supply).Issued
            ⟨supply.nextMap, map⟩ := Nat.lt_succ_self _
        obtain ⟨hissued, hle⟩ := ih hnew
        exact ⟨hissued, Nat.le_of_succ_le hle⟩

end

/-- From some moment on, the revision gives metadata that exists for metadata that exists, and takes
no number back. -/
structure Revision.KeepsIssued (revision : Revision) (since : Nat) : Prop where
  issued : ∀ m supply, since ≤ supply.nextMap → supply.Issued m →
    ((revision.apply m).run supply).2.Issued ((revision.apply m).run supply).1
  nextMap_le : ∀ m supply, since ≤ supply.nextMap → supply.Issued m →
    supply.nextMap ≤ ((revision.apply m).run supply).2.nextMap

theorem Revision.keepsIssued_ofEdits (edits : List Edit) (since : Nat) :
    (Revision.ofEdits edits).KeepsIssued since where
  issued _ _ _ hm := (issued_editAll hm edits).1
  nextMap_le _ _ _ hm := (issued_editAll hm edits).2

end Metadata

/-! ## Changes of metadata -/

namespace Symbol

section

variable {s : Symbol} {m : Metadata}

theorem run_varyMetadata_of_some (h : s.metadata = some m)
    (change : Metadata → StateM Supply Metadata) (supply : Supply) :
    (s.varyMetadata change).run supply =
      (s.withMetadata (some ((change m).run supply).1), ((change m).run supply).2) := by
  rw [varyMetadata, h]
  rfl

/-- Without metadata a change starts from a new map with nothing in it. -/
theorem run_varyMetadata_of_none (h : s.metadata = none)
    (change : Metadata → StateM Supply Metadata) (supply : Supply) :
    (s.varyMetadata change).run supply =
      (s.withMetadata (some ((Metadata.empty >>= change).run supply).1),
        ((Metadata.empty >>= change).run supply).2) := by
  rw [varyMetadata, h]
  rfl

/-- Two changes in turn are one change, whatever numbers are given on the way. -/
theorem varyMetadata_varyMetadata (s : Symbol) (f g : Metadata → StateM Supply Metadata) :
    (s.varyMetadata f >>= fun t => t.varyMetadata g) = s.varyMetadata fun m => f m >>= g := by
  obtain ⟨core, metadata⟩ := s
  cases metadata with
  | none => rfl
  | some m => rfl

theorem issued_varyMetadata {supply : Supply} {revision : Metadata.Revision}
    (hrevision : revision.KeepsIssued supply.nextMap)
    (hs : ∀ m ∈ s.metadata, supply.Issued m) :
    ∃ metadata later, (s.varyMetadata revision.apply).run supply =
        (s.withMetadata (some metadata), later) ∧
      later.Issued metadata ∧ supply.nextMap ≤ later.nextMap := by
  cases hmetadata : s.metadata with
  | some m =>
      have hm : supply.Issued m := hs m hmetadata
      exact ⟨_, _, run_varyMetadata_of_some hmetadata revision.apply supply,
        hrevision.issued m supply (Nat.le_refl _) hm,
        hrevision.nextMap_le m supply (Nat.le_refl _) hm⟩
  | none =>
      have hm : ({ supply with nextMap := supply.nextMap + 1 } : Supply).Issued
          ⟨supply.nextMap, .empty⟩ := Nat.lt_succ_self _
      have hle : supply.nextMap ≤ supply.nextMap + 1 := Nat.le_succ _
      exact ⟨_, _, run_varyMetadata_of_none hmetadata revision.apply supply,
        hrevision.issued _ _ hle hm, Nat.le_trans hle (hrevision.nextMap_le _ _ hle hm)⟩

end

end Symbol

/-! ## Where symbols come from -/

namespace Workshop

/-- What a symbol comes from: a construction, or the symbol at an earlier place. -/
inductive Source where
  | construction
  | symbol (place : Nat)

/-- What the symbol comes from that a task makes, if it makes one. -/
def source? (w : Workshop) : Task → Option Source
  | .make c => c.build.toOption.map fun _ => .construction
  | .attach place _ | .vary place _ | .copy place => w.symbols[place]?.map fun _ => .symbol place

/-- Going back from the symbol at a place, one comes to the construction of the one at `c`. -/
inductive Stems (log : List Source) (c : Nat) : Nat → Prop where
  | construction : log[c]? = some .construction → Stems log c c
  | derived {i place} : log[i]? = some (.symbol place) → Stems log c place → Stems log c i

/-- The metadata that the task brings along, or may come upon, exists by then. -/
def Task.Possible (w : Workshop) : Task → Prop
  | .make c => ∀ m ∈ c.given, w.supply.Issued m
  | .attach _ metadata => ∀ m ∈ metadata, w.supply.Issued m
  | .vary _ revision => revision.KeepsIssued w.supply.nextMap
  | .copy _ => True

/-- Runs of tasks, with what each symbol comes from. Between the tasks metadata is made and edited,
and others make symbols, so that numbers are given. -/
inductive Ran : Workshop → List Source → Prop where
  | start (supply : Supply) : Ran ⟨supply, []⟩ []
  | perform {w log} {t : Task} : Ran w log → t.Possible w →
      Ran (w.perform t) (log ++ (w.source? t).toList)
  | apart {w log} {later : Supply} : Ran w log → w.supply.nextCore ≤ later.nextCore →
      w.supply.nextMap ≤ later.nextMap → Ran { w with supply := later } log

/-- All that a possible task may do, told by what the new symbol comes from. -/
inductive Makes (w : Workshop) : Option Source → Workshop → Prop where
  | nothing : Makes w none w
  | construction {q metadata} : (∀ m ∈ metadata, w.supply.Issued m) →
      Makes w (some .construction) ⟨{ w.supply with nextCore := w.supply.nextCore + 1 },
        w.symbols ++ [⟨w.supply.core q, metadata⟩]⟩
  | derived {place s metadata later} : w.symbols[place]? = some s →
      w.supply.nextMap ≤ later.nextMap → (∀ m ∈ metadata, later.Issued m) →
      Makes w (some (.symbol place)) ⟨later, w.symbols ++ [s.withMetadata metadata]⟩

theorem perform_makes {w : Workshop} {t : Task} (ht : t.Possible w)
    (hw : ∀ s ∈ w.symbols, ∀ m ∈ s.metadata, w.supply.Issued m) :
    Makes w (w.source? t) (w.perform t) := by
  cases t with
  | make c =>
      cases hbuild : c.build with
      | error fault =>
          simp only [source?, perform, hbuild]
          exact .nothing
      | ok make =>
          obtain ⟨q, hrun⟩ := Symbol.Construction.run_build hbuild w.supply
          simp only [source?, perform, hbuild, hrun]
          exact .construction ht
  | attach place metadata =>
      cases hplace : w.symbols[place]? with
      | none =>
          simp only [source?, perform, hplace]
          exact .nothing
      | some s =>
          simp only [source?, perform, hplace]
          exact .derived hplace (Nat.le_refl _) ht
  | vary place revision =>
      cases hplace : w.symbols[place]? with
      | none =>
          simp only [source?, perform, hplace]
          exact .nothing
      | some s =>
          have hs := hw s (List.mem_of_getElem? hplace)
          obtain ⟨metadata, later, hrun, hissued, hle⟩ := Symbol.issued_varyMetadata ht hs
          simp only [source?, perform, hplace, hrun]
          exact .derived hplace hle (by simpa using hissued)
  | copy place =>
      cases hplace : w.symbols[place]? with
      | none =>
          simp only [source?, perform, hplace]
          exact .nothing
      | some s =>
          simp only [source?, perform, hplace]
          rw [← s.withMetadata_metadata]
          exact .derived hplace (Nat.le_refl _) (hw s (List.mem_of_getElem? hplace))

/-! ## The account of a run -/

/-- The symbol at a place, and what it comes from. -/
structure Entry (log : List Source) (symbols : List Symbol) (i : Nat) (source : Source)
    (a : Symbol) : Prop where
  source : log[i]? = some source
  symbol : symbols[i]? = some a

/-- There is an entry for each symbol. A construction is told by the number of its core, and a
symbol from another one has the core of that one; all metadata exists. -/
structure Traced (w : Workshop) (log : List Source) : Prop where
  length_eq : log.length = w.symbols.length
  issued : ∀ s ∈ w.symbols, ∀ m ∈ s.metadata, w.supply.Issued m
  constructed : ∀ i j a b, Entry log w.symbols i .construction a →
    Entry log w.symbols j .construction b → a.core.number = b.core.number → i = j
  derived : ∀ i place a, Entry log w.symbols i (.symbol place) a →
    place < i ∧ ∃ b, w.symbols[place]? = some b ∧ a.core = b.core

theorem traced_start (supply : Supply) : Traced ⟨supply, []⟩ [] where
  length_eq := rfl
  issued := by simp
  constructed := by
    intro i j a b hi
    simpa using hi.source
  derived := by
    intro i place a hi
    simpa using hi.source

section

variable {supply later : Supply} {symbols : List Symbol} {log : List Source} {s a : Symbol}
  {source source' : Source} {i : Nat}

theorem entry_concat (hlength : log.length = symbols.length)
    (h : Entry (log ++ [source]) (symbols ++ [s]) i source' a) :
    Entry log symbols i source' a ∨ i = symbols.length ∧ source = source' ∧ s = a := by
  have hi : i < log.length ∨ i = log.length ∧ source = source' := by
    rcases getElem?_concat_eq_some_iff.mp h.source with hold | hlast
    · exact .inl (List.getElem?_eq_some_iff.mp hold).1
    · exact .inr hlast
  rcases hi with hlt | ⟨hlast, hsource⟩
  · left
    constructor
    · rw [← h.source, List.getElem?_append_left hlt]
    · rw [← h.symbol, List.getElem?_append_left (by omega)]
  · right
    have hsymbol := h.symbol
    rw [hlast, hlength, List.getElem?_concat_length] at hsymbol
    exact ⟨hlast.trans hlength, hsource, Option.some.inj hsymbol⟩

theorem Traced.issued_concat (h : Traced ⟨supply, symbols⟩ log)
    (hle : supply.nextMap ≤ later.nextMap) (hissued : ∀ m ∈ s.metadata, later.Issued m) :
    ∀ a ∈ symbols ++ [s], ∀ m ∈ a.metadata, later.Issued m := by
  simp only [List.forall_mem_append, List.forall_mem_singleton]
  exact ⟨fun a ha m hm => Nat.lt_of_lt_of_le (h.issued a ha m hm) hle, hissued⟩

/-- What an entry says of an earlier symbol is true of a longer list. -/
theorem Traced.derived_concat (h : Traced ⟨supply, symbols⟩ log) {place : Nat}
    (hi : Entry log symbols i (.symbol place) a) (s : Symbol) :
    place < i ∧ ∃ b, (symbols ++ [s])[place]? = some b ∧ a.core = b.core := by
  obtain ⟨hlt, b, hb, hcore⟩ := h.derived i place a hi
  exact ⟨hlt, b, getElem?_concat_eq_some_iff.mpr (.inl hb), hcore⟩

theorem Traced.append_construction (h : Traced ⟨supply, symbols⟩ log)
    (hle : supply.nextMap ≤ later.nextMap) (hissued : ∀ m ∈ s.metadata, later.Issued m)
    (hnew : ∀ a ∈ symbols, a.core.number ≠ s.core.number) :
    Traced ⟨later, symbols ++ [s]⟩ (log ++ [.construction]) where
  length_eq := by simpa using h.length_eq
  issued := h.issued_concat hle hissued
  constructed := by
    intro i j a b hi hj heq
    rcases entry_concat h.length_eq hi with hi | ⟨hlast, -, rfl⟩
    · rcases entry_concat h.length_eq hj with hj | ⟨-, -, rfl⟩
      · exact h.constructed i j a b hi hj heq
      · exact absurd heq (hnew a (List.mem_of_getElem? hi.symbol))
    · rcases entry_concat h.length_eq hj with hj | ⟨hlast', -, -⟩
      · exact absurd heq.symm (hnew b (List.mem_of_getElem? hj.symbol))
      · rw [hlast, hlast']
  derived := by
    intro i place a hi
    rcases entry_concat h.length_eq hi with hi | ⟨-, hsource, -⟩
    · exact h.derived_concat hi s
    · cases hsource

theorem Traced.append_derived (h : Traced ⟨supply, symbols⟩ log) {place : Nat}
    (hplace : symbols[place]? = some a) (hcore : s.core = a.core)
    (hle : supply.nextMap ≤ later.nextMap) (hissued : ∀ m ∈ s.metadata, later.Issued m) :
    Traced ⟨later, symbols ++ [s]⟩ (log ++ [.symbol place]) where
  length_eq := by simpa using h.length_eq
  issued := h.issued_concat hle hissued
  constructed := by
    intro i j b c hi hj heq
    rcases entry_concat h.length_eq hi with hi | ⟨-, hsource, -⟩
    · rcases entry_concat h.length_eq hj with hj | ⟨-, hsource, -⟩
      · exact h.constructed i j b c hi hj heq
      · cases hsource
    · cases hsource
  derived := by
    intro i place' b hi
    rcases entry_concat h.length_eq hi with hi | ⟨rfl, hsource, rfl⟩
    · exact h.derived_concat hi s
    · obtain rfl := Source.symbol.inj hsource
      have hlt : place < symbols.length := (List.getElem?_eq_some_iff.mp hplace).1
      exact ⟨hlt, a, getElem?_concat_eq_some_iff.mpr (.inl hplace), hcore⟩

end

section

variable {w w' : Workshop} {log : List Source} {source : Option Source} {a b : Symbol}
  {c i j : Nat}

theorem Makes.traced (h : Makes w source w') (hw : w.Sound) (htraced : w.Traced log) :
    w'.Traced (log ++ source.toList) := by
  cases h with
  | nothing => simpa using htraced
  | construction hissued =>
      refine htraced.append_construction (Nat.le_refl _) hissued ?_
      intro a ha
      exact Nat.ne_of_lt (hw.issued a ha)
  | derived hplace hle hissued => exact htraced.append_derived hplace rfl hle hissued

/-- A run keeps to both accounts, that of the cores and that of what symbols come from. -/
theorem Ran.traced (h : Ran w log) : w.Sound ∧ w.Traced log := by
  induction h with
  | start supply => exact ⟨sound_start supply, traced_start supply⟩
  | @perform w log t _ ht ih =>
      obtain ⟨hw, htraced⟩ := ih
      exact ⟨(w.perform_performs t).sound hw, (perform_makes ht htraced.issued).traced hw htraced⟩
  | @apart w log later _ hcore hmap ih =>
      obtain ⟨hw, htraced⟩ := ih
      refine ⟨⟨?_, hw.codes, hw.cores⟩, ⟨htraced.length_eq, ?_, htraced.constructed,
        htraced.derived⟩⟩
      · intro s hs
        exact Nat.lt_of_lt_of_le (hw.issued s hs) hcore
      · intro s hs m hm
        exact Nat.lt_of_lt_of_le (htraced.issued s hs m hm) hmap

/-! ## Shared cores -/

theorem Stems.source_eq (h : Stems log c i) : log[c]? = some .construction := by
  induction h with
  | construction hc => exact hc
  | derived _ _ ih => exact ih

/-- Every symbol stems from some construction. -/
theorem Traced.exists_stems (h : w.Traced log) (hi : w.symbols[i]? = some a) :
    ∃ c, Stems log c i := by
  -- what a symbol comes from stands at an earlier place
  induction i using Nat.strongRecOn generalizing a with
  | ind i ih =>
      have hlt : i < w.symbols.length := (List.getElem?_eq_some_iff.mp hi).1
      cases hsource : log[i]? with
      | none =>
          have hle := List.getElem?_eq_none_iff.mp hsource
          have hlength := h.length_eq
          omega
      | some source =>
          cases source with
          | construction => exact ⟨i, .construction hsource⟩
          | symbol place =>
              obtain ⟨hplace, b, hb, -⟩ := h.derived i place a ⟨hsource, hi⟩
              obtain ⟨c, hc⟩ := ih place hplace hb
              exact ⟨c, .derived hsource hc⟩

theorem Traced.exists_core_eq (h : w.Traced log) (hc : Stems log c i)
    (hi : w.symbols[i]? = some a) : ∃ b, w.symbols[c]? = some b ∧ a.core = b.core := by
  induction hc generalizing a with
  | construction _ => exact ⟨a, hi, rfl⟩
  | @derived i place hsource _ ih =>
      obtain ⟨-, b, hb, hcore⟩ := h.derived i place a ⟨hsource, hi⟩
      obtain ⟨d, hd, heq⟩ := ih hb
      exact ⟨d, hd, hcore.trans heq⟩

/-- Symbols share a core exactly when they stem from one construction. -/
theorem Traced.sharesCore_iff (h : w.Traced log) (hi : w.symbols[i]? = some a)
    (hj : w.symbols[j]? = some b) :
    a.sharesCore b ↔ ∃ c, Stems log c i ∧ Stems log c j := by
  have hshares : a.sharesCore b ↔ a.core.number = b.core.number := by simp [Symbol.sharesCore]
  rw [hshares]
  constructor
  · intro heq
    obtain ⟨c, hc⟩ := h.exists_stems hi
    obtain ⟨d, hd⟩ := h.exists_stems hj
    obtain ⟨a', ha', ha⟩ := h.exists_core_eq hc hi
    obtain ⟨b', hb', hb⟩ := h.exists_core_eq hd hj
    have hcd : c = d := by
      refine h.constructed c d a' b' ⟨hc.source_eq, ha'⟩ ⟨hd.source_eq, hb'⟩ ?_
      rw [← ha, ← hb, heq]
    rw [← hcd] at hd
    exact ⟨c, hc, hd⟩
  · intro hstem
    obtain ⟨c, hc, hd⟩ := hstem
    obtain ⟨a', ha', ha⟩ := h.exists_core_eq hc hi
    obtain ⟨b', hb', hb⟩ := h.exists_core_eq hd hj
    rw [ha'] at hb'
    rw [ha, hb, Option.some.inj hb']

end

/-! ## Sharing -/

theorem symbols_perform (w : Workshop) (t : Task) : w.symbols <+: (w.perform t).symbols := by
  have hperforms := w.perform_performs t
  generalize w.perform t = w' at hperforms
  cases hperforms with
  | rest => exact List.prefix_refl _
  | make => exact List.prefix_append _ _
  | derive _ _ => exact List.prefix_append _ _

theorem symbols_run (w : Workshop) (tasks : List Task) : w.symbols <+: (w.run tasks).symbols := by
  induction tasks generalizing w with
  | nil => exact List.prefix_refl _
  | cons t tasks ih => exact (w.symbols_perform t).trans (ih (w.perform t))

/-- Edits keep the map of a symbol of the run when there is one and nothing to be done to it. -/
theorem Traced.shared_iff {w : Workshop} {log : List Source} (h : w.Traced log) {s : Symbol}
    (hs : s ∈ w.symbols) (edits : List Edit) :
    (∃ m m', s.metadata = some m ∧
        ((s.varyMetadata (·.editAll edits)).run w.supply).1.metadata = some m' ∧
        m'.sharesMap m) ↔
      ∃ m, s.metadata = some m ∧ ∀ e ∈ edits, e.Idle m := by
  refine exists_congr fun m => ?_
  simp only [exists_and_left]
  refine and_congr_right fun hm => ?_
  rw [Symbol.run_varyMetadata_of_some hm, ← Metadata.number_editAll_eq_iff (h.issued s hs m hm)]
  simp [Symbol.withMetadata, Metadata.sharesMap]

/-- What the symbols of a run share. A core tells the construction, and with it name and code. What
is made stays as it is. Changes of metadata compose, start from what the symbol carries, and keep
the map as long as the edits have nothing to do. -/
structure SharingSpec (w : Workshop) (log : List Source) : Prop where
  sharesCore_iff : ∀ i j a b, w.symbols[i]? = some a → w.symbols[j]? = some b →
    (a.sharesCore b ↔ ∃ c, Stems log c i ∧ Stems log c j)
  same : ∀ a ∈ w.symbols, ∀ b ∈ w.symbols, a.sharesCore b → a.name = b.name ∧ a.code = b.code
  kept : ∀ tasks, w.symbols <+: (w.run tasks).symbols
  varied_twice : ∀ s ∈ w.symbols, ∀ f g : Metadata → StateM Supply Metadata,
    (s.varyMetadata f >>= fun t => t.varyMetadata g) = s.varyMetadata fun m => f m >>= g
  varied_of_some : ∀ s ∈ w.symbols, ∀ m (f : Metadata → StateM Supply Metadata) supply,
    s.metadata = some m →
      ((s.varyMetadata f).run supply).1 = s.withMetadata (some ((f m).run supply).1)
  varied_of_none : ∀ s ∈ w.symbols, ∀ (f : Metadata → StateM Supply Metadata) supply,
    s.metadata = none →
      ∃ m later, Metadata.empty.run supply = (m, later) ∧ m.map = .empty ∧
        ((s.varyMetadata f).run supply).1 = s.withMetadata (some ((f m).run later).1)
  shared_iff : ∀ s ∈ w.symbols, ∀ edits,
    (∃ m m', s.metadata = some m ∧
        ((s.varyMetadata (·.editAll edits)).run w.supply).1.metadata = some m' ∧
        m'.sharesMap m) ↔
      ∃ m, s.metadata = some m ∧ ∀ e ∈ edits, e.Idle m

/-- Whatever was constructed, derived and copied, cores are shared by what stems from one
construction, and maps by what no edit had anything to do to. -/
theorem sharing_follows_derivation {w : Workshop} {log : List Source} (h : w.Ran log) :
    SharingSpec w log := by
  obtain ⟨hw, htraced⟩ := h.traced
  refine ⟨fun i j a b => htraced.sharesCore_iff, ?_, w.symbols_run,
    fun s _ => s.varyMetadata_varyMetadata, ?_, ?_, fun s => htraced.shared_iff⟩
  · intro a ha b hb hshares
    have hcore : a.core = b.core := hw.cores a ha b hb (by simpa [Symbol.sharesCore] using hshares)
    exact ⟨congrArg SymbolCore.name hcore, congrArg SymbolCore.code hcore⟩
  · intro s _ m f supply hm
    rw [Symbol.run_varyMetadata_of_some hm]
  · intro s _ f supply hnone
    rw [Symbol.run_varyMetadata_of_none hnone]
    exact ⟨_, _, rfl, rfl, rfl⟩

/-- A symbol, one with metadata of its own derived from it, a copy of that one, and a symbol made
anew of the same text. To remove a key that is not there keeps the map of the copy; to bind a key
that is there with the same value does not. -/
theorem sharing_follows_derivation_copy :
    let q : Name := ⟨none, "line", "line", by decide, by simp, rfl⟩
    let k : Keyword := ((Registry.new 0).intern q).1
    let j : Keyword := ((Registry.new 1).intern q).1
    let tasks : List Task := [.make (.parse "n/a"), .vary 0 (.ofEdits [.assoc k (.bool true)]),
      .copy 1, .make (.parse "n/a")]
    let w := run ⟨{}, []⟩ tasks
    let log : List Source := [.construction, .symbol 0, .symbol 1, .construction]
    w.Ran log ∧ SharingSpec w log ∧ ∃ a b c, w.symbols[0]? = some a ∧ w.symbols[2]? = some b ∧
      w.symbols[3]? = some c ∧ a.sharesCore b ∧ ¬a.sharesCore c ∧
      (∃ m m', b.metadata = some m ∧
        ((b.varyMetadata (·.editAll [.dissoc j])).run w.supply).1.metadata = some m' ∧
        m'.sharesMap m) ∧
      ¬∃ m m', b.metadata = some m ∧
        ((b.varyMetadata (·.editAll [.assoc k (.bool true)])).run w.supply).1.metadata = some m' ∧
        m'.sharesMap m := by
  intro q k j tasks w log
  have hran : w.Ran log := by
    have hplain : ∀ supply : Supply, ∀ m ∈ (Symbol.Construction.parse "n/a").given,
        supply.Issued m := by simp [Symbol.Construction.given]
    have hfirst := (Ran.start {}).perform (t := .make (.parse "n/a")) (hplain _)
    have hsecond := hfirst.perform (t := .vary 0 (.ofEdits [.assoc k (.bool true)]))
      (Metadata.Revision.keepsIssued_ofEdits _ _)
    have hthird := hsecond.perform (t := .copy 1) trivial
    exact hthird.perform (t := .make (.parse "n/a")) (hplain _)
  have hspec := sharing_follows_derivation hran
  obtain ⟨a, b, c, ha, hb, hc, m, hm, hkey⟩ : ∃ a b c, w.symbols[0]? = some a ∧
      w.symbols[2]? = some b ∧ w.symbols[3]? = some c ∧ ∃ m, b.metadata = some m ∧
      m.map.contains j = false :=
    ⟨_, _, _, rfl, rfl, rfl, _, rfl, by decide⟩
  have hmem : b ∈ w.symbols := List.mem_of_getElem? hb
  refine ⟨hran, hspec, a, b, c, ha, hb, hc, ?_, ?_, ?_, ?_⟩
  · have hmade : Stems log 0 0 := .construction rfl
    refine (hspec.sharesCore_iff 0 2 a b ha hb).mpr ⟨0, hmade, ?_⟩
    have hvaried : Stems log 0 1 := .derived rfl hmade
    exact .derived rfl hvaried
  · rw [hspec.sharesCore_iff 0 3 a c ha hc]
    intro hstem
    obtain ⟨d, hfirst, hlast⟩ := hstem
    cases hfirst with
    | construction _ =>
        cases hlast with
        | derived hsource _ => cases hsource
    | derived hsource _ => cases hsource
  · refine (hspec.shared_iff b hmem [.dissoc j]).mpr ⟨m, hm, ?_⟩
    simp [Edit.Idle, hkey]
  · rw [hspec.shared_iff b hmem]
    simp [Edit.Idle]

end Workshop

end Moniker
